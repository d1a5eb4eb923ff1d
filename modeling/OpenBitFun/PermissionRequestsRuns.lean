import OpenBitFun.Lists
import OpenBitFun.PermissionRequestsOnce

/-!
# Runs of the permission request manager

The operations come in any order, with any arguments; the stores accept what they are given. An
operation that is not refused registers a batch, or settles the requests it is for, or changes
nothing (`Effect`). From this the properties of runs follow: a request that is settled stays so,
under whatever ids later requests come, and the revision tells apart any two states whose pending
requests differ.
-/

namespace OpenBitFun

open List

namespace PermissionRequests

namespace PermissionRequestManager

variable {s s' : PermissionRequestManager} {p q : PendingPermission} {request : PermissionRequest}
  {requests : List PermissionRequest}

/-! ## The order of pending requests -/

variable {visited entries : List PendingPermission} {counts : PendingPermission → Bool}

/-- What is listed are the requests that count. -/
theorem mem_orderedPendingRequests :
    request ∈ orderedPendingRequests entries counts ↔
      ∃ p ∈ entries, counts p = true ∧ p.request = request := by
  simp only [orderedPendingRequests, mem_map, mem_insertionSort, mem_filter,
    and_assoc]
  refine ⟨?_, fun ⟨p, hp, hcounts, heq⟩ => ⟨_, ⟨p, hp, hcounts, rfl⟩, heq⟩⟩
  rintro ⟨_, ⟨p, hp, hcounts, rfl⟩, heq⟩
  exact ⟨p, hp, hcounts, heq⟩

theorem firstRegistration_eq_of_perm (hperm : visited.Perm entries) :
    firstRegistration visited counts p = firstRegistration entries counts p := by
  rw [firstRegistration, firstRegistration, min?_eq_of_perm ((hperm.filter _).map _)]

/-- **The order does not depend on the order in which the entries are visited**, because no two
registrations have the same number. -/
theorem orderedPendingRequests_eq_of_perm (hperm : visited.Perm entries)
    (hsequence : ∀ p ∈ entries, ∀ q ∈ entries,
      p.registrationSequence = q.registrationSequence → p = q) :
    orderedPendingRequests visited counts = orderedPendingRequests entries counts := by
  have hkey : ∀ p, orderKey visited counts p = orderKey entries counts p := by
    intro p
    rw [orderKey, orderKey, firstRegistration_eq_of_perm hperm]
  rw [orderedPendingRequests, orderedPendingRequests]
  simp only [hkey]
  congr 1
  apply insertionSort_eq_of_perm Prod.fst ((hperm.filter _).map _)
  intro a ha b hb heq
  obtain ⟨p, hp, rfl⟩ := mem_map.mp ha
  obtain ⟨q, hq, rfl⟩ := mem_map.mp hb
  rw [hsequence p (hperm.mem_iff.mp (mem_filter.mp hp).1) q
    (hperm.mem_iff.mp (mem_filter.mp hq).1)]
  -- the number is a part of the key
  exact congrArg (fun key : OrderKey => (ofLex (ofLex (ofLex key).2).2).1) heq

theorem Inv.mem_entries (h : s.Inv) : p ∈ s.entries ↔ s.IsPending p := by
  rw [PermissionRequestManager.entries, mem_map]
  refine ⟨?_, fun hp => ⟨(p.request.requestId, p), AssocMap.mem_iter.mpr hp, rfl⟩⟩
  rintro ⟨⟨requestId, p⟩, hmem, rfl⟩
  have hlookup := AssocMap.mem_iter.mp hmem
  rw [IsPending, (h.pending _ _ hlookup).1]
  exact hlookup

theorem Inv.entries_sequence (h : s.Inv) : ∀ p ∈ s.entries, ∀ q ∈ s.entries,
    p.registrationSequence = q.registrationSequence → p = q := by
  intro p hp q hq heq
  rw [h.mem_entries] at hp hq
  exact h.eq_of_sequence (h.pending _ p hp).2 (h.pending _ q hq).2 heq

theorem Inv.nodup_entries (h : s.Inv) : s.entries.Nodup := by
  apply List.Nodup.map_on _ (List.Nodup.of_map _ (AssocMap.nodup_iter s.pending))
  rintro ⟨requestId, p⟩ hp ⟨requestId', q⟩ hq rfl
  have hid := (h.pending _ _ (AssocMap.mem_iter.mp hp)).1
  have hid' := (h.pending _ _ (AssocMap.mem_iter.mp hq)).1
  rw [← hid, ← hid']

/-- States in which the same is pending take the same snapshots. -/
theorem Inv.snapshot_eq (h : s.Inv) (h' : s'.Inv)
    (hsame : ∀ requestId, s'.pending.lookup requestId = s.pending.lookup requestId)
    {snapshot snapshot' : PermissionRequestSnapshot} (hsnapshot : s.Snapshot snapshot)
    (hsnapshot' : s'.Snapshot snapshot') : snapshot.requests = snapshot'.requests := by
  have hentries : s'.entries.Perm s.entries := by
    rw [perm_ext_iff_of_nodup h'.nodup_entries h.nodup_entries]
    intro p
    rw [h'.mem_entries, h.mem_entries, IsPending, IsPending, hsame]
  obtain ⟨visited, hperm, rfl⟩ := hsnapshot
  obtain ⟨visited', hperm', rfl⟩ := hsnapshot'
  change orderedPendingRequests visited _ = orderedPendingRequests visited' _
  rw [orderedPendingRequests_eq_of_perm hperm h.entries_sequence,
    orderedPendingRequests_eq_of_perm (hperm'.trans hentries) h.entries_sequence]

end PermissionRequestManager

/-! ## Operations -/

/-- The operations; `reply` is `reply_from` without the following requests. -/
inductive Operation where
  | registerBatch (requests : List PermissionRequest) (dialogTurnId : Option String)
    (interactive : Bool)
  | replyFrom (requestId : String) (includeFollowing : Bool) (reply : PermissionReply)
    (source : PermissionReplySource) (timestampMs : ℤ)
  | cancelRequest (requestId reason : String)
  | cancelSession (sessionId reason : String)

/-- What the caller of an operation gets. -/
inductive Answer where
  | registered (answer : Except PermissionRequestManagerError (List PendingPermissionReceiver))
  | resolved (answer : Except PermissionRequestManagerError PermissionReplyResolution)
  | cancelled (answer : Except PermissionRequestManagerError Bool)
  | sessionCancelled (answer : Except PermissionRequestManagerError (List String))

/-- The operation was refused. -/
def Answer.IsError : Answer → Prop
  | .registered answer => ∃ error, answer = .error error
  | .resolved answer => ∃ error, answer = .error error
  | .cancelled answer => ∃ error, answer = .error error
  | .sessionCancelled answer => ∃ error, answer = .error error

/-- The pending requests that an operation settles, unless it is refused. -/
def Operation.IsFor (s : PermissionRequestManager) (p : PendingPermission) : Operation → Prop
  | .registerBatch .. => False
  | .replyFrom requestId includeFollowing .. => ∃ target, s.IsPending target ∧
      target.request.requestId = requestId ∧
      if includeFollowing then
        p.request.sessionId = target.request.sessionId ∧
          p.request.roundId = target.request.roundId ∧ target.request.order ≤ p.request.order
      else p = target
  | .cancelRequest requestId _ => p.request.requestId = requestId
  | .cancelSession sessionId _ => p.request.sessionId = sessionId

/-- The outcome that an operation has for the requests it settles. -/
def Operation.outcome? : Operation → Option PermissionWaitOutcome
  | .registerBatch .. => none
  | .replyFrom _ _ reply .. => some (.replied reply)
  | .cancelRequest _ reason => some (.cancelled reason)
  | .cancelSession _ reason => some (.cancelled reason)

namespace PermissionRequestManager

variable {s s' : PermissionRequestManager} {p q : PendingPermission}
  {requests : List PermissionRequest}

/-- Performs an operation; the stores accept what they are given. -/
def perform (s : PermissionRequestManager) : Operation → Answer × PermissionRequestManager
  | .registerBatch requests dialogTurnId interactive =>
    let outcome := s.registerBatchWithVisibility requests dialogTurnId interactive (.ok ())
    (.registered outcome.1, outcome.2)
  | .replyFrom requestId includeFollowing reply source timestampMs =>
    let outcome := s.replyFrom requestId includeFollowing reply source timestampMs (.ok ())
    (.resolved outcome.1, outcome.2)
  | .cancelRequest requestId reason =>
    let outcome := s.cancelRequest requestId reason (.ok ())
    (.cancelled outcome.1, outcome.2)
  | .cancelSession sessionId reason =>
    let outcome := s.cancelSession sessionId reason (.ok ())
    (.sessionCancelled outcome.1, outcome.2)

/-- One operation and its answer. -/
def Step (s : PermissionRequestManager) (call : Operation × Answer)
    (s' : PermissionRequestManager) : Prop :=
  s.perform call.1 = (call.2, s')

/-! ## What every operation keeps -/

/-- What an operation does to the registrations there were. -/
structure Effect (s s' : PermissionRequestManager) : Prop where
  inv : s'.Inv
  registered : ∀ p ∈ s.registered, p ∈ s'.registered
  settled : ∀ p ∈ s.registered, ∀ outcome, s.Settled p outcome → s'.Settled p outcome
  revision : s.snapshotRevision ≤ s'.snapshotRevision
  /-- an equal revision means that nothing has changed -/
  same : s'.snapshotRevision = s.snapshotRevision →
    ∀ requestId, s'.pending.lookup requestId = s.pending.lookup requestId

theorem Inv.effect_refl (h : s.Inv) : Effect s s :=
  ⟨h, fun _ hp => hp, fun _ _ _ hsettled => hsettled, le_refl _, fun _ _ => rfl⟩

theorem Effect.trans {s₁ s₂ s₃ : PermissionRequestManager} (h : Effect s₁ s₂)
    (h' : Effect s₂ s₃) : Effect s₁ s₃ := by
  refine ⟨h'.inv, fun p hp => h'.registered p (h.registered p hp),
    fun p hp outcome hsettled => h'.settled p (h.registered p hp) outcome
      (h.settled p hp outcome hsettled), h.revision.trans h'.revision, fun heq requestId => ?_⟩
  -- the revision cannot come back
  have hle := h.revision
  have hle' := h'.revision
  rw [h'.same (by omega), h.same (by omega)]

theorem Registers.effect {entries : List PendingPermission} (h : Registers entries s s') :
    Effect s { s' with snapshotRevision := s'.snapshotRevision + 1 } := by
  refine ⟨h.inv.withRevision _, fun p hp => ?_,
    fun p hp outcome hsettled => (h.kept p hp outcome hsettled).withRevision _, ?_, fun heq => ?_⟩
  · change p ∈ s'.registered
    rw [h.registered]
    exact mem_append_left _ hp
  · rw [h.revision]
    exact Nat.le_succ _
  · rw [h.revision] at heq
    exact absurd heq (Nat.succ_ne_self _)

variable {outcome : PermissionWaitOutcome}

theorem Resolves.effect (hinv : s.Inv) (h : Resolves requests outcome s s') : Effect s s' := by
  refine ⟨h.inv, fun p hp => ?_, h.kept, ?_, fun heq requestId => ?_⟩
  · rw [h.registered]
    exact hp
  · rcases h.revision with hrevision | ⟨hrevision, -⟩ <;> omega
  · rcases h.revision with hrevision | ⟨-, hnone⟩
    · omega
    · apply Option.ext
      intro p
      rw [h.lookup]
      refine and_iff_left_of_imp fun hp => ?_
      have hid := (hinv.pending _ p hp).1
      rw [← hid] at hp ⊢
      exact hnone p hp

/-! ## The operations -/

/-- Registering a batch: refused, and nothing changes, exactly if an id is pending or repeated. -/
theorem Inv.registerBatch (h : s.Inv) (requests : List PermissionRequest)
    (dialogTurnId : Option String) (interactive : Bool) :
    let outcome := s.registerBatchWithVisibility requests dialogTurnId interactive (.ok ())
    let entries := batchEntries dialogTurnId interactive s.nextRegistrationSequence requests
    if (requests.map (·.requestId)).Nodup ∧
        ∀ request ∈ requests, s.pending.lookup request.requestId = none then
      outcome.1 = .ok (entries.map fun p => ⟨p.request.requestId, p.registrationSequence⟩) ∧
        ∃ s₁, Registers entries s s₁ ∧
          (outcome.2 = { s₁ with snapshotRevision := s₁.snapshotRevision + 1 } ∨
            requests = [] ∧ outcome.2 = s₁)
    else
      outcome.2 = s ∧ ∃ requestId ∈ requests.map (·.requestId),
        outcome.1 = .error (.duplicateRequest requestId) ∧
        ((s.pending.lookup requestId).isSome ∨
          2 ≤ (requests.map (·.requestId)).count requestId) := by
  intro outcome entries
  split
  · rename_i hfresh
    have hregisters := h.registers dialogTurnId interactive hfresh.1 hfresh.2
    cases hrequests : requests with
    | nil =>
      subst hrequests
      exact ⟨rfl, s, hregisters, .inr ⟨rfl, rfl⟩⟩
    | cons request rest =>
      have hnone : s.findDuplicate [] requests = none :=
        findDuplicate_eq_none.mpr ⟨hfresh.1, fun _ _ => not_mem_nil, hfresh.2⟩
      have heq : outcome = (.ok (entries.map fun p =>
            ⟨p.request.requestId, p.registrationSequence⟩),
          { requests.foldl (PermissionRequestManager.registerOne dialogTurnId interactive) s with
            snapshotRevision := (requests.foldl
              (PermissionRequestManager.registerOne dialogTurnId interactive)
              s).snapshotRevision + 1 }) := by
        rw [foldl_registerOne]
        change s.registerBatchWithVisibility requests dialogTurnId interactive (.ok ()) = _
        rw [registerBatchWithVisibility, if_neg (by rw [hrequests]; exact nofun), hnone]
        dsimp only
        rw [(foldl_insertPending_events s.events).2]
        simp only [entries, batchEntries, map_map]
        rfl
      rw [heq, ← hrequests]
      exact ⟨rfl, _, hregisters, .inl rfl⟩
  · rename_i hused
    cases hduplicate : s.findDuplicate [] requests with
    | none =>
      obtain ⟨hnodup, -, hnone⟩ := findDuplicate_eq_none.mp hduplicate
      exact absurd ⟨hnodup, hnone⟩ hused
    | some requestId =>
      have hne : requests.isEmpty = false := by
        cases requests with
        | nil => cases hduplicate
        | cons request rest => rfl
      have heq : outcome = (.error (.duplicateRequest requestId), s) := by
        change s.registerBatchWithVisibility requests dialogTurnId interactive (.ok ()) = _
        rw [registerBatchWithVisibility, hne, if_neg Bool.false_ne_true, hduplicate]
      obtain ⟨hmem, hcases⟩ := findDuplicate_eq_some hduplicate
      rw [heq]
      exact ⟨rfl, requestId, hmem, rfl, hcases⟩

/-- Requests that are pending are told apart by their ids. -/
theorem IsPending.eq_of_id (hp : s.IsPending p) (hq : s.IsPending q)
    (hid : p.request.requestId = q.request.requestId) : p = q := by
  rw [IsPending, hid] at hp
  exact Option.some.inj (hp.symm.trans hq)

theorem Inv.mem_ids_iff (h : s.Inv) (hp : s.IsPending p) (counts : PendingPermission → Bool) :
    p.request.requestId ∈ (orderedPendingRequests s.entries counts).map (·.requestId) ↔
      counts p = true := by
  rw [mem_map]
  refine ⟨?_, fun hcounts => ⟨p.request, ?_, rfl⟩⟩
  · rintro ⟨request, hmem, hid⟩
    obtain ⟨q, hq, hcounts, rfl⟩ := mem_orderedPendingRequests.mp hmem
    rw [← ((h.mem_entries.mp hq).eq_of_id hp hid)]
    exact hcounts
  · exact mem_orderedPendingRequests.mpr ⟨p, h.mem_entries.mpr hp, hcounts, rfl⟩

/-- What an operation that settles requests has done. -/
def Settles (s : PermissionRequestManager) (operation : Operation)
    (requests : List PermissionRequest) (s' : PermissionRequestManager) : Prop :=
  ∃ outcome ∈ operation.outcome?, Resolves requests outcome s s' ∧
    ∀ p, s.IsPending p → (p.request.requestId ∈ requests.map (·.requestId) ↔ operation.IsFor s p)

/-- Replying: refused, or it settles the requests it is for. -/
theorem Inv.replyFrom (h : s.Inv) (requestId : String) (includeFollowing : Bool)
    (reply : PermissionReply) (source : PermissionReplySource) (timestampMs : ℤ) :
    let outcome := s.replyFrom requestId includeFollowing reply source timestampMs (.ok ())
    (∃ error, outcome = (.error error, s) ∧
      ((∃ updatedInput, reply = .onceWithInput updatedInput) ∨
        s.pending.lookup requestId = none)) ∨
    ∃ resolution requests, outcome.1 = .ok resolution ∧
      resolution.resolvedRequestIds = requests.map (·.requestId) ∧
      (∀ request ∈ requests, ∃ p, s.IsPending p ∧ p.request = request) ∧
      s.Settles (.replyFrom requestId includeFollowing reply source timestampMs) requests
        outcome.2 := by
  intro outcome
  have houtcome : outcome =
      s.replyFrom requestId includeFollowing reply source timestampMs (.ok ()) := rfl
  rw [PermissionRequestManager.replyFrom] at houtcome
  split at houtcome
  · rename_i hinvalid
    refine .inl ⟨_, houtcome, .inl ?_⟩
    cases reply with
    | onceWithInput updatedInput => exact ⟨updatedInput, rfl⟩
    | once => cases hinvalid
    | always => cases hinvalid
    | reject feedback => cases hinvalid
  · split at houtcome
    · rename_i hnone
      exact .inl ⟨_, houtcome, .inr hnone⟩
    · rename_i target htarget
      dsimp only at houtcome
      split at houtcome
      · rename_i hrejects
        refine .inl ⟨_, houtcome, .inl ?_⟩
        cases reply with
        | onceWithInput updatedInput => exact ⟨updatedInput, rfl⟩
        | once => cases hrejects
        | always => cases hrejects
        | reject feedback => cases hrejects
      · obtain ⟨hid, -⟩ := h.pending _ target htarget
        have hpending : s.IsPending target := by
          rw [IsPending, hid]
          exact htarget
        refine .inr ⟨_, if includeFollowing
          then orderedPendingRequests s.entries (follows target.request)
          else [target.request], by rw [houtcome], rfl, ?_, .replied reply, rfl, ?_, ?_⟩
        · intro request hmem
          cases includeFollowing with
          | true =>
            obtain ⟨p, hp, -, heq⟩ := mem_orderedPendingRequests.mp hmem
            exact ⟨p, h.mem_entries.mp hp, heq⟩
          | false =>
            rw [if_neg Bool.false_ne_true] at hmem
            exact ⟨target, hpending, (mem_singleton.mp hmem).symm⟩
        · rw [houtcome]
          exact h.resolves (fun _ => .replied _ _) _
        · intro p hp
          have htarget_iff : ∀ q, s.IsPending q ∧ q.request.requestId = requestId ↔ q = target := by
            refine fun q => ⟨?_, ?_⟩
            · rintro ⟨hq, hqid⟩
              exact hq.eq_of_id hpending (hqid.trans hid.symm)
            · rintro rfl
              exact ⟨hpending, hid⟩
          simp only [Operation.IsFor, ← and_assoc, htarget_iff, exists_eq_left]
          cases includeFollowing with
          | true =>
            rw [if_pos rfl, if_pos rfl, h.mem_ids_iff hp, follows]
            simp [and_assoc]
          | false =>
            rw [if_neg Bool.false_ne_true, if_neg Bool.false_ne_true, map_singleton,
              mem_singleton]
            refine ⟨fun heq => hp.eq_of_id hpending heq, ?_⟩
            rintro rfl
            rfl

/-- Cancelling one request, if it is pending. -/
theorem Inv.cancelRequest (h : s.Inv) (requestId reason : String) :
    let outcome := s.cancelRequest requestId reason (.ok ())
    (∃ found, outcome.1 = .ok found) ∧
      ∃ requests, s.Settles (.cancelRequest requestId reason) requests outcome.2 := by
  intro outcome
  have houtcome : outcome = s.cancelRequest requestId reason (.ok ()) := rfl
  rw [PermissionRequestManager.cancelRequest] at houtcome
  have hresolves : ∀ requests, Resolves requests (.cancelled reason) s
      (s.settleRequests (.cancelled reason) (.cancelled · reason) requests) :=
    h.resolves fun _ => .cancelled _
  cases hlookup : s.pending.lookup requestId with
  | none =>
    rw [hlookup] at houtcome
    rw [houtcome]
    refine ⟨⟨_, rfl⟩, [], _, rfl, hresolves [], fun p hp => ?_⟩
    refine iff_of_false not_mem_nil fun hfor => ?_
    rw [Operation.IsFor] at hfor
    rw [IsPending, hfor, hlookup] at hp
    cases hp
  | some entry =>
    rw [hlookup] at houtcome
    rw [houtcome]
    refine ⟨⟨_, rfl⟩, [entry.request], _, rfl, hresolves _, fun p hp => ?_⟩
    rw [map_singleton, mem_singleton, (h.pending _ entry hlookup).1]
    exact Iff.rfl

/-- Cancelling the requests of a session. -/
theorem Inv.cancelSession (h : s.Inv) (sessionId reason : String) :
    let outcome := s.cancelSession sessionId reason (.ok ())
    (∃ requestIds, outcome.1 = .ok requestIds) ∧
      ∃ requests, s.Settles (.cancelSession sessionId reason) requests outcome.2 := by
  refine ⟨⟨_, rfl⟩, _, _, rfl, h.resolves (fun _ => .cancelled _) _, fun p hp => ?_⟩
  rw [h.mem_ids_iff hp, beq_iff_eq]
  exact Iff.rfl

/-- **What a step does**: it is refused and nothing changes, or it registers a batch, or it settles
the requests it is for. -/
theorem Inv.step_cases (h : s.Inv) {operation : Operation} {answer : Answer}
    (hstep : Step s (operation, answer) s') :
    (answer.IsError ∧ s' = s) ∨ (¬answer.IsError ∧
      ((∃ requests dialogTurnId interactive s₁,
        operation = .registerBatch requests dialogTurnId interactive ∧
        Registers (batchEntries dialogTurnId interactive s.nextRegistrationSequence requests) s s₁ ∧
        (s' = { s₁ with snapshotRevision := s₁.snapshotRevision + 1 } ∨
          requests = [] ∧ s' = s₁)) ∨
      ∃ requests, s.Settles operation requests s')) := by
  rw [Step] at hstep
  cases operation with
  | registerBatch requests dialogTurnId interactive =>
    have hregister := h.registerBatch requests dialogTurnId interactive
    cases hstep
    dsimp only at hregister
    split at hregister
    · obtain ⟨hok, s₁, hregisters, hs'⟩ := hregister
      refine .inr ⟨?_, .inl ⟨requests, dialogTurnId, interactive, s₁, rfl, hregisters, hs'⟩⟩
      rintro ⟨error, herror⟩
      rw [hok] at herror
      cases herror
    · obtain ⟨hs', requestId, -, herror, -⟩ := hregister
      exact .inl ⟨⟨_, herror⟩, hs'⟩
  | replyFrom requestId includeFollowing reply source timestampMs =>
    have hreply := h.replyFrom requestId includeFollowing reply source timestampMs
    cases hstep
    rcases hreply with ⟨error, heq, -⟩ | ⟨resolution, requests, hok, -, -, hsettles⟩
    · exact .inl ⟨⟨error, congrArg Prod.fst heq⟩, congrArg Prod.snd heq⟩
    · refine .inr ⟨?_, .inr ⟨requests, hsettles⟩⟩
      rintro ⟨error, herror⟩
      rw [hok] at herror
      cases herror
  | cancelRequest requestId reason =>
    obtain ⟨⟨found, hok⟩, requests, hsettles⟩ := h.cancelRequest requestId reason
    cases hstep
    refine .inr ⟨?_, .inr ⟨requests, hsettles⟩⟩
    rintro ⟨error, herror⟩
    rw [hok] at herror
    cases herror
  | cancelSession sessionId reason =>
    obtain ⟨⟨requestIds, hok⟩, requests, hsettles⟩ := h.cancelSession sessionId reason
    cases hstep
    refine .inr ⟨?_, .inr ⟨requests, hsettles⟩⟩
    rintro ⟨error, herror⟩
    rw [hok] at herror
    cases herror

/-- **The step lemma.** -/
theorem Inv.effect (h : s.Inv) {call : Operation × Answer} (hstep : Step s call s') :
    Effect s s' := by
  rcases h.step_cases hstep with ⟨-, rfl⟩ | ⟨-, hregisters | ⟨requests, outcome, -, hresolves, -⟩⟩
  · exact h.effect_refl
  · obtain ⟨requests, dialogTurnId, interactive, s₁, -, hregisters, rfl | ⟨rfl, rfl⟩⟩ := hregisters
    · exact hregisters.effect
    · refine ⟨hregisters.inv, fun p hp => ?_, hregisters.kept, hregisters.revision.ge,
        fun _ requestId => Option.ext fun p => ?_⟩
      · rw [hregisters.registered]
        exact mem_append_left _ hp
      · rw [hregisters.lookup]
        exact or_iff_left fun hmem => absurd hmem.1 not_mem_nil
  · exact hresolves.effect h

/-- **The run lemma.** -/
theorem Inv.effect_run (h : s.Inv) {tr : List (Operation × Answer)} (hrun : Run Step s tr s') :
    Effect s s' :=
  hrun.invariant h.effect_refl fun _ _ _ heffect hstep => heffect.trans (heffect.inv.effect hstep)

/-! ## Settled once -/

/-- What the manager guarantees in a state. -/
structure SettlesOnce (s : PermissionRequestManager) : Prop where
  /-- what is pending was registered, under its own id -/
  pending : ∀ requestId p, s.pending.lookup requestId = some p →
    p.request.requestId = requestId ∧ p ∈ s.registered
  /-- every registration waits, or it got one outcome, and its observers the events -/
  status : ∀ p ∈ s.registered, s.Status p
  /-- the channels of registrations are different -/
  channels : (s.registered.map (·.registrationSequence)).Nodup
  /-- a settled registration stays settled, with its one outcome, and is not pending again -/
  settled_for_good : ∀ tr s', Run Step s tr s' → ∀ p ∈ s.registered, ∀ outcome,
    s.Settled p outcome → s'.Settled p outcome
  /-- an operation that is refused changes nothing -/
  refused : ∀ operation answer s', Step s (operation, answer) s' → answer.IsError → s' = s
  /-- an operation settles exactly the pending requests it is for, with its outcome -/
  resolved : ∀ operation answer s', Step s (operation, answer) s' → ¬answer.IsError →
    ∀ p, s.IsPending p →
      (operation.IsFor s p → ∃ outcome ∈ operation.outcome?, s'.Settled p outcome) ∧
      (¬operation.IsFor s p → s'.IsPending p)
  /-- a reply to a pending request is accepted unless it edits the input, and names the requests
  it resolves -/
  replied : ∀ requestId includeFollowing reply source timestampMs answer s',
    Step s (.replyFrom requestId includeFollowing reply source timestampMs, answer) s' →
    (answer.IsError → s.pending.lookup requestId = none ∨
      ∃ updatedInput, reply = .onceWithInput updatedInput) ∧
    ∀ resolution, answer = .resolved (.ok resolution) → ∀ resolvedId,
      resolvedId ∈ resolution.resolvedRequestIds ↔ ∃ p, s.IsPending p ∧
        Operation.IsFor s p (.replyFrom requestId includeFollowing reply source timestampMs) ∧
        p.request.requestId = resolvedId
  /-- a batch with an id that is pending or repeated is refused, with such an id -/
  duplicate : ∀ requests dialogTurnId interactive answer s',
    Step s (.registerBatch requests dialogTurnId interactive, answer) s' →
    (¬(requests.map (·.requestId)).Nodup ∨
      ∃ request ∈ requests, (s.pending.lookup request.requestId).isSome) →
    s' = s ∧ ∃ requestId ∈ requests.map (·.requestId),
      answer = .registered (.error (.duplicateRequest requestId)) ∧
      ((s.pending.lookup requestId).isSome ∨ 2 ≤ (requests.map (·.requestId)).count requestId)
  /-- every request of another batch waits then, on a channel of its own -/
  registered : ∀ requests dialogTurnId interactive answer s',
    Step s (.registerBatch requests dialogTurnId interactive, answer) s' →
    (requests.map (·.requestId)).Nodup →
    (∀ request ∈ requests, s.pending.lookup request.requestId = none) →
    ∃ entries, answer = .registered (.ok (entries.map fun p =>
        ⟨p.request.requestId, p.registrationSequence⟩)) ∧
      s'.registered = s.registered ++ entries ∧ entries.map (·.request) = requests ∧
      ∀ p ∈ entries, p.interactive = interactive ∧ s'.Waits p
  /-- the revision grows with every change of what is pending, and never decreases -/
  revision : ∀ call s', Step s call s' → s.snapshotRevision ≤ s'.snapshotRevision ∧
    ((∃ requestId, s'.pending.lookup requestId ≠ s.pending.lookup requestId) →
      s.snapshotRevision < s'.snapshotRevision)
  /-- snapshots with one revision list the same requests in the same order -/
  snapshots : ∀ tr s', Run Step s tr s' → ∀ snapshot snapshot', s.Snapshot snapshot →
    s'.Snapshot snapshot' → snapshot.revision = snapshot'.revision →
    snapshot.requests = snapshot'.requests

theorem map_request_batchEntries (dialogTurnId : Option String) (interactive : Bool) (n : ℕ) :
    (batchEntries dialogTurnId interactive n requests).map (·.request) = requests := by
  rw [batchEntries, map_map]
  exact zipIdx_map_fst n requests

/-- **Every request is settled once**, in every state of every run. -/
theorem requests_settled_once {tr : List (Operation × Answer)} (hrun : Run Step new tr s) :
    s.SettlesOnce := by
  have h := (inv_new.effect_run hrun).inv
  refine ⟨h.pending, h.status, ?_, fun tr s' hrun => (h.effect_run hrun).settled, ?_, ?_, ?_, ?_, ?_,
    ?_, ?_⟩
  · rw [h.sequences]
    exact nodup_range
  · intro operation answer s' hstep herror
    rcases h.step_cases hstep with ⟨-, hs'⟩ | ⟨hok, -⟩
    · exact hs'
    · exact absurd herror hok
  · intro operation answer s' hstep hok p hp
    rcases h.step_cases hstep with ⟨herror, -⟩ | ⟨-, hregisters | hsettles⟩
    · exact absurd herror hok
    · obtain ⟨requests, dialogTurnId, interactive, s₁, rfl, hregisters, hs'⟩ := hregisters
      refine ⟨False.elim, fun _ => ?_⟩
      have hpending : s₁.IsPending p := (hregisters.lookup _ _).mpr (.inl hp)
      rcases hs' with rfl | ⟨-, rfl⟩ <;> exact hpending
    · obtain ⟨requests, outcome, houtcome, hresolves, hfor⟩ := hsettles
      rw [← hfor p hp]
      exact ⟨fun hmem => ⟨outcome, houtcome, hresolves.settled p hp hmem⟩,
        fun hmem => (hresolves.lookup _ _).mpr ⟨hp, hmem⟩⟩
  · intro requestId includeFollowing reply source timestampMs answer s' hstep
    have hreply := h.replyFrom requestId includeFollowing reply source timestampMs
    rw [Step] at hstep
    cases hstep
    rcases hreply with ⟨error, heq, hwhy⟩ | ⟨resolution, requests, hok, hids, hpending, hsettles⟩
    · refine ⟨fun _ => hwhy.symm, fun resolution hresolution => ?_⟩
      rw [heq] at hresolution
      cases hresolution
    · refine ⟨fun ⟨error, herror⟩ => ?_, fun resolution' hresolution resolvedId => ?_⟩
      · rw [hok] at herror
        cases herror
      · rw [hok] at hresolution
        cases hresolution
        obtain ⟨outcome, -, -, hfor⟩ := hsettles
        rw [hids, mem_map]
        refine ⟨?_, ?_⟩
        · rintro ⟨request, hmem, hid⟩
          obtain ⟨p, hp, rfl⟩ := hpending request hmem
          exact ⟨p, hp, (hfor p hp).mp (mem_map_of_mem hmem), hid⟩
        · rintro ⟨p, hp, hisFor, rfl⟩
          exact mem_map.mp ((hfor p hp).mpr hisFor)
  · intro requests dialogTurnId interactive answer s' hstep hused
    have hregister := h.registerBatch requests dialogTurnId interactive
    rw [Step] at hstep
    cases hstep
    dsimp only at hregister
    rw [if_neg] at hregister
    · obtain ⟨hs', requestId, hmem, herror, hwhy⟩ := hregister
      exact ⟨hs', requestId, hmem, congrArg Answer.registered herror, hwhy⟩
    · rintro ⟨hnodup, hnone⟩
      rcases hused with hrepeated | ⟨request, hmem, hsome⟩
      · exact hrepeated hnodup
      · rw [hnone request hmem] at hsome
        cases hsome
  · intro requests dialogTurnId interactive answer s' hstep hnodup hnone
    have hregister := h.registerBatch requests dialogTurnId interactive
    rw [Step] at hstep
    cases hstep
    dsimp only at hregister
    rw [if_pos ⟨hnodup, hnone⟩] at hregister
    obtain ⟨hok, s₁, hregisters, hs'⟩ := hregister
    refine ⟨_, congrArg Answer.registered hok, ?_, map_request_batchEntries _ _ _,
      fun p hp => ⟨?_, ?_⟩⟩
    · rw [← hregisters.registered]
      rcases hs' with hs' | ⟨-, hs'⟩
      · rw [hs']
      · rw [hs']
    · obtain ⟨x, -, rfl⟩ := mem_map.mp hp
      rfl
    · have hwaits := hregisters.inv.waits_of_pending ((hregisters.lookup _ p).mpr (.inr ⟨hp, rfl⟩))
      rcases hs' with hs' | ⟨-, hs'⟩
      · rw [hs']
        exact ⟨hwaits.pending, hwaits.outcomes, hwaits.events⟩
      · rw [hs']
        exact hwaits
  · intro call s' hstep
    have heffect := h.effect hstep
    refine ⟨heffect.revision, fun ⟨requestId, hne⟩ => ?_⟩
    refine lt_of_le_of_ne heffect.revision fun heq => hne ?_
    exact heffect.same heq.symm requestId
  · intro tr s' hrun snapshot snapshot' hsnapshot hsnapshot' heq
    have heffect := h.effect_run hrun
    refine h.snapshot_eq heffect.inv (heffect.same ?_) hsnapshot hsnapshot'
    obtain ⟨visited, -, rfl⟩ := hsnapshot
    obtain ⟨visited', -, rfl⟩ := hsnapshot'
    exact heq.symm

/-! ## Scripts -/

/-- Performs operations one after the other. -/
def performAll (s : PermissionRequestManager) :
    List Operation → List (Operation × Answer) × PermissionRequestManager
  | [] => ([], s)
  | operation :: operations =>
    let outcome := s.perform operation
    let rest := outcome.2.performAll operations
    ((operation, outcome.1) :: rest.1, rest.2)

theorem run_performAll (script : List Operation) :
    Run Step s (s.performAll script).1 (s.performAll script).2 := by
  induction script generalizing s with
  | nil => exact .refl
  | cons operation script ih => exact Run.cons rfl ih

/-- A request of round `"round"` in session `"session"`. -/
def requestOf (requestId : String) (order : ℕ) : PermissionRequest :=
  ⟨requestId, "round", order, some "call", "project", "session", "edit", [], .toolCall⟩

/-- An id is used again after a reply to all requests of a round. -/
theorem requests_settled_once_after_reuse :
    (new.performAll [
      .registerBatch [requestOf "a" 0, requestOf "b" 1, requestOf "c" 2] none true,
      .replyFrom "b" true .once .user 0,
      .registerBatch [requestOf "b" 1] none false,
      .cancelSession "session" "stopped"]).2.SettlesOnce :=
  requests_settled_once (run_performAll _)

end PermissionRequestManager

end PermissionRequests

end OpenBitFun
