import OpenBitFun.PermissionRequests

/-!
# Every permission request is settled once

A registration is either pending, and then its waiter has got nothing and its observers at most the
question, or it is settled, and then its waiter has got one outcome and its observers the event of
that outcome (`Inv`). One loop settles requests, for replies and for cancellations, so the
invariant is proved for one turn of it. Registering a batch is a loop of its own; its events come
after the insertions, which makes no difference, since insertions send nothing.
-/

namespace OpenBitFun

open List

namespace PermissionRequests

namespace PermissionRequestManager

variable {s s' : PermissionRequestManager} {p q : PendingPermission} {request : PermissionRequest}
  {requests : List PermissionRequest}

/-! ## What a registration has got -/

/-- What was sent through the channel of a registration. -/
def outcomesOf (s : PermissionRequestManager) (sequence : ℕ) : List PermissionWaitOutcome :=
  (s.outcomes.filter (·.1 = sequence)).map (·.2)

/-- The events about a registration. -/
def eventsOf (s : PermissionRequestManager) (sequence : ℕ) : List PermissionRequestEvent :=
  (s.events.filter (·.1 = sequence)).map (·.2)

/-- The question about an interactive request. -/
def askedEvents (p : PendingPermission) : List PermissionRequestEvent :=
  if p.interactive then [.asked p.request] else []

/-- The event that goes with an outcome. -/
inductive Closes (requestId : String) : PermissionWaitOutcome → PermissionRequestEvent → Prop
  | replied (reply : PermissionReply) (source : PermissionReplySource) :
    Closes requestId (.replied reply) (.replied requestId reply source)
  | cancelled (reason : String) :
    Closes requestId (.cancelled reason) (.cancelled requestId reason)

/-- A registration is pending. -/
def IsPending (s : PermissionRequestManager) (p : PendingPermission) : Prop :=
  s.pending.lookup p.request.requestId = some p

/-- A registration that waits: nothing was sent but the question. -/
structure Waits (s : PermissionRequestManager) (p : PendingPermission) : Prop where
  pending : s.IsPending p
  outcomes : s.outcomesOf p.registrationSequence = []
  events : s.eventsOf p.registrationSequence = askedEvents p

/-- A registration that is settled: one outcome was sent, and to observers its event, after the
question. -/
structure Settled (s : PermissionRequestManager) (p : PendingPermission)
    (outcome : PermissionWaitOutcome) : Prop where
  pending : ¬s.IsPending p
  outcomes : s.outcomesOf p.registrationSequence = [outcome]
  events : ∃ event, Closes p.request.requestId outcome event ∧
    s.eventsOf p.registrationSequence =
      askedEvents p ++ if p.interactive then [event] else []

/-- A registration waits or is settled. -/
def Status (s : PermissionRequestManager) (p : PendingPermission) : Prop :=
  s.Waits p ∨ ∃ outcome, s.Settled p outcome

/-- The status is about the registration's own entry and logs. -/
theorem Status.congr (h : s.Status p) (hpending : s'.IsPending p ↔ s.IsPending p)
    (houtcomes : s'.outcomesOf p.registrationSequence = s.outcomesOf p.registrationSequence)
    (hevents : s'.eventsOf p.registrationSequence = s.eventsOf p.registrationSequence) :
    s'.Status p := by
  rcases h with hwaits | ⟨outcome, hsettled⟩
  · exact .inl ⟨hpending.mpr hwaits.pending, houtcomes.trans hwaits.outcomes,
      hevents.trans hwaits.events⟩
  · refine .inr ⟨outcome, fun hp => hsettled.pending (hpending.mp hp),
      houtcomes.trans hsettled.outcomes, ?_⟩
    rw [hevents]
    exact hsettled.events

/-- **The invariant of the manager.** -/
structure Inv (s : PermissionRequestManager) : Prop where
  /-- what is pending was registered, under its own id -/
  pending : ∀ requestId p, s.pending.lookup requestId = some p →
    p.request.requestId = requestId ∧ p ∈ s.registered
  /-- registrations are numbered in order -/
  sequences : s.registered.map (·.registrationSequence) = List.range s.nextRegistrationSequence
  /-- nothing was sent for a registration that is still to come -/
  outcomes_lt : ∀ x ∈ s.outcomes, x.1 < s.nextRegistrationSequence
  events_lt : ∀ x ∈ s.events, x.1 < s.nextRegistrationSequence
  /-- every registration waits or is settled -/
  status : ∀ p ∈ s.registered, s.Status p

theorem inv_new : Inv new where
  pending := nofun
  sequences := rfl
  outcomes_lt := nofun
  events_lt := nofun
  status := nofun

/-- Registrations are told apart by their numbers. -/
theorem Inv.eq_of_sequence (h : s.Inv) (hp : p ∈ s.registered) (hq : q ∈ s.registered)
    (heq : p.registrationSequence = q.registrationSequence) : p = q := by
  apply inj_on_of_nodup_map _ hp hq heq
  rw [h.sequences]
  exact nodup_range

theorem Inv.sequence_lt (h : s.Inv) (hp : p ∈ s.registered) :
    p.registrationSequence < s.nextRegistrationSequence := by
  rw [← mem_range, ← h.sequences]
  exact mem_map_of_mem hp

/-- A registration that is pending waits. -/
theorem Inv.waits_of_pending (h : s.Inv) (hp : s.IsPending p) : s.Waits p := by
  obtain ⟨-, hregistered⟩ := h.pending _ p hp
  rcases h.status p hregistered with hwaits | ⟨outcome, hsettled⟩
  · exact hwaits
  · exact absurd hp hsettled.pending

/-- Looking at one registration in a log that grows. -/
theorem of_log_append {α : Type} (log : List (ℕ × α)) (n m : ℕ) (x : α) :
    ((log ++ [(n, x)]).filter (·.1 = m)).map (·.2) =
      (log.filter (·.1 = m)).map (·.2) ++ if n = m then [x] else [] := by
  rw [filter_append, map_append]
  by_cases hnm : n = m <;> simp [hnm]

/-! ## Settling -/

/-- The state after one pending request was settled. -/
def settledState (s : PermissionRequestManager) (outcome : PermissionWaitOutcome)
    (event : String → PermissionRequestEvent) (entry : PendingPermission) :
    PermissionRequestManager :=
  { s with
    pending := s.pending.erase entry.request.requestId
    outcomes := s.outcomes ++ [(entry.registrationSequence, outcome)]
    events :=
      if entry.interactive then
        s.events ++ [(entry.registrationSequence, event entry.request.requestId)]
      else s.events }

variable {outcome : PermissionWaitOutcome} {event : String → PermissionRequestEvent}

theorem eventsOf_settledState (n : ℕ) : (s.settledState outcome event q).eventsOf n =
    s.eventsOf n ++ if q.interactive ∧ q.registrationSequence = n
      then [event q.request.requestId] else [] := by
  rw [eventsOf, settledState, eventsOf]
  cases hinteractive : q.interactive with
  | true =>
    rw [if_pos rfl, of_log_append]
    simp
  | false => simp

theorem outcomesOf_settledState (n : ℕ) : (s.settledState outcome event q).outcomesOf n =
    s.outcomesOf n ++ if q.registrationSequence = n then [outcome] else [] :=
  of_log_append _ _ _ _

theorem Inv.settled_self (h : s.Inv) (hq : s.IsPending q)
    (hcloses : ∀ requestId, Closes requestId outcome (event requestId)) :
    (s.settledState outcome event q).Settled q outcome := by
  have hwaits := h.waits_of_pending hq
  refine ⟨?_, ?_, event q.request.requestId, hcloses _, ?_⟩
  · rw [IsPending, settledState, AssocMap.lookup_erase, if_pos rfl]
    exact nofun
  · rw [outcomesOf_settledState, hwaits.outcomes, if_pos rfl]
    rfl
  · rw [eventsOf_settledState, hwaits.events]
    simp

theorem isPending_settledState (hne : p ≠ q) (hq : s.IsPending q) :
    (s.settledState outcome event q).IsPending p ↔ s.IsPending p := by
  rw [IsPending, IsPending, settledState, AssocMap.lookup_erase]
  split
  · rename_i hid
    rw [hid]
    refine iff_of_false nofun fun hp => hne ?_
    exact Option.some.inj (hp.symm.trans hq)
  · exact Iff.rfl

/-- **One turn of the loops that settle** keeps the invariant. -/
theorem Inv.settledState (h : s.Inv) (hq : s.IsPending q)
    (hcloses : ∀ requestId, Closes requestId outcome (event requestId)) :
    (s.settledState outcome event q).Inv := by
  obtain ⟨-, hregistered⟩ := h.pending _ q hq
  refine ⟨?_, h.sequences, ?_, ?_, ?_⟩
  · intro requestId p hp
    rw [PermissionRequestManager.settledState, AssocMap.lookup_erase] at hp
    split at hp
    · cases hp
    · exact h.pending requestId p hp
  · intro x hx
    rcases mem_append.mp hx with hx | hx
    · exact h.outcomes_lt x hx
    · rw [mem_singleton.mp hx]
      exact h.sequence_lt hregistered
  · intro x hx
    rw [PermissionRequestManager.settledState] at hx
    dsimp only at hx
    split at hx
    · rcases mem_append.mp hx with hx | hx
      · exact h.events_lt x hx
      · rw [mem_singleton.mp hx]
        exact h.sequence_lt hregistered
    · exact h.events_lt x hx
  · intro p hp
    by_cases hpq : p = q
    · rw [hpq]
      exact .inr ⟨outcome, h.settled_self hq hcloses⟩
    · have hne : q.registrationSequence ≠ p.registrationSequence := fun heq =>
        hpq (h.eq_of_sequence hp hregistered heq.symm)
      refine (h.status p hp).congr (isPending_settledState hpq hq) ?_ ?_
      · rw [outcomesOf_settledState, if_neg hne, append_nil]
      · rw [eventsOf_settledState, if_neg fun hself => hne hself.2, append_nil]

theorem settleRequest_eq (removed : Bool) (request : PermissionRequest) :
    settleRequest outcome event (removed, s) request =
      match s.pending.lookup request.requestId with
      | none => (removed, s)
      | some entry => (true, { s with
          pending := s.pending.erase request.requestId
          outcomes := s.outcomes ++ [(entry.registrationSequence, outcome)]
          events :=
            if entry.interactive then
              s.events ++ [(entry.registrationSequence, event request.requestId)]
            else s.events }) :=
  rfl

/-- One turn of the loop settles the entry under the request's id, if there is one. -/
theorem Inv.settleRequest_cases (h : s.Inv) (removed : Bool) (request : PermissionRequest) :
    (s.pending.lookup request.requestId = none ∧
      settleRequest outcome event (removed, s) request = (removed, s)) ∨
    ∃ q, q.request.requestId = request.requestId ∧ s.IsPending q ∧
      settleRequest outcome event (removed, s) request =
        (true, s.settledState outcome event q) := by
  rw [settleRequest_eq]
  cases hlookup : s.pending.lookup request.requestId with
  | none => exact .inl ⟨rfl, rfl⟩
  | some q =>
    have hid := (h.pending _ q hlookup).1
    refine .inr ⟨q, hid, ?_, ?_⟩
    · rw [IsPending, hid]
      exact hlookup
    · rw [PermissionRequestManager.settledState, hid]

/-- What the loop over some requests has done. -/
structure SettledAll (requests : List PermissionRequest) (outcome : PermissionWaitOutcome)
    (removed : Bool) (s : PermissionRequestManager) (state : Bool × PermissionRequestManager) :
    Prop where
  inv : state.2.Inv
  registered : state.2.registered = s.registered
  revision : state.2.snapshotRevision = s.snapshotRevision
  /-- exactly the entries under the ids of the requests are gone -/
  lookup : ∀ requestId p, state.2.pending.lookup requestId = some p ↔
    s.pending.lookup requestId = some p ∧ requestId ∉ requests.map (·.requestId)
  /-- their waiters got the outcome -/
  settled : ∀ p, s.IsPending p → p.request.requestId ∈ requests.map (·.requestId) →
    state.2.Settled p outcome
  /-- what was settled stays so -/
  kept : ∀ p ∈ s.registered, ∀ outcome', s.Settled p outcome' → state.2.Settled p outcome'
  /-- the flag tells whether some entry is gone -/
  flag : state.1 = true ↔ removed = true ∨ ∃ p, s.IsPending p ∧
    p.request.requestId ∈ requests.map (·.requestId)

/-- A settled registration stays settled. -/
theorem Inv.settled_settledState (h : s.Inv) (hq : s.IsPending q) (hp : p ∈ s.registered)
    {outcome' : PermissionWaitOutcome} (hsettled : s.Settled p outcome') :
    (s.settledState outcome event q).Settled p outcome' := by
  obtain ⟨-, hregistered⟩ := h.pending _ q hq
  have hne : p ≠ q := by
    rintro rfl
    exact hsettled.pending hq
  have hseq : q.registrationSequence ≠ p.registrationSequence := fun heq =>
    hne (h.eq_of_sequence hp hregistered heq.symm)
  refine ⟨fun hpending => hsettled.pending ((isPending_settledState hne hq).mp hpending), ?_, ?_⟩
  · rw [outcomesOf_settledState, if_neg hseq, append_nil]
    exact hsettled.outcomes
  · rw [eventsOf_settledState, if_neg fun hself => hseq hself.2, append_nil]
    exact hsettled.events

/-- **The loop that settles requests.** -/
theorem Inv.settledAll (h : s.Inv)
    (hcloses : ∀ requestId, Closes requestId outcome (event requestId))
    (requests : List PermissionRequest) (removed : Bool) :
    SettledAll requests outcome removed s
      (requests.foldl (settleRequest outcome event) (removed, s)) := by
  induction requests generalizing s removed with
  | nil =>
    refine ⟨h, rfl, rfl, fun _ _ => ?_, fun _ _ hp => absurd hp not_mem_nil,
      fun _ _ _ hsettled => hsettled, by simp⟩
    exact (and_iff_left not_mem_nil).symm
  | cons request requests ih =>
    rw [foldl_cons]
    rcases h.settleRequest_cases removed request with ⟨hnone, heq⟩ | ⟨q, hid, hq, heq⟩
    · rw [heq]
      have hall := ih h removed
      have hother : ∀ p, s.IsPending p → p.request.requestId ≠ request.requestId := by
        intro p hp hsame
        rw [IsPending, hsame, hnone] at hp
        cases hp
      refine ⟨hall.inv, hall.registered, hall.revision, fun requestId p => ?_, fun p hp hmem => ?_,
        hall.kept, ?_⟩
      · rw [hall.lookup, map_cons, mem_cons, not_or]
        refine and_congr_right fun hp => (and_iff_right ?_).symm
        rintro rfl
        rw [hnone] at hp
        cases hp
      · rw [map_cons, mem_cons, or_iff_right (hother p hp)] at hmem
        exact hall.settled p hp hmem
      · rw [hall.flag]
        refine or_congr_right (exists_congr fun p => and_congr_right fun hp => ?_)
        rw [map_cons, mem_cons, or_iff_right (hother p hp)]
    · rw [heq]
      have hall := ih (h.settledState hq hcloses) true
      obtain ⟨-, hregistered⟩ := h.pending _ q hq
      refine ⟨hall.inv, hall.registered, hall.revision, fun requestId p => ?_, fun p hp hmem => ?_,
        fun p hp outcome' hsettled => ?_, ?_⟩
      · rw [hall.lookup, map_cons, mem_cons, not_or,
          PermissionRequestManager.settledState, AssocMap.lookup_erase, hid]
        by_cases hsame : requestId = request.requestId
        · simp [hsame]
        · rw [if_neg hsame, and_iff_right hsame]
      · by_cases hpq : p = q
        · rw [hpq]
          exact hall.kept q hregistered outcome (h.settled_self hq hcloses)
        · rw [map_cons, mem_cons, or_iff_right] at hmem
          · exact hall.settled p ((isPending_settledState hpq hq).mpr hp) hmem
          · intro hsame
            rw [IsPending, hsame, ← hid] at hp
            exact hpq (Option.some.inj (hp.symm.trans hq))
      · exact hall.kept p hp outcome' (h.settled_settledState hq hp hsettled)
      · rw [hall.flag]
        refine iff_of_true (.inl rfl) (.inr ⟨q, hq, ?_⟩)
        rw [hid]
        exact mem_cons_self

/-- The revision is no part of the invariant. -/
theorem Inv.withRevision (h : s.Inv) (revision : ℕ) :
    Inv { s with snapshotRevision := revision } where
  pending := h.pending
  sequences := h.sequences
  outcomes_lt := h.outcomes_lt
  events_lt := h.events_lt
  status := fun p hp => (h.status p hp).congr Iff.rfl rfl rfl

/-- What settling some requests does. -/
structure Resolves (requests : List PermissionRequest) (outcome : PermissionWaitOutcome)
    (s s' : PermissionRequestManager) : Prop where
  inv : s'.Inv
  registered : s'.registered = s.registered
  /-- exactly the entries under the ids of the requests are gone -/
  lookup : ∀ requestId p, s'.pending.lookup requestId = some p ↔
    s.pending.lookup requestId = some p ∧ requestId ∉ requests.map (·.requestId)
  /-- their waiters got the outcome -/
  settled : ∀ p, s.IsPending p → p.request.requestId ∈ requests.map (·.requestId) →
    s'.Settled p outcome
  /-- what was settled stays so -/
  kept : ∀ p ∈ s.registered, ∀ outcome', s.Settled p outcome' → s'.Settled p outcome'
  /-- the revision is raised exactly when an entry is gone -/
  revision : s'.snapshotRevision = s.snapshotRevision + 1 ∨
    s'.snapshotRevision = s.snapshotRevision ∧
      ∀ p, s.IsPending p → p.request.requestId ∉ requests.map (·.requestId)

theorem Settled.withRevision (h : s.Settled p outcome) (revision : ℕ) :
    Settled { s with snapshotRevision := revision } p outcome :=
  ⟨h.pending, h.outcomes, h.events⟩

theorem Inv.resolves (h : s.Inv)
    (hcloses : ∀ requestId, Closes requestId outcome (event requestId))
    (requests : List PermissionRequest) :
    Resolves requests outcome s (s.settleRequests outcome event requests) := by
  have hall := h.settledAll hcloses requests false
  rw [settleRequests]
  generalize requests.foldl (settleRequest outcome event) (false, s) = state at hall
  dsimp only
  split
  · refine ⟨hall.inv.withRevision _, hall.registered, hall.lookup,
      fun p hp hmem => (hall.settled p hp hmem).withRevision _,
      fun p hp outcome' hsettled => (hall.kept p hp outcome' hsettled).withRevision _, .inl ?_⟩
    rw [← hall.revision]
  · rename_i hflag
    rw [hall.flag, or_iff_right Bool.false_ne_true] at hflag
    exact ⟨hall.inv, hall.registered, hall.lookup, hall.settled, hall.kept,
      .inr ⟨hall.revision, fun p hp hmem => hflag ⟨p, hp, hmem⟩⟩⟩

/-! ## Registering -/

variable {dialogTurnId : Option String} {interactive : Bool}

theorem findDuplicate_eq_none {requestIds : List String} :
    s.findDuplicate requestIds requests = none ↔
      (requests.map (·.requestId)).Nodup ∧
      (∀ request ∈ requests, request.requestId ∉ requestIds) ∧
      ∀ request ∈ requests, s.pending.lookup request.requestId = none := by
  induction requests generalizing requestIds with
  | nil => simp [findDuplicate]
  | cons request requests ih =>
    rw [findDuplicate]
    split
    · rename_i hmem
      rw [contains_iff_mem] at hmem
      exact iff_of_false (Option.some_ne_none _) fun h => h.2.1 request mem_cons_self hmem
    · rename_i hmem
      rw [contains_iff_mem] at hmem
      split
      · rename_i hsome
        refine iff_of_false (Option.some_ne_none _) fun h => ?_
        rw [h.2.2 request mem_cons_self] at hsome
        cases hsome
      · rename_i hnone
        rw [Option.not_isSome_iff_eq_none] at hnone
        rw [ih, map_cons, nodup_cons]
        simp only [mem_append, mem_singleton, not_or, forall_mem_cons, mem_map,
          not_exists, not_and]
        refine ⟨?_, ?_⟩
        · rintro ⟨hnodup, hfresh, hlookup⟩
          exact ⟨⟨fun r hr hsame => (hfresh r hr).2 hsame, hnodup⟩,
            ⟨hmem, fun r hr => (hfresh r hr).1⟩, hnone, hlookup⟩
        · rintro ⟨⟨hne, hnodup⟩, hfresh, hlookup⟩
          exact ⟨hnodup, fun r hr => ⟨hfresh.2 r hr, hne r hr⟩, hlookup.2⟩

/-- A duplicate that is reported is pending or was seen before. -/
theorem findDuplicate_eq_some {requestIds : List String} {requestId : String}
    (h : s.findDuplicate requestIds requests = some requestId) :
    requestId ∈ requests.map (·.requestId) ∧
      ((s.pending.lookup requestId).isSome ∨
        2 ≤ (requestIds ++ requests.map (·.requestId)).count requestId) := by
  induction requests generalizing requestIds with
  | nil => cases h
  | cons request requests ih =>
    rw [findDuplicate] at h
    rw [map_cons, mem_cons]
    split at h
    · rename_i hmem
      rw [contains_iff_mem] at hmem
      cases h
      refine ⟨.inl rfl, .inr ?_⟩
      have hpos := count_pos_iff.mpr hmem
      rw [count_append, count_cons_self]
      omega
    · split at h
      · rename_i hsome
        cases h
        exact ⟨.inl rfl, .inl hsome⟩
      · obtain ⟨hmem, hcases⟩ := ih h
        rw [append_assoc, singleton_append] at hcases
        exact ⟨.inr hmem, hcases⟩

/-- The entry of the next registration. -/
def nextEntry (s : PermissionRequestManager) (dialogTurnId : Option String) (interactive : Bool)
    (request : PermissionRequest) : PendingPermission :=
  ⟨request, dialogTurnId, interactive, s.nextRegistrationSequence⟩

/-- A request registered in one go: inserted, and asked about. -/
def registerOne (dialogTurnId : Option String) (interactive : Bool) (s : PermissionRequestManager)
    (request : PermissionRequest) : PermissionRequestManager :=
  { insertPending dialogTurnId interactive s request with
    events := s.events ++
      if interactive then [(s.nextRegistrationSequence, .asked request)] else [] }

/-- Insertions send nothing, and do not look at what was sent. -/
theorem foldl_insertPending_events (events : List (ℕ × PermissionRequestEvent)) :
    requests.foldl (insertPending dialogTurnId interactive) { s with events := events } =
      { requests.foldl (insertPending dialogTurnId interactive) s with events := events } ∧
    (requests.foldl (insertPending dialogTurnId interactive) s).events = s.events := by
  induction requests generalizing s with
  | nil => exact ⟨rfl, rfl⟩
  | cons request requests ih =>
    have hrest := ih (s := insertPending dialogTurnId interactive s request)
    exact ⟨hrest.1, hrest.2⟩

/-- A batch that is inserted first and asked about then is registered request by request. -/
theorem foldl_registerOne :
    requests.foldl (registerOne dialogTurnId interactive) s =
      { requests.foldl (insertPending dialogTurnId interactive) s with
        events := s.events ++ if interactive then
          (requests.zipIdx s.nextRegistrationSequence).map fun (request, sequence) =>
            (sequence, .asked request)
          else [] } := by
  induction requests generalizing s with
  | nil => simp
  | cons request requests ih =>
    rw [foldl_cons, foldl_cons, ih, registerOne, (foldl_insertPending_events _).1]
    cases interactive <;> simp [insertPending]

/-- The entries of a batch whose registrations are numbered from `n`. -/
def batchEntries (dialogTurnId : Option String) (interactive : Bool) (n : ℕ)
    (requests : List PermissionRequest) : List PendingPermission :=
  (requests.zipIdx n).map fun (request, sequence) => ⟨request, dialogTurnId, interactive, sequence⟩

/-- What registering a batch does. -/
structure Registers (entries : List PendingPermission) (s s' : PermissionRequestManager) :
    Prop where
  inv : s'.Inv
  revision : s'.snapshotRevision = s.snapshotRevision
  /-- the new registrations -/
  registered : s'.registered = s.registered ++ entries
  lookup : ∀ requestId p, s'.pending.lookup requestId = some p ↔
    s.pending.lookup requestId = some p ∨ p ∈ entries ∧ p.request.requestId = requestId
  /-- what was settled stays so -/
  kept : ∀ p ∈ s.registered, ∀ outcome', s.Settled p outcome' → s'.Settled p outcome'

/-- Registering one request that is not pending. -/
theorem Inv.registerOne (h : s.Inv) (dialogTurnId : Option String) (interactive : Bool)
    (hnone : s.pending.lookup request.requestId = none) :
    (PermissionRequestManager.registerOne dialogTurnId interactive s request).Inv ∧
      ∀ p ∈ s.registered, ∀ outcome', s.Settled p outcome' →
        (PermissionRequestManager.registerOne dialogTurnId interactive s request).Settled p
          outcome' := by
  let entry := s.nextEntry dialogTurnId interactive request
  let s' := PermissionRequestManager.registerOne dialogTurnId interactive s request
  have hlookup : ∀ requestId, s'.pending.lookup requestId =
      if requestId = request.requestId then some entry else s.pending.lookup requestId :=
    fun requestId => AssocMap.lookup_insert _ _ _ _
  have hevents : ∀ n, n ≠ s.nextRegistrationSequence → s'.eventsOf n = s.eventsOf n := by
    intro n hn
    have hlog : s'.events = s.events ++
        if interactive then [(s.nextRegistrationSequence, .asked request)] else [] := rfl
    rw [eventsOf, hlog, eventsOf]
    cases interactive with
    | true => rw [if_pos rfl, of_log_append, if_neg hn.symm, append_nil]
    | false => rw [if_neg Bool.false_ne_true, append_nil]
  have hother : ∀ p ∈ s.registered, (s'.IsPending p ↔ s.IsPending p) ∧
      s'.eventsOf p.registrationSequence = s.eventsOf p.registrationSequence := by
    intro p hp
    have hlt := h.sequence_lt hp
    refine ⟨?_, hevents _ (by omega)⟩
    rw [IsPending, hlookup]
    split
    · rename_i hid
      refine iff_of_false (fun heq => ?_) fun hpending => ?_
      · -- the new entry has a new number
        rw [← Option.some.inj heq] at hlt
        exact absurd hlt (lt_irrefl _)
      · rw [IsPending, hid, hnone] at hpending
        cases hpending
    · exact Iff.rfl
  have hnew : s'.Waits entry := by
    refine ⟨?_, ?_, ?_⟩
    · exact (hlookup _).trans (if_pos rfl)
    · rw [outcomesOf, filter_eq_nil_iff.mpr, map_nil]
      intro x hx hsame
      have hlt : x.1 < s.nextRegistrationSequence := h.outcomes_lt x hx
      exact absurd (of_decide_eq_true hsame) hlt.ne
    · have hbefore : s.eventsOf s.nextRegistrationSequence = [] := by
        rw [eventsOf, filter_eq_nil_iff.mpr, map_nil]
        intro x hx hsame
        exact absurd (of_decide_eq_true hsame) (h.events_lt x hx).ne
      have hlog : s'.events = s.events ++
          if interactive then [(s.nextRegistrationSequence, .asked request)] else [] := rfl
      rw [eventsOf, hlog]
      change _ = if interactive then [PermissionRequestEvent.asked request] else []
      cases interactive with
      | true =>
        rw [if_pos rfl, of_log_append, ← eventsOf]
        simp [entry, nextEntry, hbefore]
      | false =>
        rw [if_neg Bool.false_ne_true, append_nil]
        exact hbefore
  refine ⟨⟨?_, ?_, ?_, ?_, ?_⟩, ?_⟩
  · intro requestId p hp
    change s'.pending.lookup requestId = some p at hp
    rw [hlookup] at hp
    split at hp
    · rename_i hid
      rw [← Option.some.inj hp]
      exact ⟨hid.symm, mem_append_right _ (mem_singleton_self _)⟩
    · obtain ⟨hid, hregistered⟩ := h.pending requestId p hp
      exact ⟨hid, mem_append_left _ hregistered⟩
  · change (s.registered ++ [entry]).map (·.registrationSequence) =
      List.range (s.nextRegistrationSequence + 1)
    rw [map_append, h.sequences, range_succ]
    rfl
  · intro x hx
    exact Nat.lt_succ_of_lt (h.outcomes_lt x hx)
  · intro x hx
    change x ∈ s.events ++ _ at hx
    rcases mem_append.mp hx with hx | hx
    · exact Nat.lt_succ_of_lt (h.events_lt x hx)
    · split at hx
      · rw [mem_singleton.mp hx]
        exact Nat.lt_succ_self _
      · exact absurd hx not_mem_nil
  · intro p hp
    rcases mem_append.mp hp with hp | hp
    · exact (h.status p hp).congr (hother p hp).1 rfl (hother p hp).2
    · rw [mem_singleton.mp hp]
      exact .inl hnew
  · intro p hp outcome' hsettled
    refine ⟨fun hpending => hsettled.pending ((hother p hp).1.mp hpending), hsettled.outcomes, ?_⟩
    change ∃ event, _ ∧ s'.eventsOf _ = _
    rw [(hother p hp).2]
    exact hsettled.events

/-- **Registering a batch**, of distinct requests none of which is pending. -/
theorem Inv.registers (h : s.Inv) (dialogTurnId : Option String) (interactive : Bool)
    (hnodup : (requests.map (·.requestId)).Nodup)
    (hnone : ∀ request ∈ requests, s.pending.lookup request.requestId = none) :
    Registers (batchEntries dialogTurnId interactive s.nextRegistrationSequence requests) s
      (requests.foldl (PermissionRequestManager.registerOne dialogTurnId interactive) s) := by
  induction requests generalizing s with
  | nil =>
    refine ⟨h, rfl, (append_nil _).symm, fun _ _ => ?_, fun _ _ _ hsettled => hsettled⟩
    exact (or_iff_left fun hmem => absurd hmem.1 not_mem_nil).symm
  | cons request requests ih =>
    rw [map_cons, nodup_cons] at hnodup
    rw [forall_mem_cons] at hnone
    obtain ⟨hinv, hkept⟩ := h.registerOne dialogTurnId interactive hnone.1
    have hlookup : ∀ requestId,
        (PermissionRequestManager.registerOne dialogTurnId interactive s request).pending.lookup
          requestId = if requestId = request.requestId
            then some (s.nextEntry dialogTurnId interactive request)
            else s.pending.lookup requestId :=
      fun requestId => AssocMap.lookup_insert _ _ _ _
    have hrest := ih hinv hnodup.2 fun r hr => by
      rw [hlookup, if_neg]
      · exact hnone.2 r hr
      · intro hsame
        exact hnodup.1 (mem_map.mpr ⟨r, hr, hsame⟩)
    have hentries : batchEntries dialogTurnId interactive s.nextRegistrationSequence
        (request :: requests) = s.nextEntry dialogTurnId interactive request ::
          batchEntries dialogTurnId interactive (s.nextRegistrationSequence + 1) requests := rfl
    rw [hentries]
    refine ⟨hrest.inv, hrest.revision, ?_, fun requestId p => ?_,
      fun p hp outcome' hsettled => hrest.kept p ?_ outcome' (hkept p hp outcome' hsettled)⟩
    · rw [foldl_cons, hrest.registered]
      exact append_cons _ _ _ |>.symm
    · rw [foldl_cons, hrest.lookup, hlookup, mem_cons, or_and_right, ← or_assoc]
      refine or_congr_left ?_
      by_cases hid : requestId = request.requestId
      · rw [if_pos hid, hid, hnone.1, Option.some_inj]
        refine ⟨?_, ?_⟩
        · rintro rfl
          exact .inr ⟨rfl, rfl⟩
        · rintro (hnothing | ⟨rfl, -⟩)
          · cases hnothing
          · rfl
      · rw [if_neg hid]
        refine (or_iff_left ?_).symm
        rintro ⟨rfl, rfl⟩
        exact hid rfl
    · exact mem_append_left _ hp

end PermissionRequestManager

end PermissionRequests

end OpenBitFun
