import OpenBitFun.PermissionRequestsRuns

/-!
# Failing stores of the permission request manager

Every operation writes to a store before it settles anything: the audit records of a batch and of a
cancellation one by one, a reply with its grants and records at once. Here the calls to the stores
are made, in their order, and any of them may fail. A failure leaves the manager as it was.
-/

namespace OpenBitFun

open List

namespace PermissionRequests

open ToolPermissions (PermissionGrant)

/-! ## The stores -/

/-- `PermissionAuditEvent`. -/
inductive PermissionAuditEvent where
  | requested
  | replied (reply : PermissionReply) (source : PermissionReplySource)
  | cancelled (reason : String)

/-- `PermissionAuditRecord`. -/
structure PermissionAuditRecord where
  auditId : String
  request : PermissionRequest
  event : PermissionAuditEvent
  timestampMs : ℤ

/-- `PermissionAuditStorePort` and `PermissionReplyStorePort`: what a call does to the stores, and
its answer. -/
structure PermissionStores (σ : Type) where
  appendPermissionAudit : σ → PermissionAuditRecord → Except String Unit × σ
  commitPermissionReply :
    σ → List PermissionGrant → List PermissionAuditRecord → Except String Unit × σ

variable {σ : Type}

/-- The same stores, which keep the answers they have given. -/
def PermissionStores.logged (stores : PermissionStores σ) :
    PermissionStores (σ × List (Except String Unit)) where
  appendPermissionAudit := fun (store, answers) record =>
    let (answer, store) := stores.appendPermissionAudit store record
    (answer, store, answers ++ [answer])
  commitPermissionReply := fun (store, answers) grants audit =>
    let (answer, store) := stores.commitPermissionReply store grants audit
    (answer, store, answers ++ [answer])

/-- The loops that append audit records, up to the first that is refused. -/
def PermissionStores.appendAll (stores : PermissionStores σ) :
    σ → List PermissionAuditRecord → Except String Unit × σ
  | store, [] => (.ok (), store)
  | store, record :: records =>
    match stores.appendPermissionAudit store record with
    | (.error error, store) => (.error error, store)
    | (.ok (), store) => stores.appendAll store records

/-- `audit_id`. -/
def auditId (requestId event : String) : String := requestId ++ ":" ++ event

/-- The record of a request that is registered. -/
def requestedRecord (timestampMs : ℤ) (request : PermissionRequest) : PermissionAuditRecord :=
  ⟨auditId request.requestId "requested", request, .requested, timestampMs⟩

/-- The record of a request that is replied to. -/
def repliedRecord (reply : PermissionReply) (source : PermissionReplySource) (timestampMs : ℤ)
    (request : PermissionRequest) : PermissionAuditRecord :=
  ⟨auditId request.requestId "replied", request, .replied reply source, timestampMs⟩

/-- The record of a request that is cancelled. -/
def cancelledRecord (reason : String) (timestampMs : ℤ) (request : PermissionRequest) :
    PermissionAuditRecord :=
  ⟨auditId request.requestId "cancelled", request, .cancelled reason, timestampMs⟩

namespace PermissionRequestManager

/-! ## The operations with their calls -/

/-- `register_batch_with_visibility`: the records are appended while the batch is pending. -/
def registerBatchIn (stores : PermissionStores σ) (s : PermissionRequestManager) (store : σ)
    (requests : List PermissionRequest) (dialogTurnId : Option String) (interactive : Bool)
    (timestampMs : ℤ) :
    Except PermissionRequestManagerError (List PendingPermissionReceiver) ×
      PermissionRequestManager × σ :=
  let (audit, store) :=
    if (s.findDuplicate [] requests).isSome then (.ok (), store)
    else stores.appendAll store (requests.map (requestedRecord timestampMs))
  let (answer, s) := s.registerBatchWithVisibility requests dialogTurnId interactive audit
  (answer, s, store)

/-- The requests that a reply resolves, unless it is refused before the store is called. -/
def resolutionRequests (s : PermissionRequestManager) (requestId : String)
    (includeFollowing : Bool) (reply : PermissionReply) : Option (List PermissionRequest) :=
  if replyIsInvalid includeFollowing reply then none
  else do
    let entry ← s.pending.lookup requestId
    if ownerRejectsInput entry.request reply then none
    else if includeFollowing then orderedPendingRequests s.entries (follows entry.request)
    else some [entry.request]

/-- `reply_from`: the reply is committed before anything is settled. -/
def replyFromIn (stores : PermissionStores σ) (s : PermissionRequestManager) (store : σ)
    (requestId : String) (includeFollowing : Bool) (reply : PermissionReply)
    (source : PermissionReplySource) (timestampMs : ℤ) :
    Except PermissionRequestManagerError PermissionReplyResolution ×
      PermissionRequestManager × σ :=
  let (commit, store) :=
    match s.resolutionRequests requestId includeFollowing reply with
    | none => (.ok (), store)
    | some requests => stores.commitPermissionReply store
      (requests.flatMap (grantsForReply · reply timestampMs))
      (requests.map (repliedRecord reply source timestampMs))
  let (answer, s) := s.replyFrom requestId includeFollowing reply source timestampMs commit
  (answer, s, store)

/-- `cancel_request`. -/
def cancelRequestIn (stores : PermissionStores σ) (s : PermissionRequestManager) (store : σ)
    (requestId reason : String) (timestampMs : ℤ) :
    Except PermissionRequestManagerError Bool × PermissionRequestManager × σ :=
  let (audit, store) :=
    match s.pending.lookup requestId with
    | none => (.ok (), store)
    | some entry => stores.appendAll store [cancelledRecord reason timestampMs entry.request]
  let (answer, s) := s.cancelRequest requestId reason audit
  (answer, s, store)

/-- `cancel_session`. -/
def cancelSessionIn (stores : PermissionStores σ) (s : PermissionRequestManager) (store : σ)
    (sessionId reason : String) (timestampMs : ℤ) :
    Except PermissionRequestManagerError (List String) × PermissionRequestManager × σ :=
  let requests := orderedPendingRequests s.entries fun p => p.request.sessionId == sessionId
  let (audit, store) :=
    stores.appendAll store (requests.map (cancelledRecord reason timestampMs))
  let (answer, s) := s.cancelSession sessionId reason audit
  (answer, s, store)

/-- Performs an operation at a time of the clock. -/
def performIn (stores : PermissionStores σ) (now : ℤ) (s : PermissionRequestManager) (store : σ) :
    Operation → Answer × PermissionRequestManager × σ
  | .registerBatch requests dialogTurnId interactive =>
    let outcome := s.registerBatchIn stores store requests dialogTurnId interactive now
    (.registered outcome.1, outcome.2)
  | .replyFrom requestId includeFollowing reply source timestampMs =>
    let outcome :=
      s.replyFromIn stores store requestId includeFollowing reply source timestampMs
    (.resolved outcome.1, outcome.2)
  | .cancelRequest requestId reason =>
    let outcome := s.cancelRequestIn stores store requestId reason now
    (.cancelled outcome.1, outcome.2)
  | .cancelSession sessionId reason =>
    let outcome := s.cancelSessionIn stores store sessionId reason now
    (.sessionCancelled outcome.1, outcome.2)

/-! ## A failure leaves the manager as it was -/

/-- Nothing is pending that was not, nothing was sent, and the snapshots list the same. -/
structure Unchanged (s s' : PermissionRequestManager) : Prop where
  /-- the requests with the channels of their waiters -/
  pending : s'.pending = s.pending
  outcomes : s'.outcomes = s.outcomes
  events : s'.events = s.events
  snapshot : ∀ requests, (∃ revision, s'.Snapshot ⟨revision, requests⟩) ↔
    ∃ revision, s.Snapshot ⟨revision, requests⟩

variable {s s' : PermissionRequestManager} {requests : List PermissionRequest}

theorem unchanged_of_pending (hpending : s'.pending = s.pending)
    (houtcomes : s'.outcomes = s.outcomes) (hevents : s'.events = s.events) : Unchanged s s' := by
  refine ⟨hpending, houtcomes, hevents, fun requests => ?_⟩
  have hentries : s'.entries = s.entries := by
    rw [entries, entries, hpending]
  refine ⟨?_, ?_⟩
  · rintro ⟨revision, visited, hperm, heq⟩
    rw [hentries] at hperm
    cases heq
    exact ⟨_, visited, hperm, rfl⟩
  · rintro ⟨revision, visited, hperm, heq⟩
    rw [← hentries] at hperm
    cases heq
    exact ⟨_, visited, hperm, rfl⟩

theorem Unchanged.refl (s : PermissionRequestManager) : Unchanged s s :=
  unchanged_of_pending rfl rfl rfl

/-- The order of removals does not matter. -/
theorem foldl_erase_erase (requests : List PermissionRequest) :
    ∀ (pending : AssocMap String PendingPermission) (requestId : String),
      requests.foldl (fun pending request => pending.erase request.requestId)
        (pending.erase requestId) =
      (requests.foldl (fun pending request => pending.erase request.requestId) pending).erase
        requestId := by
  induction requests with
  | nil => exact fun _ _ => rfl
  | cons request requests ih =>
    intro pending requestId
    rw [foldl_cons, foldl_cons, AList.erase_erase, ih]

/-- A batch of new requests that is inserted and removed again. -/
theorem foldl_erase_insertPending {dialogTurnId : Option String} {interactive : Bool}
    (hnodup : (requests.map (·.requestId)).Nodup)
    (hnew : ∀ request ∈ requests, s.pending.lookup request.requestId = none) :
    requests.foldl (fun pending request => pending.erase request.requestId)
      (requests.foldl (insertPending dialogTurnId interactive) s).pending = s.pending := by
  induction requests generalizing s with
  | nil => rfl
  | cons request requests ih =>
    obtain ⟨hnot, hnodup⟩ := nodup_cons.1 hnodup
    obtain ⟨hfirst, hnew⟩ := forall_mem_cons.1 hnew
    have hrest : ∀ r ∈ requests, (insertPending dialogTurnId interactive s request).pending.lookup
        r.requestId = none := by
      intro r hr
      refine (AssocMap.lookup_insert ..).trans ((if_neg fun heq => hnot ?_).trans (hnew r hr))
      exact mem_map.2 ⟨r, hr, heq⟩
    rw [foldl_cons, foldl_cons, foldl_erase_erase, ih hnodup hrest]
    exact AssocMap.erase_insert hfirst _

theorem foldl_insertPending_outcomes {dialogTurnId : Option String} {interactive : Bool} :
    (requests.foldl (insertPending dialogTurnId interactive) s).outcomes = s.outcomes := by
  induction requests generalizing s with
  | nil => rfl
  | cons request requests ih => exact ih

/-- A batch whose audit fails is taken back. -/
theorem registerBatchWithVisibility_error {dialogTurnId : Option String} {interactive : Bool}
    {error : String} (hsome : requests ≠ []) (hnone : s.findDuplicate [] requests = none) :
    ∃ s', s.registerBatchWithVisibility requests dialogTurnId interactive (.error error) =
        (.error (.auditStore error), s') ∧ Unchanged s s' ∧
      ∀ request ∈ requests, s'.pending.lookup request.requestId = none := by
  obtain ⟨hnodup, -, hnew⟩ := findDuplicate_eq_none.1 hnone
  have hpending := @foldl_erase_insertPending s requests dialogTurnId interactive hnodup hnew
  have hempty : requests.isEmpty = false := by
    cases requests with
    | nil => exact absurd rfl hsome
    | cons request requests => rfl
  let inserted := requests.foldl (insertPending dialogTurnId interactive) s
  refine ⟨removePending { inserted with snapshotRevision := inserted.snapshotRevision + 1 }
    requests, ?_, unchanged_of_pending hpending foldl_insertPending_outcomes
    (foldl_insertPending_events s.events).2, fun request hrequest => ?_⟩
  · rw [registerBatchWithVisibility, if_neg (by rw [hempty]; exact Bool.false_ne_true), hnone]
  · refine Eq.trans ?_ (hnew request hrequest)
    rw [← hpending]
    rfl

/-- A reply whose commit fails settles nothing. -/
theorem replyFrom_error {requestId : String} {includeFollowing : Bool} {reply : PermissionReply}
    {source : PermissionReplySource} {timestampMs : ℤ} {error : String}
    (h : s.resolutionRequests requestId includeFollowing reply = some requests) :
    s.replyFrom requestId includeFollowing reply source timestampMs (.error error) =
      (.error (.replyStore error), s) := by
  rw [resolutionRequests] at h
  rw [replyFrom]
  split at h
  · cases h
  · rename_i hvalid
    rw [if_neg hvalid]
    cases hentry : s.pending.lookup requestId with
    | none =>
      rw [hentry] at h
      cases h
    | some entry =>
      rw [hentry] at h
      dsimp only [Option.bind_eq_bind, Option.bind_some] at h ⊢
      split at h
      · cases h
      · rename_i howner
        rw [if_neg howner]

/-- The loop succeeds exactly if every answer it got is a success. -/
theorem appendAll_logged (stores : PermissionStores σ) (records : List PermissionAuditRecord) :
    ∀ (store : σ) (answers : List (Except String Unit)), ∃ given,
      (stores.logged.appendAll (store, answers) records).2.2 = answers ++ given ∧
      ((stores.logged.appendAll (store, answers) records).1 = .ok () ↔
        ∀ answer ∈ given, answer = .ok ()) ∧ (records = [] → given = []) := by
  induction records with
  | nil =>
    intro store answers
    refine ⟨[], (append_nil answers).symm, iff_of_true rfl ?_, fun _ => rfl⟩
    rintro answer ⟨⟩
  | cons record records ih =>
    intro store answers
    have hcall : stores.logged.appendPermissionAudit (store, answers) record =
        ((stores.appendPermissionAudit store record).1,
          (stores.appendPermissionAudit store record).2,
          answers ++ [(stores.appendPermissionAudit store record).1]) := rfl
    rw [PermissionStores.appendAll, hcall]
    cases hanswer : (stores.appendPermissionAudit store record).1 with
    | error error =>
      refine ⟨[.error error], rfl, iff_of_false (fun h => by cases h) fun h => ?_,
        fun h => by cases h⟩
      cases h _ mem_cons_self
    | ok =>
      obtain ⟨given, hgiven, hok, -⟩ := ih (stores.appendPermissionAudit store record).2
        (answers ++ [.ok ()])
      refine ⟨.ok () :: given, ?_, hok.trans ?_, fun h => by cases h⟩
      · refine hgiven.trans ?_
        rw [append_assoc]
        rfl
      · rw [forall_mem_cons]
        exact (and_iff_right rfl).symm

/-- A loop in which a call failed, which then was over at least one record. -/
theorem appendAll_error {stores : PermissionStores σ} {store : σ}
    {records : List PermissionAuditRecord} {error : String}
    (h : .error error ∈ (stores.logged.appendAll (store, []) records).2.2) :
    records ≠ [] ∧ ∃ error, (stores.logged.appendAll (store, []) records).1 = .error error := by
  obtain ⟨given, hgiven, hok, hnil⟩ := appendAll_logged stores records store []
  rw [hgiven, nil_append] at h
  refine ⟨fun hrecords => ?_, ?_⟩
  · rw [hnil hrecords] at h
    cases h
  · cases hanswer : (stores.logged.appendAll (store, []) records).1 with
    | error error => exact ⟨error, rfl⟩
    | ok => cases hok.1 hanswer _ h

/-- An operation in which a call to a store fails is refused and changes nothing, wherever the call
stands; of a batch that is not registered no request stays pending. -/
theorem store_failure_atomic (stores : PermissionStores σ) (now : ℤ) (s : PermissionRequestManager)
    (store : σ) (operation : Operation) {error : String}
    (h : .error error ∈ (s.performIn stores.logged now (store, []) operation).2.2.2) :
    (s.performIn stores.logged now (store, []) operation).1.IsError ∧
    Unchanged s (s.performIn stores.logged now (store, []) operation).2.1 ∧
    ∀ requests dialogTurnId interactive,
      operation = .registerBatch requests dialogTurnId interactive → ∀ request ∈ requests,
        (s.performIn stores.logged now (store, []) operation).2.1.pending.lookup
          request.requestId = none := by
  cases operation with
  | registerBatch requests dialogTurnId interactive =>
    simp only [performIn, registerBatchIn] at h ⊢
    cases hduplicate : s.findDuplicate [] requests with
    | some requestId =>
      rw [hduplicate] at h
      cases h
    | none =>
      rw [hduplicate] at h
      simp only [Option.isSome_none, Bool.false_eq_true, if_false] at h ⊢
      obtain ⟨hsome, error, haudit⟩ := appendAll_error h
      rw [haudit]
      obtain ⟨s', heq, hunchanged, hnone⟩ := @registerBatchWithVisibility_error s requests
        dialogTurnId interactive error (fun hnil => hsome (by rw [hnil]; rfl)) hduplicate
      rw [heq]
      refine ⟨⟨_, rfl⟩, hunchanged, ?_⟩
      rintro _ _ _ ⟨⟩
      exact hnone
  | replyFrom requestId includeFollowing reply source timestampMs =>
    simp only [performIn, replyFromIn] at h ⊢
    cases hrequests : s.resolutionRequests requestId includeFollowing reply with
    | none =>
      rw [hrequests] at h
      cases h
    | some requests =>
      rw [hrequests] at h
      obtain ⟨error, hcommit⟩ : ∃ error, (stores.logged.commitPermissionReply (store, [])
          (requests.flatMap (grantsForReply · reply timestampMs))
          (requests.map (repliedRecord reply source timestampMs))).1 = .error error :=
        ⟨error, (mem_singleton.1 h).symm⟩
      dsimp only
      rw [hcommit, replyFrom_error hrequests]
      refine ⟨⟨_, rfl⟩, Unchanged.refl s, ?_⟩
      rintro _ _ _ ⟨⟩
  | cancelRequest requestId reason =>
    simp only [performIn, cancelRequestIn] at h ⊢
    cases hentry : s.pending.lookup requestId with
    | none =>
      rw [hentry] at h
      cases h
    | some entry =>
      rw [hentry] at h
      obtain ⟨-, error, haudit⟩ := appendAll_error h
      dsimp only
      rw [haudit, cancelRequest, hentry]
      refine ⟨⟨_, rfl⟩, Unchanged.refl s, ?_⟩
      rintro _ _ _ ⟨⟩
  | cancelSession sessionId reason =>
    simp only [performIn, cancelSessionIn] at h ⊢
    obtain ⟨-, error, haudit⟩ := appendAll_error h
    rw [haudit, cancelSession]
    refine ⟨⟨_, rfl⟩, Unchanged.refl s, ?_⟩
    rintro _ _ _ ⟨⟩

/-- A store that fails at the second record of a batch of two. -/
theorem store_failure_atomic_second_record :
    let stores : PermissionStores ℕ :=
      { appendPermissionAudit := fun count _ =>
          (if count = 1 then .error "disk full" else .ok (), count + 1)
        commitPermissionReply := fun count _ _ => (.ok (), count) }
    let operation := Operation.registerBatch [requestOf "first" 0, requestOf "second" 1] none true
    (new.performIn stores.logged 0 (0, []) operation).1.IsError ∧
    Unchanged new (new.performIn stores.logged 0 (0, []) operation).2.1 := by
  intro stores operation
  have hatomic := @store_failure_atomic ℕ stores 0 new 0 operation "disk full"
    (mem_cons_of_mem _ mem_cons_self)
  exact ⟨hatomic.1, hatomic.2.1⟩

end PermissionRequestManager

end PermissionRequests

end OpenBitFun
