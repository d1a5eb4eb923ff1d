import OpenBitFun.HostMessageRequests
import OpenBitFun.Run

/-!
# Runs of the scheduler

Where no dispatch discards the turn of an accepted message, every message is in one place in every
state that a run reaches, it is executed at most once, and what is repeated changes nothing. Where,
besides, every release puts its messages back in the order in which they are shown, a snapshot shows
the queued messages in the order in which they are dequeued.
-/

namespace OpenBitFun

open List

namespace HostQueue

variable {A : Type} {P : Prop} {hash : Fingerprints A} {maxDepth : ℕ} {tr : List (Call A)}
  {σ σ' : DialogScheduler A} {session : String}

/-! ## The conditions -/

/-- Whether a turn is the one of a message that was accepted. -/
def DialogScheduler.isMessage (σ : DialogScheduler A) (session : String) (turn : QueuedTurn A) :
    Bool :=
  turn.turnId.any (σ.hostQueue.contains session)

/-- The turns of messages that a step discards as obsolete continuations of a goal. -/
def DialogScheduler.discards (hash : Fingerprints A) (σ : DialogScheduler A) :
    Operation A → List (QueuedTurn A)
  | .dispatch env session => (σ.dispatchDiscards env session).filter (σ.isMessage session)
  | .request env request =>
    match σ.admitRequest hash env request with
    | (.ok reply, σ') =>
      if reply.dispatches then
        (σ'.dispatchDiscards env request.sessionId).filter (σ'.isMessage request.sessionId)
      else []
    | (.error _, _) => []
  | _ => []

/-- The step discards no message. -/
def DialogScheduler.KeepsMessages (hash : Fingerprints A) (σ : DialogScheduler A)
    (operation : Operation A) : Prop :=
  (σ.discards hash operation).isEmpty

/-- The step releases no message into another place than it is shown in. -/
def DialogScheduler.KeepsOrder (σ : DialogScheduler A) : Operation A → Prop
  | .releaseSteeringTurns session target => σ.ReleasesInOrder session target
  | _ => True

/-! ## The invariant -/

theorem Moves.executeQueueRequest {env : Surroundings A} {request : DialogQueueRequest A}
    (hadmits : σ.Admits (.request env request))
    (hkeeps : σ.KeepsMessages hash (.request env request)) :
    Moves P request.sessionId σ [] (σ.executeQueueRequest hash env request).2 [] := by
  have hadmit : Moves P request.sessionId σ [] (σ.admitRequest hash env request).2 [] :=
    admitRequest hadmits
  rw [DialogScheduler.KeepsMessages, DialogScheduler.discards] at hkeeps
  rw [DialogScheduler.executeQueueRequest]
  generalize σ.admitRequest hash env request = r at hadmit hkeeps ⊢
  obtain ⟨e | reply, σ'⟩ := r
  · exact hadmit
  simp only at hadmit hkeeps ⊢
  refine hadmit.trans (trans ?_ (of_lane (DialogScheduler.lane_queueSnapshot _ _ _ _)))
  split_ifs at hkeeps ⊢
  · exact tryStartNextQueued (filter_eq_nil_iff.1 (isEmpty_iff.1 hkeeps))
  · exact refl

/-- Every step changes the lane of one session. -/
theorem perform_moves {operation : Operation A} (hadmits : σ.Admits operation)
    (hkeeps : σ.KeepsMessages hash operation) (horder : P → σ.KeepsOrder operation) :
    ∃ session, Moves P session σ [] (σ.perform hash operation).2 [] := by
  cases operation with
  | request env request => exact ⟨_, Moves.executeQueueRequest hadmits hkeeps⟩
  | enqueue session turn => exact ⟨session, Moves.enqueue hadmits⟩
  | dispatch env session =>
    exact ⟨session, Moves.tryStartNextQueued (filter_eq_nil_iff.1 (isEmpty_iff.1 hkeeps))⟩
  | holdManagedQueue session reason previous => exact ⟨session, Moves.holdManagedQueue _ _⟩
  | releaseSteeringTurns session target => exact ⟨session, Moves.releaseSteeringTurns horder⟩
  | takePending session turn ids => exact ⟨session, Moves.takePending _ _⟩
  | acknowledgeConsumed session turn injection =>
    exact ⟨session, Moves.acknowledgeConsumed _ _⟩
  | settleOutcome session turn status => exact ⟨session, Moves.settleOutcome status hadmits⟩
  | clearQueueAfter session turn => exact ⟨session, Moves.clearQueueAfter⟩
  | cancelQueuedTurn session turnId => exact ⟨session, Moves.cancelQueuedTurn⟩
  | markAfterTerminalTurn session turn previous =>
    exact ⟨session, Moves.markAfterTerminalTurn _ _⟩
  | retire session epoch activeTurn => exact ⟨session, Moves.beginSessionMaintenance _ _⟩

/-- The invariant holds in every state that a run reaches. -/
theorem Calls.settled (h : Calls hash maxDepth tr σ)
    (hkeeps : ∀ call ∈ tr, call.before.KeepsMessages hash call.operation)
    (horder : P → ∀ call ∈ tr, call.before.KeepsOrder call.operation) (session : String) :
    Settled P (σ.lane session) [] := by
  induction h generalizing session with
  | refl =>
    rw [DialogScheduler.lane_new]
    exact Settled.empty
  | @step tr σ call σ' hrun hstep ih =>
    obtain ⟨rfl, hadmits, hperform⟩ := hstep
    have hmem : call ∈ tr ++ [call] := mem_append_right _ (mem_singleton_self call)
    have hprevious := ih (fun c hc => hkeeps c (mem_append_left _ hc))
      (fun hP c hc => horder hP c (mem_append_left _ hc))
    obtain ⟨changed, hmoves⟩ :=
      perform_moves (P := P) hadmits (hkeeps call hmem) fun hP => horder hP call hmem
    rw [hperform] at hmoves
    by_cases heq : session = changed
    · rw [heq]
      exact hmoves.settled (hprevious changed)
    · rw [hmoves.others session heq]
      exact hprevious session

/-! ## Scripts -/

instance (operation : Operation A) : Decidable (σ.Admits operation) :=
  match operation with
  | .request _ ⟨_, _, .submit _⟩ => inferInstanceAs (Decidable (_ ∨ ∀ _ ∈ _, _))
  | .request _ ⟨_, _, .promote _ _ _⟩ =>
    inferInstanceAs (Decidable ((∀ _ ∈ _, _) ∧ (∀ _ ∈ _, _) ∧ ∀ _ ∈ _, _))
  | .request _ ⟨_, _, .list⟩ => inferInstanceAs (Decidable True)
  | .request _ ⟨_, _, .get _⟩ => inferInstanceAs (Decidable True)
  | .request _ ⟨_, _, .cancel _ _⟩ => inferInstanceAs (Decidable True)
  | .request _ ⟨_, _, .reorder _ _ _ _⟩ => inferInstanceAs (Decidable True)
  | .enqueue _ turn => inferInstanceAs (Decidable (∀ _ ∈ turn.turnId, _))
  | .settleOutcome _ _ _ => inferInstanceAs (Decidable (∀ _ ∈ _, _))
  | .dispatch _ _ => inferInstanceAs (Decidable True)
  | .holdManagedQueue _ _ _ => inferInstanceAs (Decidable True)
  | .releaseSteeringTurns _ _ => inferInstanceAs (Decidable True)
  | .takePending _ _ _ => inferInstanceAs (Decidable True)
  | .acknowledgeConsumed _ _ _ => inferInstanceAs (Decidable True)
  | .clearQueueAfter _ _ => inferInstanceAs (Decidable True)
  | .cancelQueuedTurn _ _ => inferInstanceAs (Decidable True)
  | .markAfterTerminalTurn _ _ _ => inferInstanceAs (Decidable True)
  | .retire _ _ _ => inferInstanceAs (Decidable True)

instance (operation : Operation A) : Decidable (σ.KeepsOrder operation) :=
  match operation with
  | .releaseSteeringTurns session target =>
    inferInstanceAs (Decidable (σ.ReleasesInOrder session target))
  | .request _ _ | .enqueue _ _ | .dispatch _ _ | .holdManagedQueue _ _ _ | .takePending _ _ _
  | .acknowledgeConsumed _ _ _ | .settleOutcome _ _ _ | .clearQueueAfter _ _
  | .cancelQueuedTurn _ _ | .markAfterTerminalTurn _ _ _ | .retire _ _ _ =>
    inferInstanceAs (Decidable True)

instance (operation : Operation A) : Decidable (σ.KeepsMessages hash operation) :=
  inferInstanceAs (Decidable (_ = true))

theorem calls_performAll (hash : Fingerprints A) (σ : DialogScheduler A) (script : List (Operation A))
    (hadmits : ∀ call ∈ (performAll hash σ script).1, call.before.Admits call.operation) :
    Run (Performs hash) σ (performAll hash σ script).1 (performAll hash σ script).2 := by
  induction script generalizing σ with
  | nil => exact .refl
  | cons operation script ih =>
    rw [performAll, forall_mem_cons] at hadmits
    exact (ih _ hadmits.2).cons ⟨rfl, hadmits.1, rfl⟩

/-- Fingerprints that tell these messages and operations apart. -/
def plainFingerprints : Fingerprints String where
  message message := message.content
  action
    | .cancel turnId operationId => "cancel " ++ turnId ++ operationId
    | .promote turnId operationId _ => "promote " ++ turnId ++ operationId
    | _ => ""

/-- What a step reads while a turn runs, or none. -/
def plainSurroundings (running : Option String) (uuid : String) : Surroundings String where
  session := some ⟨running, .ok ()⟩
  activeTurn := running
  holdsDispatch := .ok false
  goalContinuationIsCurrent _ := .ok false
  submitDialogTurn := .ok ()
  startTurnInner := .ok ()
  now := 0
  uuid := uuid

/-- A message for a session whose queue has the epoch of `plainSubmit`. -/
def plainMessage (turnId : String) (metadata : Fields) : DialogQueueMessage String :=
  ⟨turnId, "hello", none, "agent", [], metadata⟩

/-- A client asks, while a turn runs. -/
def plainRequest (running uuid : String) (action : DialogQueueAction String) : Operation String :=
  .request (plainSurroundings (some running) uuid) ⟨"session", some "epoch", action⟩

/-! ## Places -/

/-- The turn of an accepted message is in the one place that the status of its receipt says. -/
def DialogScheduler.InPlace (σ : DialogScheduler A) (session id : String) (e : Entry A) : Prop :=
  let queued := (σ.queues.get session).countP (·.turn.turnId = some id)
  match e.view.status with
  | .queued => e.held = none ∧ queued = 1
  | .blocked => (∃ turn ∈ e.held, turn.turnId = some id) ∧ queued = 0
  | .steeringPending => (∃ turn ∈ e.held, turn.turnId = some id) ∧ queued = 0 ∧
      ∃ target sid, e.view.targetTurnId = some target ∧ e.view.steeringId = some sid ∧
        (σ.lane session).Steers id target sid
  | _ => e.held = none ∧ queued = 0

/-- A step keeps all receipts, turns, injections and operations. -/
structure SameMessages (σ σ' : DialogScheduler A) : Prop where
  lane : σ'.lane = σ.lane
  operations : ∀ session, (σ'.theSession session).operations = (σ.theSession session).operations

/-- A request reaches the queue of a session that is loaded. -/
structure Reaches (σ : DialogScheduler A) (env : Surroundings A) (request : DialogQueueRequest A) :
    Prop where
  sessionId : validateSessionId request.sessionId = .ok ()
  loaded : env.session.isSome
  epoch : request.queueEpoch = some (σ.queueSnapshot env request.sessionId none).1.queueEpoch

/-- What is repeated changes nothing, and is answered with the receipt. -/
structure DialogScheduler.Idempotent (hash : Fingerprints A) (σ : DialogScheduler A) : Prop where
  /-- A message that was accepted. -/
  submit : ∀ env request message e, request.action = .submit message →
    (σ.lane request.sessionId).entries.lookup message.turnId = some e →
    e.fingerprint = hash.message message →
      SameMessages σ (σ.executeQueueRequest hash env request).2 ∧
      (Reaches σ env request → message.wellFormed →
        ∃ snapshot, (σ.executeQueueRequest hash env request).1 = .ok snapshot ∧
          snapshot.receipt = some e.view)
  /-- An operation that was done. -/
  operation : ∀ env request id operation previous,
    request.action.operation = some (id, operation) →
    (σ.theSession request.sessionId).operations.lookup operation =
      some (hash.action request.action, previous) →
      SameMessages σ (σ.executeQueueRequest hash env request).2 ∧
      (Reaches σ env request → wellFormedOperation operation →
        ∃ snapshot, (σ.executeQueueRequest hash env request).1 = .ok snapshot ∧
          snapshot.receipt =
            ((σ.lane request.sessionId).entries.lookup previous).map (·.view))

theorem SameMessages.refl : SameMessages σ σ := ⟨rfl, fun _ => rfl⟩

theorem SameMessages.trans {σ'' : DialogScheduler A} (h : SameMessages σ σ')
    (h' : SameMessages σ' σ'') : SameMessages σ σ'' :=
  ⟨h'.lane.trans h.lane, fun session => (h'.operations session).trans (h.operations session)⟩

theorem sameMessages_queueSnapshot (σ : DialogScheduler A) (session : String)
    (env : Surroundings A) (receiptId : Option String) :
    SameMessages σ (σ.queueSnapshot env session receiptId).2 := by
  refine ⟨σ.lane_queueSnapshot session env receiptId, fun session' => ?_⟩
  rw [DialogScheduler.queueSnapshot, DialogScheduler.theSession, DialogScheduler.theSession,
    DialogScheduler.setSession, AssocMap.lookup_insert]
  by_cases heq : session' = session
  · subst heq
    rw [if_pos rfl]
    cases σ.hostQueue.lookup session' with
    | none => simp only [Option.getD_none, Option.getD_some]; split_ifs <;> rfl
    | some s => simp only [Option.getD_some]; split_ifs <;> rfl
  · rw [if_neg heq]

theorem queueSnapshot_receipt (env : Surroundings A) (receiptId : String) :
    (σ.queueSnapshot env session (some receiptId)).1.receipt =
      ((σ.lane session).entries.lookup receiptId).map (·.view) := by
  rw [DialogScheduler.queueSnapshot, DialogScheduler.lane, HostQueueState.entriesOf]
  cases σ.hostQueue.lookup session with
  | none => simp only [Option.getD_none, Option.bind_some]; split_ifs <;> rfl
  | some s => simp only [Option.getD_some, Option.bind_some]; split_ifs <;> rfl

/-- A request that finds what it asks for done. -/
theorem execute_repeated (hash : Fingerprints A) (σ : DialogScheduler A) (env : Surroundings A)
    (request : DialogQueueRequest A) (id : String) (refusal : PortError) (accepts : Bool)
    (hbody : ∀ σ' : DialogScheduler A, SameMessages σ σ' →
      σ'.performAction hash env request.sessionId request.action =
        if ¬accepts then (.error refusal, σ') else (.ok ⟨some id, false⟩, σ')) :
    SameMessages σ (σ.executeQueueRequest hash env request).2 ∧
      (Reaches σ env request → accepts →
        ∃ snapshot, (σ.executeQueueRequest hash env request).1 = .ok snapshot ∧
          snapshot.receipt = ((σ.lane request.sessionId).entries.lookup id).map (·.view)) := by
  have hsnapshot := sameMessages_queueSnapshot σ request.sessionId env none
  have hadmit : ∃ σ', SameMessages σ σ' ∧
      ((∃ e, σ.admitRequest hash env request = (.error e, σ') ∧
          ¬(Reaches σ env request ∧ accepts)) ∨
        σ.admitRequest hash env request = (.ok ⟨some id, false⟩, σ')) := by
    rw [DialogScheduler.admitRequest]
    cases hvalid : validateSessionId request.sessionId with
    | error e =>
      refine ⟨σ, SameMessages.refl, .inl ⟨_, rfl, fun h => ?_⟩⟩
      rw [h.1.sessionId] at hvalid
      cases hvalid
    | ok _ =>
      simp only
      have hepoch : ∀ h : Reaches σ env request, _ := fun h => h.epoch
      generalize σ.queueSnapshot env request.sessionId none = r at hsnapshot hepoch ⊢
      obtain ⟨snapshot, σ'⟩ := r
      simp only at hsnapshot hepoch ⊢
      split_ifs with hloaded hstale
      · refine ⟨σ, SameMessages.refl, .inl ⟨_, rfl, fun h => ?_⟩⟩
        have := h.1.loaded
        rw [Option.isNone_iff_eq_none.1 hloaded.1] at this
        cases this
      · exact ⟨σ', hsnapshot, .inl ⟨_, rfl, fun h => hstale.2 (hepoch h.1)⟩⟩
      · rw [hbody σ' hsnapshot]
        split_ifs with haccepts
        · exact ⟨σ', hsnapshot, .inr rfl⟩
        · exact ⟨σ', hsnapshot, .inl ⟨_, rfl, fun h => haccepts h.2⟩⟩
  obtain ⟨σ', hsame, ⟨e, hadmit, hnot⟩ | hadmit⟩ := hadmit
  · rw [DialogScheduler.executeQueueRequest, hadmit]
    exact ⟨hsame, fun hreaches haccepts => absurd ⟨hreaches, haccepts⟩ hnot⟩
  · rw [DialogScheduler.executeQueueRequest, hadmit]
    refine ⟨hsame.trans (sameMessages_queueSnapshot _ _ env (some id)), fun _ _ => ⟨_, rfl, ?_⟩⟩
    rw [← hsame.lane]
    exact queueSnapshot_receipt env id

theorem idempotent (hash : Fingerprints A) (σ : DialogScheduler A) : σ.Idempotent hash := by
  refine ⟨fun env request message e haction he hfingerprint => ?_,
    fun env request id operation previous haction hprevious => ?_⟩
  · have hrepeated := execute_repeated hash σ env request message.turnId
      (error "A stable turn ID and message content or attachments are required")
      message.wellFormed fun σ' hsame => by
        rw [haction, DialogScheduler.performAction, DialogScheduler.submitHostMessage]
        simp only [DialogScheduler.theSession_entries, hsame.lane, he, hfingerprint, ne_eq,
          not_true, if_false]
    rw [he] at hrepeated
    exact hrepeated
  · refine execute_repeated hash σ env request previous (error "A stable operation ID is required")
      (wellFormedOperation operation) fun σ' hsame => ?_
    have hmutate : σ'.performAction hash env request.sessionId request.action =
        σ'.mutateHostQueue hash env request.sessionId request.action := by
      cases haction' : request.action <;> rw [haction'] at haction <;>
        first | rfl | cases haction
    rw [hmutate, DialogScheduler.mutateHostQueue, haction]
    simp only [hsame.operations, hprevious, ne_eq, not_true, if_false]

/-- What a settled lane says about a message. -/
theorem inPlace_of_owned (h : (σ.lane session).Owned []) {id : String} {e : Entry A}
    (he : (σ.lane session).entries.lookup id = some e) : σ.InPlace session id e := by
  have hlocated := h.located id e he
  have hturn : e.held.isSome → ∃ turn ∈ e.held, turn.turnId = some id := by
    intro hsome
    obtain ⟨turn, hheld⟩ := Option.isSome_iff_exists.1 hsome
    exact ⟨turn, hheld, h.held id e turn he hheld⟩
  rw [Lane.Located] at hlocated
  rw [DialogScheduler.InPlace]
  cases hstatus : e.view.status with
  | queued =>
    rw [hstatus] at hlocated
    exact ⟨hlocated.1, hlocated.2.1⟩
  | blocked =>
    rw [hstatus] at hlocated
    refine ⟨hturn ?_, hlocated.1⟩
    by_contra hnone
    have hone := hlocated.2.2
    rw [if_neg hnone] at hone
    cases hone
  | steeringPending =>
    rw [hstatus] at hlocated
    exact ⟨hturn hlocated.2.2.1, hlocated.1, hlocated.2.2.2⟩
  | _ =>
    rw [hstatus] at hlocated
    exact ⟨hlocated.2.2.1, hlocated.1⟩

theorem executed_le_one (h : (σ.lane session).Owned []) (id : String) :
    (σ.executed.list session).count id ≤ 1 := by
  change (σ.lane session).executed.count id ≤ 1
  cases he : (σ.lane session).entries.lookup id with
  | none =>
    rw [h.unknown id he]
    exact zero_le_one
  | some e =>
    have hlocated := h.located id e he
    rw [Lane.Located] at hlocated
    cases hstatus : e.view.status with
    | queued =>
      rw [hstatus] at hlocated
      exact hlocated.2.2.1.le.trans zero_le_one
    | blocked =>
      rw [hstatus] at hlocated
      exact hlocated.2.1.1.le.trans zero_le_one
    | steeringPending =>
      rw [hstatus] at hlocated
      obtain ⟨-, -, -, target, sid, -, -, -, ⟨-, hzero, -⟩ | ⟨-, hone, -⟩⟩ := hlocated
      · exact hzero.le.trans zero_le_one
      · exact hone.le
    | _ =>
      rw [hstatus] at hlocated
      exact (Nat.le_add_right _ _).trans hlocated.2.2.2

/-- **No message is lost or doubled.** In every state that a run reaches whose dispatches discard no
message, the turn of every accepted message is in the one place that its status says, no message was
executed twice, and repeated requests change nothing. -/
theorem Calls.inPlace (h : Calls hash maxDepth tr σ)
    (hkeeps : ∀ call ∈ tr, call.before.KeepsMessages hash call.operation) :
    (∀ session id e, (σ.hostQueue.entriesOf session).lookup id = some e →
        σ.InPlace session id e) ∧
      (∀ session id, (σ.executed.list session).count id ≤ 1) ∧ σ.Idempotent hash := by
  have howned := fun session => (h.settled (P := False) hkeeps False.elim session).owned
  exact ⟨fun session id e he => inPlace_of_owned (howned session) he,
    fun session id => executed_le_one (howned session) id, idempotent hash σ⟩

/-- A message is executed as a turn of its own, and another one is injected. -/
theorem inPlace_injected : ∃ tr σ, Calls plainFingerprints 20 tr σ ∧
    (∀ session id e, (σ.hostQueue.entriesOf session).lookup id = some e →
      σ.InPlace session id e) ∧
    (σ.hostQueue.entriesOf "session").iter.map (fun x => (x.1, x.2.view.status)) =
      [("first", .started), ("second", .steered)] ∧
    σ.executed.list "session" = ["second", "first"] := by
  have hrun := calls_performAll plainFingerprints (.new 20)
    [plainRequest "turn" "epoch" (.submit (plainMessage "first" [])),
      plainRequest "turn" "epoch" (.submit (plainMessage "second" [])),
      plainRequest "turn" "injection" (.promote "second" "operation" (some "turn")),
      .takePending "session" "turn" ["injection"],
      .acknowledgeConsumed "session" "turn" "injection",
      .settleOutcome "session" "turn" .completed,
      .dispatch (plainSurroundings none "other") "session"] (by decide +kernel)
  have hplace := Calls.inPlace hrun (by decide +kernel)
  exact ⟨_, _, hrun, hplace.1, by decide +kernel, by decide +kernel⟩

/-- A message whose metadata mark it as a continuation of a goal is discarded by a dispatch: its
receipt says that it is queued, and its turn is nowhere. -/
theorem not_inPlace_discarded : ∃ tr σ e, Calls plainFingerprints 20 tr σ ∧
    (σ.hostQueue.entriesOf "session").lookup "message" = some e ∧ e.view.status = .queued ∧
    e.held = none ∧ σ.queues.get "session" = [] ∧ ¬σ.InPlace "session" "message" e := by
  have hrun := calls_performAll plainFingerprints (.new 20)
    [plainRequest "turn" "epoch"
        (.submit (plainMessage "message" [("threadGoalContinuation", .bool true)])),
      .dispatch (plainSurroundings none "other") "session"] (by decide +kernel)
  generalize hσ : (performAll plainFingerprints (.new 20) _).2 = σ at hrun
  have hreceipt : ((σ.hostQueue.entriesOf "session").lookup "message").map
      (fun e => (e.view.status, e.held.isNone)) = some (.queued, true) := by
    rw [← hσ]
    decide +kernel
  have hempty : (σ.queues.get "session").isEmpty := by
    rw [← hσ]
    decide +kernel
  obtain ⟨e, he, hview⟩ := Option.map_eq_some_iff.1 hreceipt
  obtain ⟨hstatus, hheld⟩ := Prod.mk.inj hview
  have hturns := isEmpty_iff.1 hempty
  refine ⟨_, σ, e, hrun, he, hstatus, Option.isNone_iff_eq_none.1 hheld, hturns, ?_⟩
  rw [DialogScheduler.InPlace, hstatus, hturns]
  rintro ⟨-, hone⟩
  cases hone

/-! ## The order that is shown -/

/-- The turns in the order in which `dequeue_next` returns them. -/
def dequeueAll {T : Type} (q : DialogTurnQueue T) (session : String) : List T :=
  match _h : q.dequeueNext session with
  | (some turn, q') => turn :: dequeueAll q' session
  | (none, _) => []
termination_by q.depth session
decreasing_by
  obtain ⟨q', heq, -⟩ | ⟨q', item, back, heq, hturns, hget⟩ := q.dequeueNext_cases session
  · rw [heq] at _h
    cases _h
  · rw [heq] at _h
    cases _h
    rw [DialogTurnQueue.depth, DialogTurnQueue.depth, hget, if_pos rfl, hturns]
    exact Nat.lt_succ_self _

theorem dequeueAll_eq {T : Type} (q : DialogTurnQueue T) (session : String) :
    dequeueAll q session = (q.get session).map (·.turn) := by
  induction hn : q.depth session using Nat.strong_induction_on generalizing q with
  | _ n ih =>
    subst hn
    rw [dequeueAll]
    obtain ⟨q', heq, -, hnil⟩ | ⟨q', item, back, heq, hturns, hget⟩ := q.dequeueNext_cases session
    · split
      · next turn q'' heq' =>
        rw [heq] at heq'
        cases heq'
      · rw [hnil]
        rfl
    · have hrest : q'.get session = back := by rw [hget, if_pos rfl]
      have hdepth : q'.depth session < q.depth session := by
        rw [DialogTurnQueue.depth, DialogTurnQueue.depth, hrest, hturns]
        exact Nat.lt_succ_self _
      split
      · next turn q'' heq' =>
        rw [heq] at heq'
        cases heq'
        rw [ih _ hdepth q' rfl, hrest, hturns]
        rfl
      · next q'' heq' =>
        rw [heq] at heq'
        cases heq'

/-- The messages that a snapshot shows as queued. -/
def DialogScheduler.shown (σ : DialogScheduler A) (env : Surroundings A) (session : String) :
    List String :=
  ((σ.queueSnapshot env session none).1.items.filter (·.status = .queued)).map (·.turnId)

/-- The messages in the order in which they are dequeued. -/
def DialogScheduler.dequeued (σ : DialogScheduler A) (session : String) : List String :=
  (dequeueAll σ.queues session).filterMap fun turn =>
    turn.turnId.filter (σ.hostQueue.contains session)

/-- **The real order is shown.** In every state that a run reaches whose dispatches discard no
message and whose releases keep the order, a snapshot shows the queued messages in the order in which
they are dequeued. -/
theorem Calls.shown_eq (h : Calls hash maxDepth tr σ)
    (hkeeps : ∀ call ∈ tr, call.before.KeepsMessages hash call.operation)
    (horder : ∀ call ∈ tr, call.before.KeepsOrder call.operation) (env : Surroundings A)
    (session : String) : σ.shown env session = σ.dequeued session := by
  have hsettled := h.settled (P := True) hkeeps (fun _ => horder) session
  rw [DialogScheduler.shown, queueSnapshot_queued σ session env none hsettled.owned.named,
    DialogScheduler.dequeued, dequeueAll_eq, filterMap_map]
  exact (hsettled.ordered trivial).shown hsettled.owned

/-- A message that is released is shown in front, as it was before. -/
theorem shown_eq_released : ∃ tr σ, Calls plainFingerprints 20 tr σ ∧
    σ.shown (plainSurroundings none "other") "session" = σ.dequeued "session" ∧
    σ.dequeued "session" = ["first", "second"] := by
  have hrun := calls_performAll plainFingerprints (.new 20)
    [plainRequest "turn" "epoch" (.submit (plainMessage "first" [])),
      plainRequest "turn" "epoch" (.submit (plainMessage "second" [])),
      plainRequest "turn" "injection" (.promote "first" "operation" (some "turn")),
      .releaseSteeringTurns "session" "turn"] (by decide +kernel)
  have hshown := Calls.shown_eq hrun (by decide +kernel) (by decide +kernel)
    (plainSurroundings none "other") "session"
  exact ⟨_, _, hrun, hshown, by decide +kernel⟩

/-- The second of two messages is released: it is dequeued first, and shown second. -/
theorem shown_ne_released : ∃ tr σ, Calls plainFingerprints 20 tr σ ∧
    σ.shown (plainSurroundings none "other") "session" = ["first", "second"] ∧
    σ.dequeued "session" = ["second", "first"] := by
  have hrun := calls_performAll plainFingerprints (.new 20)
    [plainRequest "turn" "epoch" (.submit (plainMessage "first" [])),
      plainRequest "turn" "epoch" (.submit (plainMessage "second" [])),
      plainRequest "turn" "injection" (.promote "second" "operation" (some "turn")),
      .releaseSteeringTurns "session" "turn"] (by decide +kernel)
  exact ⟨_, _, hrun, by decide +kernel, by decide +kernel⟩

end HostQueue

end OpenBitFun
