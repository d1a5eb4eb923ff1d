import OpenBitFun.HostMessageQueue

/-!
# The scheduler of the host message queue

The steps of `DialogScheduler` that move the turns of accepted messages: requests of clients
(`executeQueueRequest`), dispatches (`tryStartNextQueued`), outcomes of turns and maintenance. A run
(`Operations`) takes any of them in any order, for any sessions.
-/

namespace OpenBitFun

open List

namespace HostQueue

variable {A : Type}

/-- `Session`: what the session manager says about a loaded session. -/
structure Session where
  /-- The turn that is processed, if any. -/
  currentTurnId : Option String
  /-- `ensure_session_accepts_conversation`. -/
  acceptsConversation : Except String Unit

/-- What a step reads from outside the scheduler. -/
structure Surroundings (A : Type) where
  /-- `get_session`. -/
  session : Option Session
  /-- The turn in `active_turns`. -/
  activeTurn : Option String
  /-- `latest_dialog_turn_holds_dispatch`. -/
  holdsDispatch : Except String Bool
  /-- `thread_goal_continuation_is_current`. -/
  goalContinuationIsCurrent : QueuedTurn A → Except String Bool
  /-- Why `submit_dialog_turn` refuses a turn, if it does. -/
  submitDialogTurn : Except PortError Unit
  /-- `start_turn_inner`. -/
  startTurnInner : Except String Unit
  /-- The time. -/
  now : ℕ
  /-- `Uuid::new_v4`. -/
  uuid : String

/-- The fingerprints of messages and operations. -/
structure Fingerprints (A : Type) where
  /-- Of a message. -/
  message : DialogQueueMessage A → String
  /-- Of an operation. -/
  action : DialogQueueAction A → String

/-- `RECEIPT_LIMIT`. -/
def receiptLimit : ℕ := 16384

/-- `PREVIEW_CHARS`. -/
def previewChars : ℕ := 2000

/-- What `submit_host_message` checks of a message. -/
def DialogQueueMessage.wellFormed (message : DialogQueueMessage A) : Bool :=
  !(Text.trim message.turnId.toList = [] || 200 < message.turnId.utf8ByteSize ||
    (Text.trim message.content.toList = [] && message.attachments.isEmpty))

/-- What `mutate_host_queue` checks of the id of an operation. -/
def wellFormedOperation (operation : String) : Bool :=
  !(Text.trim operation.toList = [] || 200 < operation.utf8ByteSize)

/-- `validate_session_id`. -/
def validateSessionId (sessionId : String) : Except String Unit :=
  if sessionId = "" then .error "session_id cannot be empty"
  else if sessionId = "." ∨ sessionId = ".." then .error "session_id cannot be '.' or '..'"
  else if sessionId.toList.any fun c => c = '/' || c = '\\' then
    .error "session_id cannot contain path separators"
  else if sessionId.toList.any fun c => c.toNat < 32 || (127 ≤ c.toNat && c.toNat < 160) then
    .error "session_id cannot contain control characters"
  else match sessionId.toList with
    | c :: ':' :: _ =>
      if c.isAlpha then .error "session_id cannot use a drive-relative path prefix" else .ok ()
    | _ => .ok ()

namespace DialogScheduler

/-! ## The dispatch queue -/

/-- `remove_queued_turn_by_id`. -/
def removeQueuedTurnById (σ : DialogScheduler A) (session turnId : String) :
    Option (QueuedTurn A) × DialogScheduler A :=
  let (turn, queues) := σ.queues.removeFirstMatching session (·.turnId = some turnId)
  (turn, { σ with queues })

/-- `requeue_front`. -/
def requeueFront (σ : DialogScheduler A) (session : String) (turn : QueuedTurn A) :
    DialogScheduler A :=
  { σ with queues := σ.queues.requeueFront session turn turn.policy.queuePriority }

/-- `queue_depth`. -/
def queueDepth (σ : DialogScheduler A) (session : String) : ℕ :=
  σ.queues.depth session + σ.hostQueue.pendingHeld session

/-- `enqueue`. -/
def enqueue (σ : DialogScheduler A) (session : String) (turn : QueuedTurn A) :
    Except String Unit × DialogScheduler A :=
  if σ.queues.maxDepth ≤ σ.queueDepth session then (.error "Message queue is full", σ)
  else match σ.queues.enqueue session turn turn.policy.queuePriority with
    | (.ok _, queues) => (.ok (), { σ with queues })
    | (.error e, queues) => (.error e.message, { σ with queues })

/-- `hold`. -/
def hold (σ : DialogScheduler A) (session : String) (turn : QueuedTurn A) (reason : String) :
    DialogScheduler A :=
  { σ with hostQueue := (σ.hostQueue.hold session turn reason).2 }

/-- `finish_removed_queued_turn`. -/
def finishRemovedQueuedTurn (σ : DialogScheduler A) (session : String) (turn : QueuedTurn A) :
    DialogScheduler A :=
  match turn.turnId with
  | some id => { σ with hostQueue := σ.hostQueue.cancelled session id }
  | none => σ

/-- `start_turn`: a turn that starts is reported. A turn without an id is given a new one, which no
receipt has. -/
def startTurn (env : Surroundings A) (σ : DialogScheduler A) (session : String)
    (turn : QueuedTurn A) : Except String String × DialogScheduler A :=
  match env.startTurnInner with
  | .error e => (.error e, σ)
  | .ok () =>
    match turn.turnId with
    | none => (.ok env.uuid, σ)
    | some id => (.ok id, { σ with
        hostQueue := σ.hostQueue.started session id
        executed := if σ.hostQueue.contains session id then
          σ.executed.insert session (σ.executed.list session ++ [id]) else σ.executed })

/-- The next turn to dispatch: while messages are held, background work waits. -/
def nextTurn (q : DialogTurnQueue (QueuedTurn A)) (session : String) (heldUserMessages : Bool) :
    Option (QueuedTurn A) × DialogTurnQueue (QueuedTurn A) :=
  if heldUserMessages then q.removeFirstMatching session (·.isUserSubmission)
  else q.dequeueNext session

theorem nextTurn_depth {q q' : DialogTurnQueue (QueuedTurn A)} {session : String} {held : Bool}
    {turn : QueuedTurn A} (h : nextTurn q session held = (some turn, q')) :
    q'.depth session < q.depth session := by
  rw [nextTurn] at h
  split at h
  · obtain ⟨hturn, -, hget⟩ := q.removeFirstMatching_spec session (·.isUserSubmission)
    rw [h] at hturn hget
    obtain ⟨item, hitem, -⟩ := Option.map_eq_some_iff.1 hturn.symm
    have hmem := mem_of_find?_eq_some hitem
    rw [DialogTurnQueue.depth, DialogTurnQueue.depth, hget session, if_pos rfl,
      length_eraseP_of_mem hmem (find?_some hitem)]
    exact Nat.sub_lt (length_pos_of_mem hmem) Nat.one_pos
  · obtain ⟨hturn, -, hget⟩ := q.dequeueNext_spec session
    rw [h] at hturn hget
    obtain ⟨item, hitem, -⟩ := Option.map_eq_some_iff.1 hturn.symm
    have hmem := mem_of_head? hitem
    rw [DialogTurnQueue.depth, DialogTurnQueue.depth, hget session, if_pos rfl, length_tail]
    exact Nat.sub_lt (length_pos_of_mem hmem) Nat.one_pos

/-- The loop of `try_start_next_queued_locked`: continuations of a goal that is not current are
discarded. -/
def pickNext (env : Surroundings A) (session : String) (heldUserMessages : Bool)
    (q : DialogTurnQueue (QueuedTurn A)) :
    Except String (Option (QueuedTurn A)) × DialogTurnQueue (QueuedTurn A) :=
  match _h : nextTurn q session heldUserMessages with
  | (none, q') => (.ok none, q')
  | (some turn, q') =>
    if turn.isGoalContinuation then
      match env.goalContinuationIsCurrent turn with
      | .ok true => (.ok (some turn), q')
      | .ok false => pickNext env session heldUserMessages q'
      | .error e => (.error e, q'.requeueFront session turn turn.policy.queuePriority)
    else (.ok (some turn), q')
termination_by q.depth session
decreasing_by exact nextTurn_depth _h

/-- The turns that the loop discards. -/
def discarded (env : Surroundings A) (session : String) (heldUserMessages : Bool)
    (q : DialogTurnQueue (QueuedTurn A)) : List (QueuedTurn A) :=
  match _h : nextTurn q session heldUserMessages with
  | (none, _) => []
  | (some turn, q') =>
    if turn.isGoalContinuation then
      match env.goalContinuationIsCurrent turn with
      | .ok false => turn :: discarded env session heldUserMessages q'
      | _ => []
    else []
termination_by q.depth session
decreasing_by exact nextTurn_depth _h

/-- `try_start_next_queued_locked`. -/
def tryStartNextQueued (env : Surroundings A) (σ : DialogScheduler A) (session : String) :
    Except String (Option String) × DialogScheduler A :=
  if env.activeTurn.isSome ∨ (env.session.bind (·.currentTurnId)).isSome then (.ok none, σ)
  else match env.holdsDispatch with
    | .error e => (.error e, σ)
    | .ok true => (.ok none, σ)
    | .ok false =>
      match pickNext env session (0 < σ.hostQueue.pendingHeld session) σ.queues with
      | (.error e, queues) => (.error e, { σ with queues })
      | (.ok none, queues) => (.ok none, { σ with queues })
      | (.ok (some turn), queues) =>
        let σ := { σ with queues }
        match σ.startTurn env session turn with
        | (.ok id, σ) => (.ok (some id), σ)
        | (.error e, σ) =>
          match σ.hostQueue.hold session turn e with
          | (true, hostQueue) => (.error e, { σ with hostQueue })
          | (false, hostQueue) => (.error e, requeueFront { σ with hostQueue } session turn)

/-- The turns that a dispatch discards. -/
def dispatchDiscards (env : Surroundings A) (σ : DialogScheduler A) (session : String) :
    List (QueuedTurn A) :=
  if env.activeTurn.isSome ∨ (env.session.bind (·.currentTurnId)).isSome then []
  else match env.holdsDispatch with
    | .ok false => discarded env session (0 < σ.hostQueue.pendingHeld session) σ.queues
    | _ => []

/-! ## Messages that change hands -/

/-- `hold_managed_queue_for_outcome`; `hold_managed_queue` has no `previous`. -/
def holdManagedQueue (σ : DialogScheduler A) (session reason : String)
    (previous : Option String) : DialogScheduler A :=
  let ids := ((σ.hostQueue.entriesOf session).iter.filter fun (_, e) =>
    e.view.status = .queued && (previous.isNone || e.afterTerminalTurn != previous)).map (·.1)
  ids.foldl (fun σ id =>
    match σ.removeQueuedTurnById session id with
    | (some turn, σ) => σ.hold session turn reason
    | (none, σ) => σ) σ

/-- The message that `release_steering_turns` gives back for an injection: its receipt holds it no
more. -/
def releaseTurn (σ : DialogScheduler A) (session target injection : String) :
    Option (QueuedTurn A) × DialogScheduler A :=
  match (σ.hostQueue.entriesOf session).iter.find?
      (fun (_, e) => e.steers target && e.view.steeringId = some injection) with
  | none => (none, σ)
  | some (id, e) =>
    match e.held with
    | none => (none, σ)
    | some turn => (some turn, { σ with
        hostQueue := σ.hostQueue.modifyEntry session id fun e => { e with
          view := { e.view with
            status := .queued, targetTurnId := none, steeringId := none, reason := none }
          held := none } })

/-- The message that an injection steers into a turn. -/
def steeredBy (σ : DialogScheduler A) (session target : String) (x : RoundInjection A) :
    Option String :=
  ((σ.hostQueue.entriesOf session).iter.find?
    (fun (_, e) => e.steers target && e.view.steeringId = some x.id)).map (·.1)

/-- Releasing the message of the next injection. -/
def releaseNext (session target : String) :
    List (QueuedTurn A) × DialogScheduler A → RoundInjection A →
      List (QueuedTurn A) × DialogScheduler A
  | (turns, σ), x =>
    match σ.releaseTurn session target x.id with
    | (some turn, σ) => (turns ++ [turn], σ)
    | (none, σ) => (turns, σ)

/-- The messages that `release_steering_turns` takes back, in the order of their injections. -/
def releaseTurns (σ : DialogScheduler A) (session target : String) :
    List (QueuedTurn A) × DialogScheduler A :=
  let managed := σ.hostQueue.pendingSteeringIds session target
  let (injections, σ) := σ.drainMatchingForTurn session target fun x => managed.contains x.id
  injections.foldl (releaseNext session target) ([], σ)

/-- `release_steering_turns`: the messages that still wait to be injected go back in front of the
dispatch queue. -/
def releaseSteeringTurns (σ : DialogScheduler A) (session target : String) :
    Bool × DialogScheduler A :=
  let (turns, σ) := σ.releaseTurns session target
  (!turns.isEmpty, turns.reverse.foldl (fun σ turn => σ.requeueFront session turn) σ)

/-- `clear_queue_with_policy`: a turn with a receipt is held by it if user messages are preserved,
any other turn is dropped. -/
def clearQueue (σ : DialogScheduler A) (session : String) (preserveUserMessages : Bool) :
    DialogScheduler A :=
  let (turns, queues) := σ.queues.clear session
  turns.foldl (fun σ turn =>
    if preserveUserMessages then
      σ.hold session turn "Previous turn failed; retry or cancel this message"
    else σ) { σ with queues }

/-- The turns with one of the given ids, in their order. -/
def removeAll (σ : DialogScheduler A) (session : String) (ids : List String) :
    List (QueuedTurn A) × DialogScheduler A :=
  match _h : σ.queues.removeFirstMatching session fun turn => turn.turnId.any ids.contains with
  | (some turn, queues) =>
    let (turns, σ') := removeAll { σ with queues } session ids
    (turn :: turns, σ')
  | (none, queues) => ([], { σ with queues })
termination_by σ.queues.depth session
decreasing_by
  obtain ⟨hturn, -, hget⟩ := σ.queues.removeFirstMatching_spec session
    fun turn => turn.turnId.any ids.contains
  rw [_h] at hturn hget
  obtain ⟨item, hitem, -⟩ := Option.map_eq_some_iff.1 hturn.symm
  have hmem := mem_of_find?_eq_some hitem
  rw [DialogTurnQueue.depth, DialogTurnQueue.depth, hget session, if_pos rfl,
    length_eraseP_of_mem hmem (find?_some hitem)]
  exact Nat.sub_lt (length_pos_of_mem hmem) Nat.one_pos

/-- `TurnOutcomeQueueAction::ClearQueue`: the queue is cleared after a turn failed, and what was
accepted after it goes back in front. -/
def clearQueueAfter (σ : DialogScheduler A) (session turn : String) : DialogScheduler A :=
  let (newer, σ) := σ.removeAll session (σ.hostQueue.admittedAfter session turn)
  newer.reverse.foldl (fun σ turn => σ.requeueFront session turn) (σ.clearQueue session true)

/-- What the outcome handler does with the receipts and the injections of a turn that ended. -/
def settleOutcome (σ : DialogScheduler A) (session turn : String) (status : TurnOutcomeStatus) :
    DialogScheduler A :=
  let (retired, hostQueue) := σ.hostQueue.outcome session turn status
  let σ := retired.foldl (fun σ id => σ.removeInjection session id) { σ with hostQueue }
  if status = .interrupted then σ.discardCurrentRunning session
  else (σ.drainMatchingForTurn session turn fun _ => true).2

/-- `cancel_queued_or_active_turn`, where the turn is queued. -/
def cancelQueuedTurn (σ : DialogScheduler A) (session turnId : String) : DialogScheduler A :=
  match σ.removeQueuedTurnById session turnId with
  | (some turn, σ) => σ.finishRemovedQueuedTurn session turn
  | (none, σ) => σ

/-- `begin_session_maintenance`, which retires the session's messages. -/
def beginSessionMaintenance (σ : DialogScheduler A) (session epoch : String)
    (activeTurn : Option String) : DialogScheduler A :=
  let (held, hostQueue) := σ.hostQueue.retire session epoch
  let σ := held.foldl (fun σ turn => σ.finishRemovedQueuedTurn session turn) { σ with hostQueue }
  let σ := σ.clearQueue session false
  match activeTurn with
  | some turn => (σ.drainMatchingForTurn session turn fun _ => true).2
  | none => σ

/-! ## Requests -/

/-- The queue of a session, which is initialized before a request is looked at. -/
def theSession (σ : DialogScheduler A) (session : String) : QueueSession A :=
  (σ.hostQueue.lookup session).getD (.new "")

/-- Replaces the queue of a session. -/
def setSession (σ : DialogScheduler A) (session : String) (s : QueueSession A) :
    DialogScheduler A :=
  { σ with hostQueue := σ.hostQueue.insert session s }

/-- `queue_snapshot`. -/
def queueSnapshot (env : Surroundings A) (σ : DialogScheduler A) (session : String)
    (receiptId : Option String) : DialogQueueSnapshot × DialogScheduler A :=
  let s := (σ.hostQueue.lookup session).getD (.new env.uuid)
  let activeTurnId := env.session.bind (·.currentTurnId)
  let s := if s.activeTurnId ≠ activeTurnId then
    { s with activeTurnId, revision := s.revision + 1 } else s
  ({ sessionId := session
     queueEpoch := s.epoch
     revision := s.revision
     activeTurnId
     items := ((s.order.filterMap s.entries.lookup).filter (·.view.status.isPending)).map (·.view)
     supportsReorder := some true
     capacity := σ.queues.maxDepth
     used := σ.queues.depth session + s.entries.iter.countP (·.2.holdsPending)
     receipt := (receiptId.bind s.entries.lookup).map (·.view) },
    σ.setSession session s)

/-- What is left to do when a request was admitted: `try_start_next_queued_locked`, where it
dispatches, and a snapshot with the receipt of a message. -/
structure Reply where
  /-- The message. -/
  receiptId : Option String
  /-- Whether the request dispatches. -/
  dispatches : Bool
  deriving DecidableEq

/-- The keys that a client may not set. -/
def hostKeys : List String :=
  ["acp_transport", "backgroundTaskId", "parentSessionId", "parentDialogTurnId",
    "subagentSessionId", "subagentDialogTurnId", "require_tool_confirmation"]

/-- `agent_dialog_turn_metadata`, without an output schema. -/
def agentDialogTurnMetadata (metadata : Fields) : Option Json.Value :=
  let metadata := metadata.filter (·.1 ≠ "openbitfun_output_schema")
  if metadata.isEmpty then none else some (.object metadata)

/-- The turn of a message. -/
def turnOf (message : DialogQueueMessage A) : QueuedTurn A where
  userInput := message.content
  originalUserInput := message.displayContent
  turnId := some message.turnId
  agentType := message.agentType
  policy := .forSource .desktopUi
  userMessageMetadata :=
    agentDialogTurnMetadata (message.metadata.filter fun field => !hostKeys.contains field.1)
  imageContexts := if message.attachments.isEmpty then none else some message.attachments

/-- The receipt of a message that is accepted. -/
def entryOf (digest : String) (now : ℕ) (message : DialogQueueMessage A) : Entry A :=
  let display := (message.displayContent.getD message.content).toList
  { fingerprint := digest
    view :=
      { turnId := message.turnId
        displayContent := String.ofList (display.take previewChars)
        previewTruncated := previewChars < display.length
        attachmentCount := message.attachments.length
        agentType := message.agentType
        createdAtMs := now
        status := .queued
        reason := none
        targetTurnId := none
        steeringId := none
        steeringDisplay := none }
    held := none
    afterTerminalTurn := none }

/-- `submit_dialog_turn`, which refuses a turn or puts it into the dispatch queue. -/
def submitDialogTurn (env : Surroundings A) (σ : DialogScheduler A) (session : String)
    (turn : QueuedTurn A) : Except PortError Unit × DialogScheduler A :=
  match env.submitDialogTurn with
  | .error e => (.error e, σ)
  | .ok () =>
    match σ.enqueue session turn with
    | (.ok (), σ) => (.ok (), σ)
    | (.error e, σ) => (.error ⟨.backend, e⟩, σ)

/-- The end of `submit_host_message`: the receipt of a new message is stored, and taken back if its
turn is refused. -/
def acceptMessage (env : Surroundings A) (σ : DialogScheduler A) (session : String)
    (entry : Entry A) (turn : QueuedTurn A) : Except PortError Reply × DialogScheduler A :=
  let id := entry.view.turnId
  let s := σ.theSession session
  let accepted := σ.setSession session { s with
    entries := s.entries.insert id entry, order := s.order ++ [id] }
  match accepted.submitDialogTurn env session turn with
  | (.error e, σ) =>
    let s := σ.theSession session
    (.error e, σ.setSession session { s with
      entries := s.entries.erase id, order := s.order.filter (· ≠ id) })
  | (.ok (), σ) =>
    let s := σ.theSession session
    (.ok ⟨some id, false⟩, σ.setSession session { s with revision := s.revision + 1 })

/-- `submit_host_message`. -/
def submitHostMessage (hash : Fingerprints A) (env : Surroundings A) (σ : DialogScheduler A)
    (session : String) (message : DialogQueueMessage A) :
    Except PortError Reply × DialogScheduler A :=
  if ¬message.wellFormed then
    (.error (error "A stable turn ID and message content or attachments are required"), σ)
  else
    let digest := hash.message message
    let s := σ.theSession session
    match s.entries.lookup message.turnId with
    | some e =>
      if e.fingerprint ≠ digest then
        (.error (error "idempotency_conflict: message payload changed"), σ)
      else (.ok ⟨some message.turnId, false⟩, σ)
    | none =>
      match env.session with
      | none => (.error (error "Session was removed"), σ)
      | some binding =>
        match binding.acceptsConversation with
        | .error failure => (.error (error failure), σ)
        | .ok () =>
          if receiptLimit ≤ s.entries.size + s.operations.size then
            (.error (error "Queue receipt budget exhausted; start a new session"), σ)
          else if σ.queues.maxDepth ≤
              σ.queues.depth session + s.entries.iter.countP (·.2.held.isSome) then
            (.error (error "Message queue is full"), σ)
          else
            σ.acceptMessage env session (entryOf digest env.now message) (turnOf message)

/-- The new order of the queued messages, when `id` moves. -/
def movedOrder (queued : List String) (id : String) (beforeTurnId : Option String) :
    Except PortError (List String) :=
  if id ∉ queued then .error (error "too_late: only queued messages can be reordered")
  else if beforeTurnId = some id then
    .error (error "queue_conflict: a message cannot be moved before itself")
  else
    let order := queued.erase id
    match beforeTurnId with
    | none => .ok (order ++ [id])
    | some before =>
      match order.findIdx? (· = before) with
      | some index => .ok (order.insertIdx index id)
      | none => .error (error "queue_conflict: destination is no longer queued")

/-- Writes the ids of `order` to the positions that they have in `shown`. -/
def reorderShown (shown order : List String) : List String :=
  let positions := (List.range shown.length).filter fun i => shown[i]?.any order.contains
  (positions.zip order).foldl (fun shown (position, turn) => shown.set position turn) shown

/-- `DialogQueueAction::Reorder`. -/
def reorder (env : Surroundings A) (σ : DialogScheduler A) (session id : String)
    (beforeTurnId : Option String) (operation digest : String) (expectedRevision : ℕ) :
    Except PortError Reply × DialogScheduler A :=
  let (snapshot, σ) := σ.queueSnapshot env session none
  if snapshot.revision ≠ expectedRevision then
    (.error (error "queue_conflict: queue changed; refresh before reordering"), σ)
  else
    let queued := (snapshot.items.filter (·.status = .queued)).map (·.turnId)
    match movedOrder queued id beforeTurnId with
    | .error e => (.error e, σ)
    | .ok order =>
      match σ.queues.reorderSubset session order (·.turnId) with
      | (false, queues) => (.error (error "queue_conflict: dispatch queue changed"),
          { σ with queues })
      | (true, queues) =>
        let s := σ.theSession session
        (.ok ⟨some id, false⟩, setSession { σ with queues } session { s with
          order := reorderShown s.order order
          operations := s.operations.insert operation (digest, id)
          revision := s.revision + 1 })

/-- What `DialogQueueAction::Promote` checks and does before it takes the message. -/
def preparePromotion (env : Surroundings A) (σ : DialogScheduler A) (session : String)
    (expectedActiveTurnId : Option String) : Except PortError Unit × DialogScheduler A :=
  let (snapshot, σ) := σ.queueSnapshot env session none
  if snapshot.activeTurnId ≠ expectedActiveTurnId then
    (.error (error "queue_conflict: active turn changed"), σ)
  else match expectedActiveTurnId with
    | some target =>
      if env.activeTurn ≠ some target then
        (.error (error "queue_conflict: target is no longer active"), σ)
      else (.ok (), σ)
    | none =>
      if env.activeTurn.isSome then
        (.error (error "queue_conflict: previous turn is still retiring"), σ)
      else match env.holdsDispatch with
        | .error e => (.error (error e), σ)
        | .ok true =>
          (.ok (), σ.holdManagedQueue session "Turn interrupted; retry this message explicitly"
            none)
        | .ok false => (.ok (), σ)

/-- What an operation checks and does before it takes the message. -/
def prepare (env : Surroundings A) (σ : DialogScheduler A) (session : String)
    (action : DialogQueueAction A) : Except PortError Unit × DialogScheduler A :=
  match action with
  | .promote _ _ expectedActiveTurnId => σ.preparePromotion env session expectedActiveTurnId
  | _ => (.ok (), σ)

/-- Takes the turn of a message from its receipt, or else from the dispatch queue. -/
def takeMessage (σ : DialogScheduler A) (session id : String) :
    Option (QueuedTurn A) × DialogScheduler A :=
  match ((σ.hostQueue.entriesOf session).lookup id).bind (·.held) with
  | some turn => (some turn, { σ with
      hostQueue := σ.hostQueue.modify session fun s =>
        { s with entries := s.entries.modify id ({ · with held := none }) } })
  | none => σ.removeQueuedTurnById session id

/-- The injection of a steered message, as `resolve_dialog_steering_action` makes it for a turn that
is active. -/
def steeringInjection (env : Surroundings A) (target : String) (turn : QueuedTurn A) :
    RoundInjection A where
  id := env.uuid
  target := .exactTurn target
  content := turn.userInput
  displayContent := turn.originalUserInput.getD turn.userInput
  attachments := turn.imageContexts.getD []
  metadata := (turn.userMessageMetadata.bind Json.Value.asObject).getD []
  createdAt := env.now

/-- Makes a message an injection for the turn that runs. -/
def steer (env : Surroundings A) (σ : DialogScheduler A) (session id target : String)
    (turn : QueuedTurn A) : DialogScheduler A :=
  pushInjection { σ with
    hostQueue := σ.hostQueue.modify session fun s => { s with
      entries := s.entries.modify id fun e => { e with
        view := { e.view with
          status := .steeringPending
          reason := none
          targetTurnId := some target
          steeringId := some env.uuid
          steeringDisplay := some
            { targetTurnId := target
              content := turn.originalUserInput.getD turn.userInput
              composerPresentation :=
                turn.userMessageMetadata.bind (·.get "composerPresentation") } }
        held := some turn } } } session (steeringInjection env target turn)

/-- What an operation does with the turn that it took. -/
def performTaken (env : Surroundings A) (σ : DialogScheduler A) (session id : String)
    (action : DialogQueueAction A) (turn : QueuedTurn A) : DialogScheduler A :=
  match action with
  | .cancel _ _ =>
    let σ := σ.finishRemovedQueuedTurn session turn
    { σ with
      hostQueue := σ.hostQueue.modify session fun s => { s with
        entries := s.entries.modify id fun e =>
          { e with view := { e.view with status := .cancelled } } } }
  | .promote _ _ (some target) => σ.steer env session id target turn
  | .promote _ _ none =>
    match σ.startTurn env session turn with
    | (.error e, σ) => σ.hold session turn e
    | (.ok _, σ) => σ
  | _ => σ

/-- What an operation does with a message that is queued or blocked. -/
def mutateEntry (env : Surroundings A) (σ : DialogScheduler A) (session id operation digest : String)
    (action : DialogQueueAction A) : Except PortError Reply × DialogScheduler A :=
  match action with
  | .reorder _ beforeTurnId _ expectedRevision =>
    σ.reorder env session id beforeTurnId operation digest expectedRevision
  | action =>
    match σ.prepare env session action with
    | (.error e, σ) => (.error e, σ)
    | (.ok (), σ) =>
      match σ.takeMessage session id with
      | (none, σ) => (.error (error "too_late: message has already started"), σ)
      | (some turn, σ) =>
        let σ := σ.performTaken env session id action turn
        let s := σ.theSession session
        (.ok ⟨some id, action.isCancel⟩, σ.setSession session { s with
          operations := s.operations.insert operation (digest, id), revision := s.revision + 1 })

/-- `mutate_host_queue`. -/
def mutateHostQueue (hash : Fingerprints A) (env : Surroundings A) (σ : DialogScheduler A)
    (session : String) (action : DialogQueueAction A) :
    Except PortError Reply × DialogScheduler A :=
  let digest := hash.action action
  match action.operation with
  | none => (.error (error "Invalid queue operation"), σ)
  | some (id, operation) =>
    if ¬wellFormedOperation operation then
      (.error (error "A stable operation ID is required"), σ)
    else
      let s := σ.theSession session
      match s.operations.lookup operation with
      | some (previous, previousId) =>
        if previous ≠ digest then
          (.error (error "idempotency_conflict: operation changed"), σ)
        else (.ok ⟨some previousId, false⟩, σ)
      | none =>
        if receiptLimit ≤ s.entries.size + s.operations.size then
          (.error (error "Queue receipt budget exhausted"), σ)
        else match s.entries.lookup id with
          | none => (.error (error "Queue entry not found"), σ)
          | some entry =>
            if entry.view.status ≠ .queued ∧ entry.view.status ≠ .blocked then
              (.error (error
                "too_late: message is no longer available for this queue operation"), σ)
            else σ.mutateEntry env session id operation digest action

/-- What is asked of a queue that is up to date. -/
def performAction (hash : Fingerprints A) (env : Surroundings A) (σ : DialogScheduler A)
    (session : String) : DialogQueueAction A → Except PortError Reply × DialogScheduler A
  | .list => (.ok ⟨none, false⟩, σ)
  | .get turnId => (.ok ⟨some turnId, false⟩, σ)
  | .submit message => σ.submitHostMessage hash env session message
  | action => σ.mutateHostQueue hash env session action

/-- What `execute_queue_request` does before its last dispatch and snapshot. -/
def admitRequest (hash : Fingerprints A) (env : Surroundings A) (σ : DialogScheduler A)
    (request : DialogQueueRequest A) : Except PortError Reply × DialogScheduler A :=
  let session := request.sessionId
  match validateSessionId session with
  | .error e => (.error (error e), σ)
  | .ok () =>
    if env.session.isNone ∧ ¬request.action.isRead then
      (.error ⟨.notFound, "Session is not loaded on the execution host"⟩, σ)
    else
      let (snapshot, σ) := σ.queueSnapshot env session none
      if ¬request.action.isList ∧ request.queueEpoch ≠ some snapshot.queueEpoch then
        (.error (error
          "queue_scope_expired: refresh the host queue; do not automatically resend"), σ)
      else σ.performAction hash env session request.action

/-- `execute_queue_request`. -/
def executeQueueRequest (hash : Fingerprints A) (env : Surroundings A) (σ : DialogScheduler A)
    (request : DialogQueueRequest A) : Except PortError DialogQueueSnapshot × DialogScheduler A :=
  match σ.admitRequest hash env request with
  | (.error e, σ) => (.error e, σ)
  | (.ok reply, σ) =>
    -- Removing the final held message releases otherwise healthy work.
    let σ := if reply.dispatches then (σ.tryStartNextQueued env request.sessionId).2 else σ
    let (snapshot, σ) := σ.queueSnapshot env request.sessionId reply.receiptId
    (.ok snapshot, σ)

end DialogScheduler

/-! ## Runs -/

/-- A step of the scheduler. -/
inductive Operation (A : Type) where
  /-- A request of a client. -/
  | request (env : Surroundings A) (request : DialogQueueRequest A)
  /-- Another producer queues a turn. -/
  | enqueue (session : String) (turn : QueuedTurn A)
  | dispatch (env : Surroundings A) (session : String)
  | holdManagedQueue (session reason : String) (previous : Option String)
  | releaseSteeringTurns (session target : String)
  /-- A running turn takes the injections with the given ids. -/
  | takePending (session turn : String) (ids : List String)
  | acknowledgeConsumed (session turn injection : String)
  | settleOutcome (session turn : String) (status : TurnOutcomeStatus)
  | clearQueueAfter (session turn : String)
  | cancelQueuedTurn (session turnId : String)
  | markAfterTerminalTurn (session turn previous : String)
  | retire (session epoch : String) (activeTurn : Option String)

/-- What a step answers. -/
abbrev Answer := Option (Except PortError DialogQueueSnapshot)

/-- One step. -/
def DialogScheduler.perform (hash : Fingerprints A) (σ : DialogScheduler A) :
    Operation A → Answer × DialogScheduler A
  | .request env request =>
    let (result, σ) := σ.executeQueueRequest hash env request
    (some result, σ)
  | .enqueue session turn => (none, (σ.enqueue session turn).2)
  | .dispatch env session => (none, (σ.tryStartNextQueued env session).2)
  | .holdManagedQueue session reason previous => (none, σ.holdManagedQueue session reason previous)
  | .releaseSteeringTurns session target => (none, (σ.releaseSteeringTurns session target).2)
  | .takePending session turn ids => (none, σ.takePending session turn fun x => ids.contains x.id)
  | .acknowledgeConsumed session turn injection =>
    (none, σ.acknowledgeConsumed session turn injection)
  | .settleOutcome session turn status => (none, σ.settleOutcome session turn status)
  | .clearQueueAfter session turn => (none, σ.clearQueueAfter session turn)
  | .cancelQueuedTurn session turnId => (none, σ.cancelQueuedTurn session turnId)
  | .markAfterTerminalTurn session turn previous =>
    (none, { σ with hostQueue := σ.hostQueue.markAfterTerminalTurn session turn previous })
  | .retire session epoch activeTurn => (none, σ.beginSessionMaintenance session epoch activeTurn)

/-- What the steps rely on: a turn that is queued has a new id, the id of an injection is new, and
a turn has acknowledged the injections that it took when its outcome arrives. -/
def DialogScheduler.Admits (σ : DialogScheduler A) : Operation A → Prop
  | .request env request =>
    match request.action with
    | .submit message => σ.hostQueue.contains request.sessionId message.turnId ∨
        ∀ queued ∈ σ.queues.get request.sessionId, queued.turn.turnId ≠ some message.turnId
    | .promote _ _ _ =>
      (∀ x ∈ (σ.hostQueue.entriesOf request.sessionId).iter,
          x.2.view.steeringId ≠ some env.uuid) ∧
        (∀ x ∈ σ.roundInjectionBuffer.list request.sessionId, x.id ≠ env.uuid) ∧
        ∀ x ∈ σ.taken.list request.sessionId, x.2.id ≠ env.uuid
    | _ => True
  | .enqueue session turn => ∀ id ∈ turn.turnId, σ.hostQueue.contains session id = false
  | .settleOutcome session turn _ => ∀ x ∈ σ.taken.list session, x.1 ≠ turn
  | _ => True

/-- A step as it happened. -/
structure Call (A : Type) where
  /-- The scheduler before. -/
  before : DialogScheduler A
  /-- The step. -/
  operation : Operation A
  /-- The answer. -/
  answer : Answer

/-- The step relation. -/
def Performs (hash : Fingerprints A) (σ : DialogScheduler A) (call : Call A)
    (σ' : DialogScheduler A) : Prop :=
  call.before = σ ∧ σ.Admits call.operation ∧ σ.perform hash call.operation = (call.answer, σ')

/-- A run of a scheduler without messages. -/
abbrev Calls (hash : Fingerprints A) (maxDepth : ℕ) (tr : List (Call A)) (σ : DialogScheduler A) :
    Prop :=
  Run (Performs hash) (.new maxDepth) tr σ

/-- The calls of a script. -/
def performAll (hash : Fingerprints A) (σ : DialogScheduler A) :
    List (Operation A) → List (Call A) × DialogScheduler A
  | [] => ([], σ)
  | operation :: script =>
    let (answer, σ') := σ.perform hash operation
    let (calls, σ'') := performAll hash σ' script
    (⟨σ, operation, answer⟩ :: calls, σ'')

end HostQueue

end OpenBitFun
