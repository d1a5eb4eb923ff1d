import OpenBitFun.AgenticEvent
import OpenBitFun.AssocMap
import OpenBitFun.BinaryHeap
import OpenBitFun.Run

/-!
# The event queue

`EventQueue` buffers the events of the runtime for the one consumer that takes them in batches, by
priority and then by time, and broadcasts them to everybody else. The buffer is bounded: ordinary
events are only broadcast when it is full, a fence is refused, and an authoritative control makes
room or uses a reserve. A fence comes with an acknowledgement that is completed when the consumer
takes the event.

Every operation below runs alone: the locks that it takes one after the other are not interleaved
with another operation's. Wake-ups are left out.
-/

namespace OpenBitFun

variable {ρ : Type}

/-! ## Envelopes -/

/-- `AgenticEventPriority`. -/
inductive AgenticEventPriority where
  | critical
  | high
  | normal
  | low
  deriving DecidableEq, Repr

/-- The discriminant, by which priorities are ordered. -/
def AgenticEventPriority.rank : AgenticEventPriority → ℕ
  | .critical => 0
  | .high => 1
  | .normal => 2
  | .low => 3

/-- `ToolEventData::default_priority`. -/
def ToolEventData.defaultPriority : ToolEventData ρ → AgenticEventPriority
  | .cancelled .. => .critical
  | .started .. | .completed .. | .failed .. | .confirmationNeeded .. => .high
  | .earlyDetected .. | .paramsPartial .. | .genUIStream .. | .queued .. | .waiting ..
  | .progress .. | .streaming .. | .streamChunk .. | .confirmed .. | .rejected .. => .normal

/-- `AgenticEvent::default_priority`. -/
def AgenticEvent.defaultPriority : AgenticEvent ρ → AgenticEventPriority
  | .systemError .. | .dialogTurnFailed .. | .dialogTurnCancelled .. => .critical
  | .dialogTurnInterrupted .. | .dialogTurnRecovered .. => .critical
  | .sessionStateChanged .. | .sessionHistoryChanged .. | .sessionTitleGenerated ..
  | .sessionModelFallbackApplied .. | .sessionReasoningPresetAutoCleared ..
  | .subagentSessionLinked .. | .deepReviewQueueStateChanged ..
  | .contextCompressionFailed .. => .high
  | .imageAnalysisStarted .. | .imageAnalysisCompleted .. | .textChunk .. | .thinkingChunk ..
  | .modelRoundStarted .. | .modelRoundAttemptSuperseded .. | .modelRoundCompleted ..
  | .tokenUsageUpdated .. | .dialogTurnCompleted .. | .contextCompressionStarted ..
  | .threadGoalUpdated .. | .userSteeringInjected .. | .promptSuggestionGenerated ..
  | .contextCompressionCompleted .. => .normal
  | .toolEvent _ _ _ _ _ data => data.defaultPriority
  | _ => .low

/-- `AgenticEventEnvelope`. -/
structure AgenticEventEnvelope (ρ : Type) where
  /-- A random UUID. -/
  id : String
  /-- The event. -/
  event : AgenticEvent ρ
  /-- The priority. -/
  priority : AgenticEventPriority
  /-- When the envelope was made. -/
  timestamp : ℕ
  deriving DecidableEq

namespace AgenticEventEnvelope

/-- `Ord for AgenticEventEnvelope`: by priority, then by time. -/
instance : LE (AgenticEventEnvelope ρ) :=
  ⟨fun x y => x.priority.rank < y.priority.rank ∨
    x.priority.rank = y.priority.rank ∧ x.timestamp ≤ y.timestamp⟩

theorem le_iff {x y : AgenticEventEnvelope ρ} :
    x ≤ y ↔ x.priority.rank < y.priority.rank ∨
      x.priority.rank = y.priority.rank ∧ x.timestamp ≤ y.timestamp := Iff.rfl

instance : DecidableLE (AgenticEventEnvelope ρ) := fun x y =>
  inferInstanceAs (Decidable (x.priority.rank < y.priority.rank ∨
    x.priority.rank = y.priority.rank ∧ x.timestamp ≤ y.timestamp))

instance : Std.IsLinearPreorder (AgenticEventEnvelope ρ) where
  le_refl x := by
    rw [le_iff]
    omega
  le_trans x y z := by
    rw [le_iff, le_iff, le_iff]
    omega
  le_total x y := by
    rw [le_iff, le_iff]
    omega

end AgenticEventEnvelope

/-- What `AgenticEventEnvelope::new` draws: a random id, and the time. -/
structure Stamp where
  /-- `Uuid::new_v4`. -/
  id : String
  /-- `SystemTime::now`. -/
  now : ℕ

/-- `AgenticEventEnvelope::new`. -/
def AgenticEventEnvelope.new (stamp : Stamp) (event : AgenticEvent ρ)
    (priority : AgenticEventPriority) : AgenticEventEnvelope ρ :=
  ⟨stamp.id, event, priority, stamp.now⟩

/-! ## Authoritative controls -/

/-- The identity of a control of a Turn's recovery: session, Turn and generation. -/
def interruptedControlIdentity : AgenticEvent ρ → Option (String × String × ℕ)
  | .dialogTurnInterrupted sessionId turnId executionGeneration _
  | .dialogTurnRecovered sessionId turnId executionGeneration =>
    some (sessionId, turnId, executionGeneration)
  | _ => none

/-- `authoritative_control_supersedes`. -/
def authoritativeControlSupersedes (authoritative pending : AgenticEvent ρ) : Bool :=
  match authoritative with
  | .dialogTurnInterrupted sessionId turnId executionGeneration _ =>
    match interruptedControlIdentity pending with
    | some (pendingSessionId, pendingTurnId, pendingGeneration) =>
      pendingSessionId == sessionId &&
        (pendingTurnId != turnId || pendingGeneration ≤ executionGeneration)
    | none => false
  | _ => false

/-- `authoritative_control_is_stale`. -/
def authoritativeControlIsStale (authoritative pending : AgenticEvent ρ) : Bool :=
  match interruptedControlIdentity authoritative with
  | some (sessionId, turnId, executionGeneration) =>
    match interruptedControlIdentity pending with
    | some (pendingSessionId, pendingTurnId, pendingGeneration) =>
      pendingSessionId == sessionId && pendingTurnId == turnId &&
        executionGeneration < pendingGeneration
    | none => false
  | none => false

/-- `is_reclaimable_stream_data`. -/
def isReclaimableStreamData (authoritative pending : AgenticEvent ρ) : Bool :=
  match authoritative with
  | .dialogTurnInterrupted sessionId turnId _ _ =>
    match pending with
    | .textChunk pendingSessionId pendingTurnId _ _ _ _
    | .thinkingChunk pendingSessionId pendingTurnId _ _ _ _ _ _ =>
      pendingSessionId == sessionId && pendingTurnId == turnId
    | _ => false
  | _ => false

/-- `AgenticEvent::DialogTurnInterrupted { .. }`. -/
def isDialogTurnInterrupted : AgenticEvent ρ → Bool
  | .dialogTurnInterrupted .. => true
  | _ => false

/-! ## The queue -/

/-- `EventQueueConfig`. -/
structure EventQueueConfig where
  /-- How many events ordinary producers may buffer. -/
  maxQueueSize : ℕ := 10000

/-- `QueueStats`. -/
structure QueueStats where
  /-- How many events are buffered. -/
  pendingEvents : ℕ := 0
  /-- How many events were accepted. -/
  totalEnqueued : ℕ := 0
  /-- How many events the consumer took. -/
  totalProcessed : ℕ := 0

/-- What the holder of a `LegacyDequeueAck` sees: nothing yet, the acknowledgement, or the error
that the sender is gone. -/
inductive AckState where
  | waiting
  | completed
  | closed
  deriving DecidableEq, Repr

/-- `EventBusError`. -/
inductive EventBusError where
  | subscriber (error : String)
  deriving DecidableEq, Repr

/-- `EventQueue`. The channel of an acknowledgement is named by the id of the event it is for. -/
structure EventQueue (ρ : Type) where
  /-- The settings. -/
  config : EventQueueConfig
  /-- The buffered events. -/
  queue : BinaryHeap (Reverse (AgenticEventEnvelope ρ))
  /-- The ids whose acknowledgement has not been sent: the map to the senders. -/
  legacyDequeueAcks : AssocMap String Unit
  /-- The channels of the acknowledgements handed out. -/
  acks : AssocMap String AckState
  /-- What was broadcast, in order. -/
  broadcast : List (AgenticEventEnvelope ρ)
  /-- What was broadcast to the subscribers of one session. -/
  sessionBroadcasts : AssocMap String (List (AgenticEventEnvelope ρ))
  /-- Statistics. -/
  stats : QueueStats

namespace EventQueue

/-- The events in a heap, in the order of its array. -/
def entries (queue : BinaryHeap (Reverse (AgenticEventEnvelope ρ))) :
    List (AgenticEventEnvelope ρ) :=
  queue.iter.map (·.val)

/-- `EventQueue::new`. -/
def new (config : EventQueueConfig) : EventQueue ρ where
  config := config
  queue := .empty
  legacyDequeueAcks := ∅
  acks := ∅
  broadcast := []
  sessionBroadcasts := ∅
  stats := {}

/-- The buffered events. -/
def pending (q : EventQueue ρ) : List (AgenticEventEnvelope ρ) := entries q.queue

/-- `acknowledgements.remove(&id)`: the sender of an acknowledgement settles its channel. -/
def removeAck (outcome : AckState) (q : EventQueue ρ) (id : String) : EventQueue ρ :=
  match q.legacyDequeueAcks.lookup id with
  | some _ => { q with
      legacyDequeueAcks := q.legacyDequeueAcks.erase id
      acks := q.acks.insert id outcome }
  | none => q

/-- The sender is dropped: the channel is closed. -/
def dropAck (q : EventQueue ρ) (id : String) : EventQueue ρ := q.removeAck .closed id

/-- `let _ = sender.send(())`. -/
def sendAck (q : EventQueue ρ) (id : String) : EventQueue ρ := q.removeAck .completed id

/-- `oneshot::channel`, and the sender kept under the event's id. -/
def insertAck (q : EventQueue ρ) (id : String) : EventQueue ρ :=
  { q with
    legacyDequeueAcks := q.legacyDequeueAcks.insert id ()
    acks := q.acks.insert id .waiting }

/-! ## Making room for a control -/

/-- A heap rebuilt without the events that satisfy `gone`, and their ids: everything is popped. -/
def splitOff (gone : AgenticEventEnvelope ρ → Bool)
    (queue : BinaryHeap (Reverse (AgenticEventEnvelope ρ))) :
    BinaryHeap (Reverse (AgenticEventEnvelope ρ)) × List String :=
  let popped := (queue.popN queue.len).1
  ((popped.filter (!gone ·.val)).foldl (·.push ·) .empty,
    (popped.filter (gone ·.val)).map (·.val.id))

/-- `queue.retain(|pending| pending.id != id)`. -/
def removeId (queue : BinaryHeap (Reverse (AgenticEventEnvelope ρ))) (id : String) :
    BinaryHeap (Reverse (AgenticEventEnvelope ρ)) :=
  queue.retain (·.val.id != id)

/-- `Iterator::max`: the last of the greatest. -/
def maxEnvelope : List (AgenticEventEnvelope ρ) → Option (AgenticEventEnvelope ρ)
  | [] => none
  | e :: es => some (es.foldl (fun m e => if m ≤ e then e else m) e)

/-- `min_by_key(|pending| pending.timestamp)`: the first of the oldest. -/
def oldestEnvelope : List (AgenticEventEnvelope ρ) → Option (AgenticEventEnvelope ρ)
  | [] => none
  | e :: es => some (es.foldl (fun m e => if e.timestamp < m.timestamp then e else m) e)

/-- In a full queue one chunk of the Turn's own stream goes, the last that would be delivered. -/
def reclaim (maxQueueSize : ℕ) (authoritative : AgenticEvent ρ)
    (queue : BinaryHeap (Reverse (AgenticEventEnvelope ρ))) :
    BinaryHeap (Reverse (AgenticEventEnvelope ρ)) × List String :=
  if maxQueueSize ≤ queue.len then
    match maxEnvelope ((entries queue).filter (isReclaimableStreamData authoritative ·.event)) with
    | some chunk => (removeId queue chunk.id, [chunk.id])
    | none => (queue, [])
  else (queue, [])

/-- The loop that keeps the reserve bounded: while the queue is full and the controls use up the
reserve, the oldest control goes. -/
def evictControls (maxQueueSize : ℕ) : ℕ → BinaryHeap (Reverse (AgenticEventEnvelope ρ)) →
    BinaryHeap (Reverse (AgenticEventEnvelope ρ)) × List String
  | 0, queue => (queue, [])
  | pendingControls + 1, queue =>
    if maxQueueSize ≤ queue.len ∧ max maxQueueSize 1 ≤ pendingControls + 1 then
      match oldestEnvelope ((entries queue).filter (isDialogTurnInterrupted ·.event)) with
      | some control =>
        let (queue, removed) := evictControls maxQueueSize pendingControls (removeId queue control.id)
        (queue, control.id :: removed)
      | none => (queue, [])
    else (queue, [])

/-- What an authoritative control that is not stale does before it is stored. -/
def makeRoom (q : EventQueue ρ) (authoritative : AgenticEvent ρ) : EventQueue ρ :=
  let (queue, superseded) :=
    splitOff (authoritativeControlSupersedes authoritative ·.event) q.queue
  let (queue, reclaimed) := reclaim q.config.maxQueueSize authoritative queue
  let pendingControls := (entries queue).countP (isDialogTurnInterrupted ·.event)
  let (queue, evicted) := evictControls q.config.maxQueueSize pendingControls queue
  (superseded ++ reclaimed ++ evicted).foldl dropAck { q with queue }

/-! ## Operations -/

/-- `LegacyQueuePolicy`. -/
inductive LegacyQueuePolicy where
  | bestEffort
  | requireImmediateAck
  | authoritativeControl
  deriving DecidableEq

/-- The broadcast of an accepted event, and the statistics. -/
def publish (q : EventQueue ρ) (envelope : AgenticEventEnvelope ρ) : EventQueue ρ :=
  { q with
    sessionBroadcasts :=
      match envelope.event.sessionId.bind fun sessionId =>
        (q.sessionBroadcasts.lookup sessionId).map (sessionId, ·) with
      | some (sessionId, sent) => q.sessionBroadcasts.insert sessionId (sent ++ [envelope])
      | none => q.sessionBroadcasts
    broadcast := q.broadcast ++ [envelope]
    stats := { q.stats with
      totalEnqueued := q.stats.totalEnqueued + 1
      pendingEvents := q.queue.len } }

/-- An accepted event is stored: a fence with its acknowledgement. -/
def store (q : EventQueue ρ) (envelope : AgenticEventEnvelope ρ) (policy : LegacyQueuePolicy) :
    EventQueue ρ :=
  let q := if policy = .requireImmediateAck then q.insertAck envelope.id else q
  { q with queue := q.queue.push ⟨envelope⟩ }

/-- `enqueue_internal`: the id of the event, or why it was refused. -/
def enqueueInternal (q : EventQueue ρ) (stamp : Stamp) (event : AgenticEvent ρ)
    (priority : Option AgenticEventPriority) (policy : LegacyQueuePolicy) :
    Except EventBusError String × EventQueue ρ :=
  let envelope := AgenticEventEnvelope.new stamp event (priority.getD event.defaultPriority)
  match policy with
  | .authoritativeControl =>
    match q.pending.find? (authoritativeControlIsStale event ·.event) with
    | some pending => (.ok pending.id, q)
    | none => (.ok envelope.id, ((q.makeRoom event).store envelope policy).publish envelope)
  | .requireImmediateAck =>
    if q.config.maxQueueSize ≤ q.queue.len then
      (.error (.subscriber "legacy event queue is full"), q)
    else (.ok envelope.id, (q.store envelope policy).publish envelope)
  | .bestEffort =>
    if q.config.maxQueueSize ≤ q.queue.len then (.ok envelope.id, q.publish envelope)
    else (.ok envelope.id, (q.store envelope policy).publish envelope)

/-- `enqueue`. -/
def enqueue (q : EventQueue ρ) (stamp : Stamp) (event : AgenticEvent ρ)
    (priority : Option AgenticEventPriority) : Except EventBusError String × EventQueue ρ :=
  q.enqueueInternal stamp event priority .bestEffort

/-- `enqueue_with_legacy_dequeue_ack`. The acknowledgement returned with the id is the channel of
that id. -/
def enqueueWithLegacyDequeueAck (q : EventQueue ρ) (stamp : Stamp) (event : AgenticEvent ρ)
    (priority : Option AgenticEventPriority) : Except EventBusError String × EventQueue ρ :=
  q.enqueueInternal stamp event priority .requireImmediateAck

/-- `enqueue_with_guaranteed_legacy_storage`. -/
def enqueueWithGuaranteedLegacyStorage (q : EventQueue ρ) (stamp : Stamp) (event : AgenticEvent ρ)
    (priority : Option AgenticEventPriority) : Except EventBusError String × EventQueue ρ :=
  q.enqueueInternal stamp event priority .authoritativeControl

/-- `dequeue_batch`. -/
def dequeueBatch (q : EventQueue ρ) (maxSize : ℕ) : List (AgenticEventEnvelope ρ) × EventQueue ρ :=
  let (popped, queue) := q.queue.popN (min maxSize q.queue.len)
  let batch := popped.map (·.val)
  let q := (batch.map (·.id)).foldl sendAck { q with queue }
  (batch, if batch.isEmpty then q else { q with stats := { q.stats with
    totalProcessed := q.stats.totalProcessed + batch.length
    pendingEvents := queue.len } })

/-- `clear_session`. -/
def clearSession (q : EventQueue ρ) (sessionId : String) : EventQueue ρ :=
  let (queue, removed) := splitOff (·.event.sessionId = some sessionId) q.queue
  let q := removed.foldl dropAck { q with queue }
  { q with stats := { q.stats with pendingEvents := queue.len } }

/-- `subscribe_session`: a session without subscribers gets a channel. -/
def subscribeSession (q : EventQueue ρ) (sessionId : String) : EventQueue ρ :=
  match q.sessionBroadcasts.lookup sessionId with
  | some _ => q
  | none => { q with sessionBroadcasts := q.sessionBroadcasts.insert sessionId [] }

/-- The last receiver of a session's channel is dropped. -/
def dropSessionReceiver (q : EventQueue ρ) (sessionId : String) : EventQueue ρ :=
  { q with sessionBroadcasts := q.sessionBroadcasts.erase sessionId }

/-! ## Runs -/

/-- A call of the queue. The policy of `enqueue` says which of the three ways in is taken. -/
inductive Request (ρ : Type) where
  | enqueue (policy : LegacyQueuePolicy) (event : AgenticEvent ρ)
      (priority : Option AgenticEventPriority)
  | dequeueBatch (maxSize : ℕ)
  | clearSession (sessionId : String)
  | subscribeSession (sessionId : String)
  | dropSessionReceiver (sessionId : String)

/-- What a call answers. -/
inductive Answer (ρ : Type) where
  | enqueued (result : Except EventBusError String)
  | batch (events : List (AgenticEventEnvelope ρ))
  | done

/-- One call. -/
def perform (q : EventQueue ρ) (stamp : Stamp) : Request ρ → Answer ρ × EventQueue ρ
  | .enqueue .bestEffort event priority =>
    let (result, q) := q.enqueue stamp event priority
    (.enqueued result, q)
  | .enqueue .requireImmediateAck event priority =>
    let (result, q) := q.enqueueWithLegacyDequeueAck stamp event priority
    (.enqueued result, q)
  | .enqueue .authoritativeControl event priority =>
    let (result, q) := q.enqueueWithGuaranteedLegacyStorage stamp event priority
    (.enqueued result, q)
  | .dequeueBatch maxSize =>
    let (batch, q) := q.dequeueBatch maxSize
    (.batch batch, q)
  | .clearSession sessionId => (.done, q.clearSession sessionId)
  | .subscribeSession sessionId => (.done, q.subscribeSession sessionId)
  | .dropSessionReceiver sessionId => (.done, q.dropSessionReceiver sessionId)

/-- A call as it happened: what was asked and answered, and the queue before and after. -/
structure Call (ρ : Type) where
  /-- The queue before. -/
  before : EventQueue ρ
  /-- What an envelope would draw. -/
  stamp : Stamp
  /-- What was asked. -/
  request : Request ρ
  /-- The answer. -/
  answer : Answer ρ
  /-- The queue after. -/
  after : EventQueue ρ

/-- The step relation of the queue. -/
def Performs (q : EventQueue ρ) (call : Call ρ) (q' : EventQueue ρ) : Prop :=
  call.before = q ∧ call.after = q' ∧ q.perform call.stamp call.request = (call.answer, q')

/-- A run of a new queue. -/
abbrev Calls (config : EventQueueConfig) (tr : List (Call ρ)) (q : EventQueue ρ) : Prop :=
  Run Performs (new config) tr q

/-- The calls of a script, one after the other, and the queue after them. -/
def performAll (q : EventQueue ρ) : List (Stamp × Request ρ) → List (Call ρ) × EventQueue ρ
  | [] => ([], q)
  | (stamp, request) :: script =>
    let (answer, q') := q.perform stamp request
    let (calls, last) := q'.performAll script
    (⟨q, stamp, request, answer, q'⟩ :: calls, last)

theorem calls_performAll (q : EventQueue ρ) (script : List (Stamp × Request ρ)) :
    Run Performs q (q.performAll script).1 (q.performAll script).2 := by
  induction script generalizing q with
  | nil => exact .refl
  | cons step script ih => exact (ih _).cons ⟨rfl, rfl, rfl⟩

/-- Random ids do not repeat. -/
def FreshIds (tr : List (Call ρ)) : Prop := (tr.map (·.stamp.id)).Nodup

instance (tr : List (Call ρ)) : Decidable (FreshIds tr) :=
  inferInstanceAs (Decidable (tr.map (·.stamp.id)).Nodup)

end EventQueue

end OpenBitFun
