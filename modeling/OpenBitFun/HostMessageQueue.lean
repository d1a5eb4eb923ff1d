import OpenBitFun.DialogTurnQueue
import OpenBitFun.Json
import OpenBitFun.Text

/-!
# The host message queue

The host keeps a receipt (`Entry`) of every message that a user submits to a session. The turn of an
accepted message waits in the dispatch queue, is held by its receipt, or was steered into the turn
that runs: then the receipt holds it as well, until the injection is consumed. `DialogScheduler` is
the state of all sessions. Every function here is one step under the locks of a session; what it
reads from elsewhere (the session manager, the execution of turns) is in its `Surroundings`.
-/

namespace OpenBitFun

namespace HostQueue

/-! ## Data -/

/-- `PortErrorKind`. -/
inductive PortErrorKind where
  | notAvailable
  | notFound
  | invalidRequest
  | permissionDenied
  | cancelled
  | timeout
  | sessionInUse
  | cleanupRequired
  | outcomeUnknown
  | backend
  deriving DecidableEq, Repr

/-- `PortError`. -/
structure PortError where
  /-- The kind. -/
  kind : PortErrorKind
  /-- The text. -/
  message : String
  deriving DecidableEq, Repr

/-- `error`. -/
def error (message : String) : PortError := ⟨.invalidRequest, message⟩

/-- `DialogQueueStatus`. -/
inductive DialogQueueStatus where
  | queued
  | blocked
  | steeringPending
  | steered
  | started
  | interrupted
  | completed
  | failed
  | cancelled
  deriving DecidableEq, Repr

/-- `DialogQueueStatus::is_pending`. -/
def DialogQueueStatus.isPending : DialogQueueStatus → Bool
  | .queued | .blocked | .steeringPending => true
  | _ => false

/-- `TurnOutcomeStatus`. -/
inductive TurnOutcomeStatus where
  | completed
  | cancelled
  | interrupted
  | failed
  deriving DecidableEq, Repr

/-- `DialogTriggerSource`. -/
inductive DialogTriggerSource where
  | desktopUi
  | desktopApi
  | agentSession
  | scheduledJob
  | remoteRelay
  | bot
  | cli
  | sdkHost
  deriving DecidableEq, Repr

/-- `DialogSubmissionPolicy`. -/
structure DialogSubmissionPolicy where
  /-- Who submits. -/
  triggerSource : DialogTriggerSource
  /-- With which priority. -/
  queuePriority : DialogQueuePriority
  deriving DecidableEq, Repr

/-- `DialogSubmissionPolicy::for_source`. -/
def DialogSubmissionPolicy.forSource (triggerSource : DialogTriggerSource) :
    DialogSubmissionPolicy :=
  ⟨triggerSource, match triggerSource with
    | .agentSession | .scheduledJob => .low
    | _ => .normal⟩

/-- The fields of a JSON object. -/
abbrev Fields := List (String × Json.Value)

/-- `DialogQueueMessage`, with attachments of a type `A`. -/
structure DialogQueueMessage (A : Type) where
  /-- The id of the turn. -/
  turnId : String
  /-- What the model is given. -/
  content : String
  /-- What is shown instead. -/
  displayContent : Option String
  /-- The agent. -/
  agentType : String
  /-- The attachments. -/
  attachments : List A
  /-- The metadata. -/
  metadata : Fields

/-- `DialogQueueAction`. -/
inductive DialogQueueAction (A : Type) where
  | list
  | get (turnId : String)
  | submit (message : DialogQueueMessage A)
  | cancel (turnId operationId : String)
  /-- Moves a queued message before another one; `none` means last. -/
  | reorder (turnId : String) (beforeTurnId : Option String) (operationId : String)
      (expectedRevision : ℕ)
  | promote (turnId operationId : String) (expectedActiveTurnId : Option String)

/-- `DialogQueueAction::List`. -/
def DialogQueueAction.isList {A : Type} : DialogQueueAction A → Bool
  | .list => true
  | _ => false

/-- Whether an action only reads. -/
def DialogQueueAction.isRead {A : Type} : DialogQueueAction A → Bool
  | .list | .get _ => true
  | _ => false

/-- `DialogQueueAction::Cancel`. -/
def DialogQueueAction.isCancel {A : Type} : DialogQueueAction A → Bool
  | .cancel _ _ => true
  | _ => false

/-- The message that an operation is about, and the id of the operation. -/
def DialogQueueAction.operation {A : Type} : DialogQueueAction A → Option (String × String)
  | .cancel turnId operationId => some (turnId, operationId)
  | .reorder turnId _ operationId _ => some (turnId, operationId)
  | .promote turnId operationId _ => some (turnId, operationId)
  | _ => none

/-- `DialogQueueRequest`. -/
structure DialogQueueRequest (A : Type) where
  /-- The session. -/
  sessionId : String
  /-- The epoch that the client knows. -/
  queueEpoch : Option String
  /-- What is asked. -/
  action : DialogQueueAction A

/-- `DialogQueueSteeringDisplay`. -/
structure DialogQueueSteeringDisplay where
  /-- The turn that is steered. -/
  targetTurnId : String
  /-- What is shown. -/
  content : String
  /-- How the composer showed it. -/
  composerPresentation : Option Json.Value

/-- `DialogQueueItem`: the part of a receipt that clients see. -/
structure DialogQueueItem where
  /-- The id of the turn. -/
  turnId : String
  /-- The first characters of what is shown. -/
  displayContent : String
  /-- Whether there are more. -/
  previewTruncated : Bool
  /-- How many attachments. -/
  attachmentCount : ℕ
  /-- The agent. -/
  agentType : String
  /-- When the message was accepted. -/
  createdAtMs : ℕ
  /-- The status. -/
  status : DialogQueueStatus
  /-- Why it is blocked. -/
  reason : Option String
  /-- The turn that it steers. -/
  targetTurnId : Option String
  /-- The id of the injection. -/
  steeringId : Option String
  /-- How the steering is shown. -/
  steeringDisplay : Option DialogQueueSteeringDisplay

/-- `DialogQueueSnapshot`. -/
structure DialogQueueSnapshot where
  /-- The session. -/
  sessionId : String
  /-- The epoch. -/
  queueEpoch : String
  /-- The revision. -/
  revision : ℕ
  /-- The turn that runs. -/
  activeTurnId : Option String
  /-- The messages that are pending, in their order. -/
  items : List DialogQueueItem
  /-- Whether messages can be moved. -/
  supportsReorder : Option Bool
  /-- How many messages fit. -/
  capacity : ℕ
  /-- How many there are. -/
  used : ℕ
  /-- The message that was asked about. -/
  receipt : Option DialogQueueItem

/-- `QueuedTurn`. -/
structure QueuedTurn (A : Type) where
  /-- What the model is given. -/
  userInput : String
  /-- What is shown instead. -/
  originalUserInput : Option String
  /-- The id. -/
  turnId : Option String
  /-- The agent. -/
  agentType : String
  /-- Who submitted it, with which priority. -/
  policy : DialogSubmissionPolicy
  /-- The metadata. -/
  userMessageMetadata : Option Json.Value
  /-- The images. -/
  imageContexts : Option (List A)

/-- `QueuedTurn::is_user_submission`. -/
def QueuedTurn.isUserSubmission {A : Type} (turn : QueuedTurn A) : Bool :=
  match turn.policy.triggerSource with
  | .agentSession | .scheduledJob => false
  | _ => true

/-- Whether the metadata mark the turn as a continuation of the session's goal. -/
def QueuedTurn.isGoalContinuation {A : Type} (turn : QueuedTurn A) : Bool :=
  match turn.userMessageMetadata with
  | some metadata => (metadata.get "threadGoalContinuation").bind Json.Value.asBool = some true
  | none => false

/-- `RoundInjectionTarget`. -/
inductive RoundInjectionTarget where
  | exactTurn (turnId : String)
  | currentRunningTurn
  deriving DecidableEq, Repr

/-- `RoundInjection`. -/
structure RoundInjection (A : Type) where
  /-- The id. -/
  id : String
  /-- The turn it is for. -/
  target : RoundInjectionTarget
  /-- What the model is given. -/
  content : String
  /-- What is shown. -/
  displayContent : String
  /-- The attachments. -/
  attachments : List A
  /-- The metadata. -/
  metadata : Fields
  /-- When it was made. -/
  createdAt : ℕ

/-- `Entry`: the receipt of a message. -/
structure Entry (A : Type) where
  /-- The fingerprint of the message. -/
  fingerprint : String
  /-- What clients see. -/
  view : DialogQueueItem
  /-- The turn, where the receipt holds it. -/
  held : Option (QueuedTurn A)
  /-- The turn that had settled when the message was accepted. -/
  afterTerminalTurn : Option String

/-- `QueueSession`. -/
structure QueueSession (A : Type) where
  /-- The epoch. -/
  epoch : String
  /-- The revision. -/
  revision : ℕ
  /-- The turn that ran at the last look. -/
  activeTurnId : Option String
  /-- The receipts by turn. -/
  entries : AssocMap String (Entry A)
  /-- The turns in the order in which they are shown. -/
  order : List String
  /-- The fingerprint and the turn of every operation that was done. -/
  operations : AssocMap String (String × String)

/-- `Default for QueueSession`, with a new epoch. -/
def QueueSession.new {A : Type} (epoch : String) : QueueSession A :=
  ⟨epoch, 0, none, ∅, [], ∅⟩

/-- `HostQueueState`. -/
abbrev HostQueueState (A : Type) := AssocMap String (QueueSession A)

/-- The state of the scheduler that the host's queue is part of. -/
structure DialogScheduler (A : Type) where
  /-- The receipts, by session. -/
  hostQueue : HostQueueState A
  /-- The dispatch queues. -/
  queues : DialogTurnQueue (QueuedTurn A)
  /-- `SessionRoundInjectionBuffer`: the injections that no turn took yet, by session. -/
  roundInjectionBuffer : AssocMap String (List (RoundInjection A))
  /-- The injections that a running turn took and has not acknowledged, with that turn. -/
  taken : AssocMap String (List (String × RoundInjection A))
  /-- The accepted messages that an execution was given, by session: as a turn of its own, or as an
  injection. -/
  executed : AssocMap String (List String)

/-- A scheduler without messages. -/
def DialogScheduler.new {A : Type} (maxDepth : ℕ) : DialogScheduler A :=
  ⟨∅, .withMaxDepth maxDepth, ∅, ∅, ∅⟩

/-! ## Receipts -/

variable {A : Type}

/-- Whether an injection steers a message into a turn. -/
def Entry.steers (e : Entry A) (target : String) : Bool :=
  e.view.status = .steeringPending ∧ e.view.targetTurnId = some target

/-- Whether the receipt holds a pending turn. -/
def Entry.holdsPending (e : Entry A) : Bool := e.held.isSome && e.view.status.isPending

namespace HostQueueState

/-- `get_mut` of an entry, with a new revision. -/
def modifyEntry (state : HostQueueState A) (session turn : String) (f : Entry A → Entry A) :
    HostQueueState A :=
  state.modify session fun s => match s.entries.lookup turn with
    | some _ => { s with entries := s.entries.modify turn f, revision := s.revision + 1 }
    | none => s

/-- The entries of a session, in the order of their ids. -/
def entriesOf (state : HostQueueState A) (session : String) : AssocMap String (Entry A) :=
  match state.lookup session with
  | some s => s.entries
  | none => ∅

/-- `pending_steering_ids`. -/
def pendingSteeringIds (state : HostQueueState A) (session target : String) : List String :=
  ((state.entriesOf session).iter.filter (·.2.steers target)).filterMap (·.2.view.steeringId)

/-- `contains`. -/
def contains (state : HostQueueState A) (session turn : String) : Bool :=
  ((state.entriesOf session).lookup turn).isSome

/-- `mark_after_terminal_turn`. -/
def markAfterTerminalTurn (state : HostQueueState A) (session turn previous : String) :
    HostQueueState A :=
  state.modify session fun s =>
    { s with entries := s.entries.modify turn ({ · with afterTerminalTurn := some previous }) }

/-- `admitted_after`. -/
def admittedAfter (state : HostQueueState A) (session previous : String) : List String :=
  ((state.entriesOf session).iter.filter (·.2.afterTerminalTurn = some previous)).map (·.1)

/-- `pending_held`. -/
def pendingHeld (state : HostQueueState A) (session : String) : ℕ :=
  (state.entriesOf session).iter.countP (·.2.holdsPending)

/-- `retire`: the turns that were held, and no message is pending any more. -/
def retire (state : HostQueueState A) (session epoch : String) :
    List (QueuedTurn A) × HostQueueState A :=
  ((state.entriesOf session).iter.filterMap fun (_, e) =>
      if e.view.status.isPending then e.held else none,
    state.modify session fun s => { s with
      epoch, revision := s.revision + 1,
      entries := s.entries.mapValues fun _ e =>
        if e.view.status.isPending then
          { e with view := { e.view with status := .cancelled }, held := none }
        else e })

/-- `cancelled`. -/
def cancelled (state : HostQueueState A) (session turn : String) : HostQueueState A :=
  state.modifyEntry session turn fun e =>
    { e with view := { e.view with status := .cancelled, reason := none }, held := none }

/-- `started`. -/
def started (state : HostQueueState A) (session turn : String) : HostQueueState A :=
  state.modifyEntry session turn fun e =>
    { e with view := { e.view with status := .started, reason := none }, held := none }

/-- `hold`: whether there is a receipt, which then holds the turn. -/
def hold (state : HostQueueState A) (session : String) (turn : QueuedTurn A) (reason : String) :
    Bool × HostQueueState A :=
  match turn.turnId with
  | some id => (state.contains session id, state.modifyEntry session id fun e =>
      { e with view := { e.view with status := .blocked, reason := some reason },
               held := some turn })
  | none => (false, state)

/-- `consumed`: the first message that the injection steers. -/
def consumed (state : HostQueueState A) (session target injection : String) : HostQueueState A :=
  match (state.entriesOf session).iter.find?
      (fun (_, e) => e.steers target && e.view.steeringId = some injection) with
  | some (id, _) => state.modifyEntry session id fun e =>
      { e with view := { e.view with status := .steered }, held := none }
  | none => state

/-- Whether a receipt is the one of the turn that ended. -/
def isFinished (turn id : String) (e : Entry A) : Bool :=
  id = turn ∧ (e.view.status = .started ∨ e.view.status = .interrupted)

/-- The status of a turn that ended. -/
def finishedStatus : TurnOutcomeStatus → DialogQueueStatus
  | .completed => .completed
  | .cancelled => .cancelled
  | .interrupted => .interrupted
  | .failed => .failed

/-- The receipt of a message after the outcome of a turn. -/
def outcomeEntry (turn : String) (status : TurnOutcomeStatus) (id : String) (e : Entry A) :
    Entry A :=
  if isFinished turn id e then
    { e with view := { e.view with status := finishedStatus status } }
  else if e.steers turn then
    { e with view := { e.view with
        status := .blocked
        reason := some "Steering was not consumed before the target turn ended" } }
  else e

/-- `outcome`: the injections that the turn did not consume. -/
def outcome (state : HostQueueState A) (session turn : String) (status : TurnOutcomeStatus) :
    List String × HostQueueState A :=
  (state.pendingSteeringIds session turn,
    state.modify session fun s => { s with
      entries := s.entries.mapValues (outcomeEntry turn status)
      revision := s.revision +
        s.entries.iter.countP fun (id, e) => isFinished turn id e || e.steers turn })

end HostQueueState

/-! ## The injection buffer -/

/-- Whether an injection is eligible for a turn. -/
def RoundInjection.eligible (injection : RoundInjection A) (turnId : String) : Bool :=
  match injection.target with
  | .exactTurn target => target = turnId
  | .currentRunningTurn => true

namespace DialogScheduler

/-- `drain_matching_for_turn`: the injections that a turn is given. -/
def drainMatchingForTurn (σ : DialogScheduler A) (session turn : String)
    ( isMatch : RoundInjection A → Bool) : List (RoundInjection A) × DialogScheduler A :=
  let injections := σ.roundInjectionBuffer.list session
  (injections.filter fun x => isMatch x && x.eligible turn,
    { σ with
      roundInjectionBuffer := σ.roundInjectionBuffer.insert session
        (injections.filter fun x => !(isMatch x && x.eligible turn)) })

/-- `push`. -/
def pushInjection (σ : DialogScheduler A) (session : String) (injection : RoundInjection A) :
    DialogScheduler A :=
  { σ with
    roundInjectionBuffer := σ.roundInjectionBuffer.insert session
      (σ.roundInjectionBuffer.list session ++ [injection]) }

/-- `remove_by_id`. -/
def removeInjection (σ : DialogScheduler A) (session id : String) : DialogScheduler A :=
  { σ with
    roundInjectionBuffer := σ.roundInjectionBuffer.insert session
      ((σ.roundInjectionBuffer.list session).eraseP (·.id = id)) }

/-- `discard_current_running`. -/
def discardCurrentRunning (σ : DialogScheduler A) (session : String) : DialogScheduler A :=
  { σ with
    roundInjectionBuffer := σ.roundInjectionBuffer.insert session
      ((σ.roundInjectionBuffer.list session).filter (·.target ≠ .currentRunningTurn)) }

/-- The message that an injection steers into a turn. -/
def ownerOf (σ : DialogScheduler A) (session injection : String) : Option String :=
  ((σ.hostQueue.entriesOf session).iter.find? (·.2.view.steeringId = some injection)).map (·.1)

/-- `take_pending`: a running turn takes those of its injections that `isMatch` admits. -/
def takePending (σ : DialogScheduler A) (session turn : String)
    (isMatch : RoundInjection A → Bool) : DialogScheduler A :=
  let (injections, σ') := σ.drainMatchingForTurn session turn isMatch
  { σ' with
    taken := σ'.taken.insert session
      (σ'.taken.list session ++ injections.map fun x => (turn, x))
    executed := σ'.executed.insert session
      (σ'.executed.list session ++ injections.filterMap fun x => σ.ownerOf session x.id) }

/-- `acknowledge_consumed`. -/
def acknowledgeConsumed (σ : DialogScheduler A) (session turn injection : String) :
    DialogScheduler A :=
  { σ with
    hostQueue := σ.hostQueue.consumed session turn injection
    taken := σ.taken.insert session
      ((σ.taken.list session).filter fun (taker, x) => !(taker = turn && x.id = injection)) }

end DialogScheduler

end HostQueue

end OpenBitFun
