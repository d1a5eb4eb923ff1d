import Mathlib
import OpenBitFun.AgenticEvent
import OpenBitFun.AssocMap
import OpenBitFun.Run

/-!
# The session event journal

The journal materializes the events of every session into a projection of the session's current
Turn (`SessionProjection`), from which a client that was away is served: by `snapshot` with the
whole projection, by `eventsSince` with the events after a cursor. With a store the journal also
appends every event of an executing Turn to the session's log, and a journal that has nothing in
memory answers `snapshot` by replaying that log.

A lock holds the state during `record`, and the calls to the store come in the order of the
records: `record` is one step from journal to journal, the store included.
-/

namespace OpenBitFun

namespace SessionJournal

variable {ρ : Type}

/-- `MAX_PROJECTED_EVENTS_PER_SESSION`. -/
def MAX_PROJECTED_EVENTS_PER_SESSION : ℕ := 2048

/-- `MAX_RETAINED_TERMINAL_SESSION_PROJECTIONS`. -/
def MAX_RETAINED_TERMINAL_SESSION_PROJECTIONS : ℕ := 64

/-- `MAX_REPLAYABLE_TAIL_EVENTS`. -/
def MAX_REPLAYABLE_TAIL_EVENTS : ℕ := 1024

/-- `u64::saturating_add(1)`. -/
def saturatingSucc (n : ℕ) : ℕ := min (n + 1) (2 ^ 64 - 1)

/-! ## Materialization -/

/-- `JournaledEvent`: one event as it came, with its cursor. -/
structure JournaledEvent (ρ : Type) where
  /-- Its cursor. -/
  cursor : ℕ
  /-- The event. -/
  event : AgenticEvent ρ

/-- `SessionProjection`. -/
structure SessionProjection (ρ : Type) where
  /-- The number of events materialized so far. -/
  cursor : ℕ := 0
  /-- The Turn the projection shows. -/
  activeTurnId : Option String := none
  /-- The compacted events of that Turn. -/
  events : List (AgenticEvent ρ) := []
  /-- The last events as they came. -/
  tail : List (JournaledEvent ρ) := []
  /-- The Turn has ended, or the session is deleted. -/
  terminal : Bool := false
  /-- The journal's sequence number at the last event. -/
  lastTouched : ℕ := 0

/-- `SessionProjection::push_tail`. -/
def SessionProjection.pushTail (p : SessionProjection ρ) (cursor : ℕ) (event : AgenticEvent ρ) :
    SessionProjection ρ :=
  let tail := p.tail ++ [⟨cursor, event⟩]
  { p with tail := tail.drop (tail.length - MAX_REPLAYABLE_TAIL_EVENTS) }

/-- `SessionProjection::tail_since`. -/
def SessionProjection.tailSince (p : SessionProjection ρ) (cursor : ℕ) :
    Option (List (AgenticEvent ρ)) :=
  if cursor > p.cursor then none
  else if cursor = p.cursor then some []
  else match p.tail.head? with
    | some oldest =>
      if oldest.cursor ≤ saturatingSucc cursor then
        some ((p.tail.filter (·.cursor > cursor)).map (·.event))
      else none
    | none => none

/-- `SessionProjection::clear_replay_content`. -/
def SessionProjection.clearReplayContent (p : SessionProjection ρ) : SessionProjection ρ :=
  { p with events := [], tail := [], activeTurnId := none }

/-- `event_turn_id`: the Turn an event is materialized under. -/
def eventTurnId : AgenticEvent ρ → Option String
  | .dialogTurnStarted _ t _ | .dialogTurnCompleted _ t _ | .dialogTurnCancelled _ t
  | .dialogTurnInterrupted _ t _ _ | .dialogTurnRecovered _ t _ | .dialogTurnFailed _ t _
  | .tokenUsageUpdated _ t _ | .contextCompressionStarted _ t _
  | .contextCompressionCompleted _ t _ | .contextCompressionFailed _ t _
  | .modelRoundStarted _ t _ _ | .modelRoundAttemptSuperseded _ t _ _
  | .modelRoundCompleted _ t _ _ | .textChunk _ t _ _ _ _ | .thinkingChunk _ t _ _ _ _ _ _
  | .toolEvent _ t _ _ _ _ | .deepReviewQueueStateChanged _ t _ | .userSteeringInjected _ t _ =>
    some t
  | .subagentSessionLinked _ subagentDialogTurnId _ => some subagentDialogTurnId
  | _ => none

/-- `replace_unique`: the first event that matches is replaced in place, or the new one added. -/
def replaceUnique (events : List (AgenticEvent ρ)) (replacement : AgenticEvent ρ)
    (isMatch : AgenticEvent ρ → Bool) : List (AgenticEvent ρ) :=
  match events.findIdx? isMatch with
  | some index => events.set index replacement
  | none => events ++ [replacement]

/-- The event is accumulated into the last one when `merge` says how, and added otherwise. -/
def accumulateLast (events : List (AgenticEvent ρ)) (event : AgenticEvent ρ)
    (merge : AgenticEvent ρ → Option (AgenticEvent ρ)) : List (AgenticEvent ρ) :=
  match events.getLast?.bind merge with
  | some merged => events.dropLast ++ [merged]
  | none => events ++ [event]

/-- A text chunk of the same stream takes the new text at its end. -/
def mergeText (turnId roundId : String) (attemptId : Option String) (attemptIndex : Option ℕ)
    (text : String) : AgenticEvent ρ → Option (AgenticEvent ρ)
  | .textChunk s t r a i accumulated =>
    if t = turnId ∧ r = roundId ∧ a = attemptId ∧ i = attemptIndex then
      some (.textChunk s t r a i (accumulated ++ text))
    else none
  | _ => none

/-- A thinking chunk of the same stream and kind takes the new content at its end. -/
def mergeThinking (turnId roundId : String) (attemptId : Option String) (attemptIndex : Option ℕ)
    (content : String) (reasoningKind : Option ReasoningContentKind) (isEnd : Bool) :
    AgenticEvent ρ → Option (AgenticEvent ρ)
  | .thinkingChunk s t r a i accumulated k accumulatedEnd =>
    if t = turnId ∧ r = roundId ∧ a = attemptId ∧ i = attemptIndex ∧ k = reasoningKind then
      some (.thinkingChunk s t r a i (accumulated ++ content) k (accumulatedEnd || isEnd))
    else none
  | _ => none

/-- `tool_event_identity`: the tool call of a tool event. -/
def toolEventIdentity (event : ToolEventData ρ) : String := event.identity.toolId

/-- `compactable_tool_event`. -/
def compactableToolEvent : ToolEventData ρ → Bool
  | .earlyDetected .. | .queued .. | .waiting .. | .progress .. | .streaming ..
  | .genUIStream .. => true
  | _ => false

/-- Partial parameters of the tool call `toolId`. -/
def isParamsPartialOf (toolId : String) : AgenticEvent ρ → Bool
  | .toolEvent _ _ _ _ _ (.paramsPartial identity _) => identity.toolId = toolId
  | _ => false

/-- Partial parameters take the new ones at their end. -/
def appendParams (params : String) : AgenticEvent ρ → AgenticEvent ρ
  | .toolEvent s t r a i (.paramsPartial identity accumulated) =>
    .toolEvent s t r a i (.paramsPartial identity (accumulated ++ params))
  | event => event

/-- The event a tool event replaces: of the same tool call and variant. A compactable one asks
besides that the other is compactable too. -/
def sameToolEvent (toolEvent : ToolEventData ρ) : AgenticEvent ρ → Bool
  | .toolEvent _ _ _ _ _ candidate =>
    if compactableToolEvent toolEvent then
      compactableToolEvent candidate ∧ toolEventIdentity candidate = toolEventIdentity toolEvent ∧
        candidate.discriminant = toolEvent.discriminant
    else
      toolEventIdentity candidate = toolEventIdentity toolEvent ∧
        candidate.discriminant = toolEvent.discriminant
  | _ => false

/-- The `match` of `apply_event`: what the event does to the projected events. -/
def project (events : List (AgenticEvent ρ)) (event : AgenticEvent ρ) : List (AgenticEvent ρ) :=
  match event with
  | .textChunk _ t r a i text => accumulateLast events event (mergeText t r a i text)
  | .thinkingChunk _ t r a i content k isEnd =>
    accumulateLast events event (mergeThinking t r a i content k isEnd)
  | .modelRoundStarted _ _ roundId _ => replaceUnique events event fun
    | .modelRoundStarted _ _ candidateRound _ => candidateRound = roundId
    | _ => false
  | .modelRoundCompleted _ _ roundId _ => replaceUnique events event fun
    | .modelRoundCompleted _ _ candidateRound _ => candidateRound = roundId
    | _ => false
  | .tokenUsageUpdated .. => replaceUnique events event fun
    | .tokenUsageUpdated .. => true
    | _ => false
  | .toolEvent _ _ _ _ _ (.paramsPartial identity params) =>
    match events.findIdx? (isParamsPartialOf identity.toolId) with
    | some index => events.modify index (appendParams params)
    | none => events ++ [event]
  | .toolEvent _ _ _ _ _ toolEvent => replaceUnique events event (sameToolEvent toolEvent)
  | _ => events ++ [event]

/-- Progress of a tool call that a later state of it replaces anyway. -/
def isTransientProgress : AgenticEvent ρ → Bool
  | .toolEvent _ _ _ _ _ (.progress ..) | .toolEvent _ _ _ _ _ (.streaming ..)
  | .toolEvent _ _ _ _ _ (.genUIStream ..) | .toolEvent _ _ _ _ _ (.streamChunk ..) => true
  | _ => false

/-- `compact_projection`: what is over the limit goes, transient progress first, never the first
event. -/
def compactProjection (events : List (AgenticEvent ρ)) : List (AgenticEvent ρ) :=
  if events.length ≤ MAX_PROJECTED_EVENTS_PER_SESSION then events
  else
    let excess := events.length - MAX_PROJECTED_EVENTS_PER_SESSION
    let transient := (events.zipIdx.filterMap fun (event, index) =>
      if index > 0 ∧ isTransientProgress event then some index else none).take excess
    let removable :=
      if transient.length < excess then
        transient ++ ((List.range' 1 (events.length - 1)).filter (· ∉ transient)).take
          (excess - transient.length)
      else transient
    (removable.mergeSort (· ≥ ·)).foldl List.eraseIdx events

/-- `DialogTurnStarted` of the Turn `turnId`. -/
def isStartOf (turnId : String) : AgenticEvent ρ → Bool
  | .dialogTurnStarted _ t _ => t = turnId
  | _ => false

/-- The event ends its Turn. -/
def endsTurn : AgenticEvent ρ → Bool
  | .dialogTurnCompleted .. | .dialogTurnCancelled .. | .dialogTurnFailed .. => true
  | _ => false

/-- `apply_event`: whether the event was materialized, and the projection after it. -/
def applyEvent (p : SessionProjection ρ) (event : AgenticEvent ρ) : Bool × SessionProjection ρ :=
  match event with
  | .dialogTurnStarted _ turnId _ =>
    let p := if p.activeTurnId = some turnId then p
      else { p with events := [], activeTurnId := some turnId }
    (true, { p with
      terminal := false, events := replaceUnique p.events event (isStartOf turnId) })
  | _ =>
    match eventTurnId event with
    | none => (false, p)
    | some turnId =>
      -- a Turn may begin before a delivery adapter is installed: its first event starts it
      let p := if p.activeTurnId = some turnId then p
        else { p with events := [], activeTurnId := some turnId, terminal := false }
      let p := { p with events := compactProjection (project p.events event) }
      (true, if endsTurn event then { p with terminal := true } else p)

/-! ## The store -/

/-- One line of a session's log. -/
structure LoggedEvent (ρ : Type) where
  /-- The journal that wrote it. -/
  streamId : String
  /-- The live cursor at that time. -/
  cursor : ℕ
  /-- The event. -/
  event : AgenticEvent ρ

/-- `StoredSessionEvents`. -/
structure StoredSessionEvents (ρ : Type) where
  /-- The journal that wrote them. -/
  streamId : String
  /-- The events in their order. -/
  events : List (AgenticEvent ρ)

/-- `SessionEventProjectionStore`: one append-only log a session. -/
abbrev ProjectionStore (ρ : Type) := AssocMap String (List (LoggedEvent ρ))

/-- `append`. -/
def ProjectionStore.append (store : ProjectionStore ρ) (sessionId streamId : String) (cursor : ℕ)
    (event : AgenticEvent ρ) : ProjectionStore ρ :=
  store.insert sessionId ((store.lookup sessionId).getD [] ++ [⟨streamId, cursor, event⟩])

/-- One line of `load`: the events of a newer stream replace those of an older one. -/
def loadRecord (loaded : Option String × List (AgenticEvent ρ)) (record : LoggedEvent ρ) :
    Option String × List (AgenticEvent ρ) :=
  match loaded.1 with
  | some current =>
    if current ≠ record.streamId then (some record.streamId, [record.event])
    else (some current, loaded.2 ++ [record.event])
  | none => (some record.streamId, loaded.2 ++ [record.event])

/-- `load`. -/
def ProjectionStore.load (store : ProjectionStore ρ) (sessionId : String) :
    Option (StoredSessionEvents ρ) := do
  let records ← store.lookup sessionId
  let (streamId, events) := records.foldl loadRecord (none, [])
  if events.isEmpty then none
  else return ⟨← streamId, events⟩

/-- `discard`. -/
def ProjectionStore.discard (store : ProjectionStore ρ) (sessionId : String) :
    ProjectionStore ρ :=
  store.erase sessionId

/-! ## The journal -/

/-- `SessionEventCursor`. -/
structure SessionEventCursor where
  /-- The journal that handed it out. -/
  streamId : String
  /-- The cursor. -/
  cursor : ℕ
  deriving DecidableEq, Repr

/-- `SessionEventProjectionSnapshot`. -/
structure SessionEventProjectionSnapshot (ρ : Type) where
  /-- The session. -/
  sessionId : String
  /-- The journal that materialized the events. -/
  streamId : String
  /-- The cursor of the last event. -/
  cursor : ℕ
  /-- The Turn shown. -/
  activeTurnId : Option String
  /-- Its compacted events. -/
  events : List (AgenticEvent ρ)
  deriving DecidableEq

/-- `SessionEventBackfill`. -/
inductive SessionEventBackfill (ρ : Type) where
  | delta (streamId : String) (cursor : ℕ) (events : List (AgenticEvent ρ))
  | snapshotRequired

/-- `JournalState`. -/
structure JournalState (ρ : Type) where
  /-- The id of this journal's stream. -/
  streamId : String
  /-- The number of events materialized in all sessions. -/
  sequence : ℕ
  /-- The projections. -/
  sessions : AssocMap String (SessionProjection ρ)

/-- `SessionEventJournal`, with the contents of its store. -/
structure SessionEventJournal (ρ : Type) where
  /-- What is in memory. -/
  state : JournalState ρ
  /-- What is on disk. -/
  store : Option (ProjectionStore ρ)

/-- `SessionEventJournal::with_stream_id`. -/
def withStreamId (streamId : String) : SessionEventJournal ρ where
  state := ⟨streamId, 0, ∅⟩
  store := none

/-- `SessionEventJournal::with_store`. -/
def SessionEventJournal.withStore (j : SessionEventJournal ρ) (store : ProjectionStore ρ) :
    SessionEventJournal ρ :=
  { j with store := some store }

/-- The ended projections with events, as `prune_terminal_projections` collects them. -/
def retained (sessions : AssocMap String (SessionProjection ρ)) : List (String × ℕ) :=
  sessions.entries.filterMap fun ⟨sessionId, p⟩ =>
    if p.terminal ∧ ¬ p.events.isEmpty then some (sessionId, p.lastTouched) else none

/-- Release the replay content of one session. -/
def releaseContent (sessions : AssocMap String (SessionProjection ρ)) (sessionId : String) :
    AssocMap String (SessionProjection ρ) :=
  match sessions.lookup sessionId with
  | some p => sessions.insert sessionId p.clearReplayContent
  | none => sessions

/-- `prune_terminal_projections`. -/
def pruneTerminalProjections (sessions : AssocMap String (SessionProjection ρ)) :
    AssocMap String (SessionProjection ρ) :=
  if (retained sessions).length ≤ MAX_RETAINED_TERMINAL_SESSION_PROJECTIONS then sessions
  else
    let sorted := (retained sessions).mergeSort fun left right => right.2 ≤ left.2
    ((sorted.drop MAX_RETAINED_TERMINAL_SESSION_PROJECTIONS).map (·.1)).foldl releaseContent
      sessions

/-- A raw stream chunk of a tool call, which no projection shows. -/
def isStreamChunk : AgenticEvent ρ → Bool
  | .toolEvent _ _ _ _ _ (.streamChunk ..) => true
  | _ => false

/-- `SessionDeleted`. -/
def isSessionDeleted : AgenticEvent ρ → Bool
  | .sessionDeleted _ => true
  | _ => false

/-- `SessionEventJournal::record`, of an event of the session `sessionId` that may be materialized:
the part after the early returns. -/
def SessionEventJournal.materialize (j : SessionEventJournal ρ) (sessionId : String)
    (event : AgenticEvent ρ) : Option SessionEventCursor × SessionEventJournal ρ :=
  let nextSequence := saturatingSucc j.state.sequence
  let (materialized, p) := applyEvent ((j.state.sessions.lookup sessionId).getD {}) event
  if materialized then
    let p := { p with cursor := saturatingSucc p.cursor, lastTouched := nextSequence }
    let p := p.pushTail p.cursor event
    let sessions := pruneTerminalProjections (j.state.sessions.insert sessionId p)
    let store := j.store.map fun store =>
      if ((sessions.lookup sessionId).map (·.terminal)).getD false then store.discard sessionId
      else store.append sessionId j.state.streamId p.cursor event
    (some ⟨j.state.streamId, p.cursor⟩,
      ⟨{ j.state with sequence := nextSequence, sessions }, store⟩)
  else (none, { j with state.sessions := j.state.sessions.insert sessionId p })

/-- `SessionEventJournal::record`. -/
def SessionEventJournal.record (j : SessionEventJournal ρ) (event : AgenticEvent ρ) :
    Option SessionEventCursor × SessionEventJournal ρ :=
  match event.sessionId with
  | none => (none, j)
  | some sessionId =>
    if isSessionDeleted event then
      match j.state.sessions.lookup sessionId with
      | some p =>
        (none, { j with state.sessions :=
          j.state.sessions.insert sessionId { p.clearReplayContent with terminal := true } })
      | none => (none, j)
    else if (eventTurnId event).isNone ∨ isStreamChunk event then (none, j)
    else j.materialize sessionId event

/-- `SessionEventJournal::events_since`. -/
def SessionEventJournal.eventsSince (j : SessionEventJournal ρ) (sessionId streamId : String)
    (cursor : ℕ) : SessionEventBackfill ρ :=
  if j.state.streamId ≠ streamId then .snapshotRequired
  else match j.state.sessions.lookup sessionId with
    | none => .snapshotRequired
    | some p =>
      match p.tailSince cursor with
      | some events => .delta j.state.streamId p.cursor events
      | none => .snapshotRequired

/-- `projection_snapshot`. -/
def projectionSnapshot (state : JournalState ρ) (sessionId : String) :
    SessionEventProjectionSnapshot ρ :=
  let p := state.sessions.lookup sessionId
  { sessionId
    streamId := state.streamId
    cursor := (p.map (·.cursor)).getD 0
    activeTurnId := p.bind (·.activeTurnId)
    events := (p.map (·.events)).getD [] }

/-- One event of the replay in `snapshot`. -/
def replayEvent (p : SessionProjection ρ) (event : AgenticEvent ρ) : SessionProjection ρ :=
  let (materialized, p) := applyEvent p event
  if materialized then { p with cursor := saturatingSucc p.cursor } else p

/-- The replay of a log in `snapshot`. -/
def replay (events : List (AgenticEvent ρ)) : SessionProjection ρ := events.foldl replayEvent {}

/-- `SessionEventJournal::snapshot`. -/
def SessionEventJournal.snapshot (j : SessionEventJournal ρ) (sessionId : String) :
    SessionEventProjectionSnapshot ρ :=
  if (j.state.sessions.lookup sessionId).isSome then projectionSnapshot j.state sessionId
  else match j.store.bind (·.load sessionId) with
    | none => ⟨sessionId, j.state.streamId, 0, none, []⟩
    | some stored =>
      let p := replay stored.events
      ⟨sessionId, stored.streamId, p.cursor, p.activeTurnId, p.events⟩

end SessionJournal

end OpenBitFun
