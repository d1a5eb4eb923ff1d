import OpenBitFun.CompactionMessage

/-!
# The context compressor

A compaction replaces the older part of a session's context by a summary. `planCompression` cuts
the conversation between two exchanges (an assistant message with its tool results is one), such
that the recent tail fits a target; while a model writes the summary, messages may be appended, and
`rebasePlan` moves them into the tail; `compressPlanWithContract` builds the new context: retained
user messages, the summary, and the tail. The latest successful todo list of the current turn, if
the summary covers it, travels in the summary's metadata.

The estimate of a message's tokens sums floating-point numbers; it is a parameter.
-/

namespace OpenBitFun

namespace Compaction

open Json (Value)

variable {A : Type}

/-! ## Todo lists -/

/-- The todo lists in a summary's metadata that belong to the turn. -/
def payloadSnapshots (currentTurnId : String) (m : Message A) : List CompressedTodoSnapshot :=
  match m.compressionPayload with
  | none => []
  | some payload => payload.entries.filterMap fun entry =>
    match entry with
    | .turn (some turnId) _ (some todo) => if turnId = currentTurnId then some todo else none
    | _ => none

/-- The first successful result of a tool call among the tool messages directly behind it. -/
def successfulResult (call : ToolCall) (following : List (Message A)) : Option Value :=
  (following.takeWhile fun m => m.role = .tool).findSome? fun m =>
    match m.content with
    | .toolResult toolId _ result _ isError _ =>
      if toolId = call.toolId ∧ isError = false ∧
          (result.get "success").bind Value.asBool ≠ some false then some result
      else none
    | _ => none

/-- The todo list of a tool call. -/
def callSnapshot (following : List (Message A)) (call : ToolCall) :
    Option CompressedTodoSnapshot :=
  if call.toolName ≠ "TodoWrite" ∨ call.isError then none
  else do
    let result ← successfulResult call following
    (todoSnapshotFromValue result).or (todoSnapshotFromValue call.arguments)

/-- The todo lists that an assistant message of the turn has written. -/
def callSnapshots (currentTurnId : String) (m : Message A) (following : List (Message A)) :
    List CompressedTodoSnapshot :=
  if m.role ≠ .assistant ∨ m.turnId ≠ some currentTurnId then []
  else match m.content with
    | .mixed _ _ toolCalls => toolCalls.filterMap (callSnapshot following)
    | _ => []

/-- The loop of `latest_successful_todo_snapshot_for_turn`, at the message with an index. -/
def latestFrom (currentTurnId : String) (index : ℕ) (latest : Option (ℕ × CompressedTodoSnapshot)) :
    List (Message A) → Option (ℕ × CompressedTodoSnapshot)
  | [] => latest
  | m :: messages =>
    let latest := (payloadSnapshots currentTurnId m).foldl (fun _ todo => some (index, todo)) latest
    let latest := (callSnapshots currentTurnId m messages).foldl
      (fun _ snapshot => some (index, snapshot)) latest
    latestFrom currentTurnId (index + 1) latest messages

/-- `latest_successful_todo_snapshot_for_turn`. -/
def latestSuccessfulTodoSnapshotForTurn (messages : List (Message A)) (currentTurnId : String) :
    Option (ℕ × CompressedTodoSnapshot) :=
  latestFrom currentTurnId 0 none messages

/-! ## Planning -/

/-- `CurrentTurnTodoCheckpoint`. -/
structure CurrentTurnTodoCheckpoint where
  turnId : String
  snapshot : CompressedTodoSnapshot

/-- `CompressionPlan`. -/
structure CompressionPlan (A : Type) where
  /-- The messages that the summary's model reads. -/
  summaryRequestMessages : List (Message A)
  /-- The prefix that is summarized. -/
  summaryMessages : List (Message A)
  /-- The user messages of the prefix that are kept as they are. -/
  retainedUserMessages : List (Message A)
  /-- The tail that is kept as it is. -/
  recentTailMessages : List (Message A)
  retainedUserTokenBudget : ℕ
  retainedUserTokens : ℕ
  recentTargetTokens : ℕ
  recentTailTokens : ℕ
  cutoffMessageIndex : ℕ
  /-- The target for which the tail would be longer. -/
  nextRecentTargetTokens : Option ℕ
  currentTurnTodoCheckpoint : Option CurrentTurnTodoCheckpoint

/-- `AtomicMessageUnit`. -/
structure AtomicMessageUnit where
  start : ℕ
  tokens : ℕ
  deriving DecidableEq

variable (estimate : Message A → ℕ)

/-- The tokens of some messages. -/
def tokenSum (messages : List (Message A)) : ℕ := (messages.map estimate).sum

/-- `atomic_message_units`, for the messages from an index on. -/
def atomicMessageUnitsFrom (start : ℕ) : List (Message A) → List AtomicMessageUnit
  | [] => []
  | m :: messages =>
    let tools := if m.role = .assistant then messages.takeWhile (fun m => m.role = .tool) else []
    ⟨start, tokenSum estimate (m :: tools)⟩ ::
      atomicMessageUnitsFrom (start + (m :: tools).length) (messages.drop tools.length)
termination_by messages => messages.length
decreasing_by
  rw [List.length_drop, List.length_cons]
  omega

/-- `atomic_message_units`. -/
def atomicMessageUnits (messages : List (Message A)) : List AtomicMessageUnit :=
  atomicMessageUnitsFrom estimate 0 messages

/-- Where the second unit starts; the first one is always summarized. -/
def minimumCutoff (units : List AtomicMessageUnit) (conversation : List (Message A)) : ℕ :=
  match units[1]? with
  | some unit => unit.start
  | none => conversation.length

/-- The loop over the units, newest first: the cutoff, and the target for a longer tail. -/
def cutLoop (minimumCutoff recentTargetTokens cutoff accumulatedTokens : ℕ) :
    List AtomicMessageUnit → ℕ × Option ℕ
  | [] => (cutoff, none)
  | unit :: units =>
    if unit.start < minimumCutoff then (cutoff, none)
    else
      let nextTokens := accumulatedTokens + unit.tokens
      if nextTokens > recentTargetTokens then (cutoff, some nextTokens)
      else cutLoop minimumCutoff recentTargetTokens unit.start nextTokens units

/-- `retain_historical_user_messages`, over the user messages, newest first: what is retained,
oldest first, with its tokens. -/
def retainLoop (tokenBudget : ℕ) (retained : List (Message A)) (retainedTokens : ℕ) :
    List (Message A) → List (Message A) × ℕ
  | [] => (retained, retainedTokens)
  | m :: messages =>
    if retainedTokens + estimate m > tokenBudget then (retained, retainedTokens)
    else retainLoop tokenBudget (m :: retained) (retainedTokens + estimate m) messages

/-- `retain_historical_user_messages`. -/
def retainHistoricalUserMessages (summaryMessages : List (Message A)) (tokenBudget : ℕ) :
    List (Message A) × ℕ :=
  retainLoop estimate tokenBudget [] 0
    (summaryMessages.reverse.filter Message.isActualUserMessage)

/-- `canonical_conversation`: without droppable reminders and leading system messages. -/
def canonicalConversation (runtimeMessages : List (Message A)) : List (Message A) :=
  (runtimeMessages.filter fun m => !m.isDroppable).dropWhile fun m => m.role = .system

/-- The checkpoint of a cut: the latest todo list, if it lies before the cutoff. -/
def checkpointBefore (conversation : List (Message A)) (cutoff : ℕ) (currentTurnId : String) :
    Option CurrentTurnTodoCheckpoint :=
  (latestSuccessfulTodoSnapshotForTurn conversation currentTurnId).bind fun (index, snapshot) =>
    if index < cutoff then some ⟨currentTurnId, snapshot⟩ else none

/-- `MAX_RETAINED_USER_TOKENS`. -/
def MAX_RETAINED_USER_TOKENS : ℕ := 20000

/-- `plan_compression_internal`. -/
def planCompressionInternal (currentTurnId : Option String) (runtimeMessages : List (Message A))
    (contextWindow recentTargetTokens : ℕ) : Option (CompressionPlan A) :=
  let runtimeMessages := runtimeMessages.filter fun m => !m.isDroppable
  let systemMessages := runtimeMessages.takeWhile fun m => m.role = .system
  let conversation := runtimeMessages.drop systemMessages.length
  if conversation.isEmpty then none
  else
    let units := atomicMessageUnits estimate conversation
    let (cutoff, nextRecentTargetTokens) :=
      cutLoop (minimumCutoff units conversation) recentTargetTokens conversation.length 0
        units.reverse
    let summaryMessages := conversation.take cutoff
    if summaryMessages.isEmpty then none
    else
      let recentTailMessages := conversation.drop cutoff
      let retainedUserTokenBudget := min (contextWindow / 10) MAX_RETAINED_USER_TOKENS
      let (retainedUserMessages, retainedUserTokens) :=
        retainHistoricalUserMessages estimate summaryMessages retainedUserTokenBudget
      some {
        summaryRequestMessages := systemMessages ++ summaryMessages
        summaryMessages := summaryMessages
        retainedUserMessages := retainedUserMessages
        recentTailMessages := recentTailMessages
        retainedUserTokenBudget := retainedUserTokenBudget
        retainedUserTokens := retainedUserTokens
        recentTargetTokens := recentTargetTokens
        recentTailTokens := tokenSum estimate recentTailMessages
        cutoffMessageIndex := cutoff
        nextRecentTargetTokens := nextRecentTargetTokens
        currentTurnTodoCheckpoint := currentTurnId.bind (checkpointBefore conversation cutoff) }

/-- `plan_compression`. -/
def planCompression (runtimeMessages : List (Message A))
    (contextWindow recentTargetTokens : ℕ) : Option (CompressionPlan A) :=
  planCompressionInternal estimate none runtimeMessages contextWindow recentTargetTokens

/-- `plan_compression_for_turn`. -/
def planCompressionForTurn (currentTurnId : String) (runtimeMessages : List (Message A))
    (contextWindow recentTargetTokens : ℕ) : Option (CompressionPlan A) :=
  planCompressionInternal estimate (some currentTurnId) runtimeMessages contextWindow
    recentTargetTokens

/-! ## Rebasing -/

/-- `has_message_id_prefix`. -/
def hasMessageIdPrefix (messages : List (Message A)) (prefixIds : List String) : Bool :=
  prefixIds.isPrefixOf (messages.map Message.id)

/-- `rebase_plan`: the plan for a context that has grown, if its cutoff is still a boundary. -/
def rebasePlan (plan : CompressionPlan A) (runtimeMessages : List (Message A))
    (currentTurnId : String) : Option (CompressionPlan A) :=
  let conversation := canonicalConversation runtimeMessages
  let cutoff := plan.summaryMessages.length
  if !hasMessageIdPrefix conversation (plan.summaryMessages.map Message.id) ||
      (cutoff < conversation.length &&
        !(atomicMessageUnits estimate conversation).any fun unit => unit.start = cutoff) then none
  else some { plan with
    recentTailMessages := conversation.drop cutoff
    recentTailTokens := tokenSum estimate (conversation.drop cutoff)
    currentTurnTodoCheckpoint := checkpointBefore conversation cutoff currentTurnId }

/-! ## The new context -/

/-- `normalize_model_summary_output`. -/
def normalizeModelSummaryOutput (raw : String) : Option String :=
  let summary := Text.trim raw.toList
  if summary = [] then none else some (String.ofList summary)

/-- `CompressionSummaryArtifact`. -/
structure CompressionSummaryArtifact where
  summaryText : String
  payload : CompressionPayload

/-- `build_model_summary_artifact`. -/
def buildModelSummaryArtifact (summary : String) (contract : Option CompressionContract) :
    CompressionSummaryArtifact :=
  let payload := CompressionPayload.fromSummary summary
  let summaryText := "Summary of the earlier conversation:\n<summary>\n" ++ summary ++
    "\n</summary>"
  match contract.filter fun contract => !contract.isEmpty with
  | some contract =>
    ⟨contract.renderForModel ++ "\n\n" ++ summaryText, ⟨.contract contract :: payload.entries⟩⟩
  | none => ⟨summaryText, payload⟩

/-- `render_current_turn_todo_checkpoint`. -/
def renderCurrentTurnTodoCheckpoint (snapshot : CompressedTodoSnapshot) : String :=
  if snapshot.todos.isEmpty then snapshot.summary.getD "The current-turn task list is empty."
  else "\n".intercalate <| snapshot.todos.map fun todo =>
    let id := match todo.id with
      | some id => " (" ++ id ++ ")"
      | none => ""
    "- [" ++ todo.status ++ "]" ++ id ++ " " ++ todo.content

/-- An entry of a payload after another todo list of the turn has taken its place. -/
def CompressionEntry.clearTodo (checkpointTurnId : String) : CompressionEntry → CompressionEntry
  | .turn turnId messages todo =>
    .turn turnId messages (if turnId = some checkpointTurnId then none else todo)
  | entry => entry

/-- The entry of a turn of which nothing is left. -/
def CompressionEntry.isSpent : CompressionEntry → Bool
  | .turn _ messages todo => messages.isEmpty && todo.isNone
  | _ => false

/-- `append_current_turn_todo_checkpoint`. -/
def appendCurrentTurnTodoCheckpoint (artifact : CompressionSummaryArtifact)
    (checkpoint : CurrentTurnTodoCheckpoint) : CompressionSummaryArtifact where
  summaryText := String.ofList (Text.trimEnd artifact.summaryText.toList) ++
    "\n\nCurrent task state at the compaction boundary (authoritative; overrides any " ++
    "conflicting task status in the generated summary):\n<todo>\n" ++
    renderCurrentTurnTodoCheckpoint checkpoint.snapshot ++ "\n</todo>"
  payload :=
    let entries := artifact.payload.entries.map (CompressionEntry.clearTodo checkpoint.turnId)
    ⟨(entries.filter fun entry => !entry.isSpent) ++
      [.turn (some checkpoint.turnId) [] (some checkpoint.snapshot)]⟩

/-- `render_boundary_marker_text`. -/
def renderBoundaryMarkerText : String :=
  "Some earlier user messages were retained verbatim, and the remaining earlier conversation " ++
    "has been summarized below. Use both as prior context."

/-- `create_summary_message`, with a new id. -/
def createSummaryMessage (id : String) (artifact : CompressionSummaryArtifact) : Message A :=
  { Message.user id
      (renderSystemReminder (renderBoundaryMarkerText ++ "\n\n" ++ artifact.summaryText)) with
    semanticKind := some .compressionSummary
    compressionPayload := some artifact.payload }

/-- `COMPRESSION_CONTINUATION_REMINDER`. -/
def COMPRESSION_CONTINUATION_REMINDER : String :=
  "This conversation was compacted. Re-establish the working state from the retained user " ++
    "messages, summary, and recent context. Continue any unfinished work; otherwise use this " ++
    "context for the user's next request. Do not ask the user to repeat information already " ++
    "retained here. If a required detail is missing and a pre-compaction transcript is " ++
    "available, inspect the relevant part before proceeding."

/-- The artifact of a plan's summary, with its checkpoint. -/
def planArtifact (plan : CompressionPlan A) (contract : Option CompressionContract)
    (summary : String) : CompressionSummaryArtifact :=
  let artifact := buildModelSummaryArtifact summary contract
  match plan.currentTurnTodoCheckpoint with
  | some checkpoint => appendCurrentTurnTodoCheckpoint artifact checkpoint
  | none => artifact

/-- `compress_plan_with_contract`: the messages of the new context, or no summary. The summary and
the reminder get new ids. -/
def compressPlanWithContract (summaryId reminderId : String) (plan : CompressionPlan A)
    (contract : Option CompressionContract) (modelSummary : String) :
    Option (List (Message A)) := do
  let summary ← normalizeModelSummaryOutput modelSummary
  return plan.retainedUserMessages ++
    [createSummaryMessage summaryId (planArtifact plan contract summary)] ++
    plan.recentTailMessages ++
    [Message.internalReminder reminderId .compressionContinuation
      COMPRESSION_CONTINUATION_REMINDER]

end Compaction

end OpenBitFun
