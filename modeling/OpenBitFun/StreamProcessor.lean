import OpenBitFun.HiddenText
import OpenBitFun.ModelPool
import OpenBitFun.ToolCallAccumulator
import OpenBitFun.UnifiedResponse

/-!
# The stream processor

`StreamProcessor` reads the responses of a model's stream and tells the clients about each part as
it arrives: text, thinking, tool calls (`lib.rs` of the agent stream). At the end it returns all of
it as one result. A stream that fails or stops in the middle is still a result if there was some
output. Cancellation, clocks and logs are left out, and so are the events about a stream that comes
to nothing.
-/

namespace OpenBitFun

namespace StreamProcessor

open HiddenText ToolCallAccumulator

/-! ## Data -/

/-- `ToolCall`: `interpretation` is what parsing makes of the arguments. -/
structure ToolCall (ι : Type) where
  toolId : String
  toolName : String
  interpretation : ι
  rawArguments : Option (List Char)
  deriving DecidableEq

/-- `ToolCallFinalizeOptions`. -/
structure ToolCallFinalizeOptions where
  completion : ToolCallCompletion
  allowNormalToolJsonRepair : Bool
  deriving DecidableEq

/-- The default options. -/
def ToolCallFinalizeOptions.default : ToolCallFinalizeOptions := ⟨.unknown, false⟩

/-- `StreamProcessOptions` and the other arguments of `process_stream_with_options`. -/
structure StreamProcessOptions where
  sessionId : String
  dialogTurnId : String
  roundId : String
  attemptId : String
  attemptIndex : ℕ
  /-- The seconds without data after which the stream counts as stopped. -/
  watchdogTimeoutSecs : Option ℕ
  allowNormalToolJsonRepair : Bool
  hiddenTextTags : List HiddenTextTag

/-- An error of the stream: what it displays, and the provider's error that it wraps. -/
structure StreamFailure where
  message : List Char
  providerError : Option ModelPool.AiProviderError

/-- `TimedStreamItem`, but for the end of the stream. -/
inductive StreamItem (π : Type) where
  | response (response : UnifiedResponse π)
  | failed (failure : StreamFailure)
  | timedOut

/-- `StreamProcessorError`, without cancellation. -/
inductive StreamProcessorError where
  | aiClient (message : List Char)
  | aiProvider (error : ModelPool.AiProviderError)

/-- `StreamProcessError`. -/
structure StreamProcessError where
  error : StreamProcessorError
  hasEffectiveOutput : Bool
  usage : Option UnifiedTokenUsage
  responseModel : Option String

/-- `StreamContext`, with the events that were sent. -/
structure StreamContext (σ γ ι π : Type) where
  options : StreamProcessOptions
  events : List (AgenticEvent γ)
  /-- Thinking of no kind. -/
  fullThinking : List Char
  fullReasoningText : List Char
  fullReasoningSummary : List Char
  reasoningContentPresent : Bool
  thinkingSignature : Option String
  fullText : List Char
  hiddenTextBlocks : List HiddenTextBlock
  hiddenTextParser : HiddenTextStreamParser
  toolCalls : List (ToolCall ι)
  usage : Option UnifiedTokenUsage
  responseModel : Option String
  providerMetadata : Option Json.Value
  modelResponseReplay : Option π
  pendingToolCalls : PendingToolCalls σ
  finalizedToolCallIds : List String
  /-- The kinds of thinking so far. -/
  thinkingStreams : List (Option ReasoningContentKind)
  /-- The kinds whose end was sent. -/
  completedThinkingStreams : List (Option ReasoningContentKind)
  hasEffectiveOutput : Bool
  partialRecoveryReason : Option (List Char)
  tokenLimitFinishReason : Option (List Char)

/-- `UNKNOWN_TOOL_PLACEHOLDER`. -/
def unknownToolPlaceholder : String := "unknown_tool"

/-- `is_token_limit_finish_reason`. -/
def isTokenLimitFinishReason (reason : List Char) : Bool :=
  let normalized := String.ofList (Text.toAsciiLowercase (Text.trim reason))
  normalized ∈ ["length", "max_tokens", "max_output_tokens", "incomplete:max_tokens",
    "incomplete:max_output_tokens"]

/-- `should_retry`. -/
def shouldRetry : ModelPool.ErrorCategory → Bool
  | .auth | .permission | .providerQuota | .providerBilling | .invalidRequest | .contentPolicy
  | .contextOverflow => false
  | .network | .rateLimit | .timeout | .providerUnavailable | .modelError | .unknown => true

mutual

/-- `merge_json_value`: objects are merged, and any other value is replaced. -/
def mergeJsonValue (target : Json.Value) : Json.Value → Json.Value
  | .object overlay => match target with
    | .object fields => .object (mergeFields fields overlay)
    | _ => .object overlay
  | overlay => overlay

/-- The fields of an overlay, one after the other. -/
def mergeFields (fields : List (String × Json.Value)) :
    List (String × Json.Value) → List (String × Json.Value)
  | [] => fields
  | (key, value) :: overlay =>
    let merged := mergeJsonValue ((Json.lookup key fields).getD .null) value
    mergeFields (Json.insertField key merged fields) overlay

end

variable {σ γ ι π : Type}

/-! ## The context -/

namespace StreamContext

/-- `StreamContext::new`. -/
def new (options : StreamProcessOptions) : StreamContext σ γ ι π where
  options := options
  events := []
  fullThinking := []
  fullReasoningText := []
  fullReasoningSummary := []
  reasoningContentPresent := false
  thinkingSignature := none
  fullText := []
  hiddenTextBlocks := []
  hiddenTextParser := HiddenTextStreamParser.new options.hiddenTextTags
  toolCalls := []
  usage := none
  responseModel := none
  providerMetadata := none
  modelResponseReplay := none
  pendingToolCalls := ∅
  finalizedToolCallIds := []
  thinkingStreams := []
  completedThinkingStreams := []
  hasEffectiveOutput := false
  partialRecoveryReason := none
  tokenLimitFinishReason := none

variable (ctx : StreamContext σ γ ι π)

/-- `StreamEventSink::enqueue`. -/
def enqueue (event : AgenticEvent γ) : StreamContext σ γ ι π :=
  { ctx with events := ctx.events ++ [event] }

/-- The event about a text. -/
def textChunk (text : List Char) : AgenticEvent γ :=
  .textChunk ctx.options.sessionId ctx.options.dialogTurnId ctx.options.roundId
    (some ctx.options.attemptId) (some ctx.options.attemptIndex) (String.ofList text)

/-- The event about thinking. -/
def thinkingChunk (content : List Char) (kind : Option ReasoningContentKind) (isEnd : Bool) :
    AgenticEvent γ :=
  .thinkingChunk ctx.options.sessionId ctx.options.dialogTurnId ctx.options.roundId
    (some ctx.options.attemptId) (some ctx.options.attemptIndex) (String.ofList content) kind isEnd

/-- The event about a tool call. -/
def toolEvent (event : ToolEventData γ) : AgenticEvent γ :=
  .toolEvent ctx.options.sessionId ctx.options.dialogTurnId ctx.options.roundId
    (some ctx.options.attemptId) (some ctx.options.attemptIndex) event

/-- `record_finalized_tool_call`: an id that was recorded before is skipped. The parameter draws
the id of a call without one. -/
def recordFinalizedToolCall (newUuid : ℕ → String) (finalized : FinalizedToolCall ι) :
    StreamContext σ γ ι π :=
  let toolName :=
    if finalized.toolName = "" then unknownToolPlaceholder else finalized.toolName
  let toolId :=
    if finalized.toolId = "" then newUuid ctx.toolCalls.length else finalized.toolId
  if toolId ∈ ctx.finalizedToolCallIds then ctx
  else
    { ctx with
      finalizedToolCallIds := ctx.finalizedToolCallIds ++ [toolId]
      toolCalls := ctx.toolCalls ++ [{
        toolId := toolId
        toolName := toolName
        interpretation := finalized.interpretation
        rawArguments := if finalized.rawArguments = [] then none
          else some finalized.rawArguments }] }

/-- `finalize_all_pending_tool_calls`. -/
def finalizeAllPendingToolCalls
    (interpret : ToolCallFinalizeOptions → String → List Char → ι) (newUuid : ℕ → String)
    (completion : ToolCallCompletion) : StreamContext σ γ ι π :=
  let finalized := PendingToolCalls.finalizeAll
    (interpret ⟨completion, ctx.options.allowNormalToolJsonRepair⟩) ctx.pendingToolCalls
  finalized.1.foldl (fun ctx call => ctx.recordFinalizedToolCall newUuid call)
    { ctx with pendingToolCalls := finalized.2 }

/-- One kind of thinking in `send_thinking_end_if_needed`. -/
def sendThinkingEnd (kind : Option ReasoningContentKind) : StreamContext σ γ ι π :=
  if kind ∈ ctx.completedThinkingStreams then ctx
  else
    { ctx with completedThinkingStreams := ctx.completedThinkingStreams ++ [kind] }.enqueue
      (ctx.thinkingChunk [] kind true)

/-- `send_thinking_end_if_needed`. -/
def sendThinkingEndIfNeeded : StreamContext σ γ ι π :=
  ctx.thinkingStreams.foldl sendThinkingEnd ctx

/-- What `handle_text_chunk` and `flush_hidden_text_tail` do with parsed text. -/
def showText (parsed : HiddenTextChunk) : StreamContext σ γ ι π :=
  let ctx := { ctx with hiddenTextBlocks := ctx.hiddenTextBlocks ++ parsed.hiddenBlocks }
  if parsed.visibleText.isEmpty then ctx
  else
    { ctx with
      hasEffectiveOutput := ctx.hasEffectiveOutput || !(Text.trim parsed.visibleText).isEmpty
      fullText := ctx.fullText ++ parsed.visibleText }.enqueue (ctx.textChunk parsed.visibleText)

/-- `handle_text_chunk`. -/
def handleTextChunk (text : List Char) : StreamContext σ γ ι π :=
  let parsed := ctx.hiddenTextParser.pushStr text
  { ctx with hiddenTextParser := parsed.2 }.showText parsed.1

/-- `flush_hidden_text_tail`. -/
def flushHiddenTextTail : StreamContext σ γ ι π :=
  let parsed := ctx.hiddenTextParser.finish
  { ctx with hiddenTextParser := parsed.2 }.showText parsed.1

/-- `handle_thinking_chunk`. Thinking alone is no effective output: it can be retried. -/
def handleThinkingChunk (thinkingContent : List Char)
    (reasoningKind : Option ReasoningContentKind) : StreamContext σ γ ι π :=
  let ctx := match reasoningKind with
    | some .reasoning =>
      { ctx with fullReasoningText := ctx.fullReasoningText ++ thinkingContent }
    | some .summary =>
      { ctx with fullReasoningSummary := ctx.fullReasoningSummary ++ thinkingContent }
    | none => { ctx with fullThinking := ctx.fullThinking ++ thinkingContent }
  let ctx := if reasoningKind ∈ ctx.thinkingStreams then ctx
    else { ctx with thinkingStreams := ctx.thinkingStreams ++ [reasoningKind] }
  ctx.enqueue (ctx.thinkingChunk thinkingContent reasoningKind false)

/-- A tool event that counts as output. -/
def showTool (event : ToolEventData γ) : StreamContext σ γ ι π :=
  { ctx with hasEffectiveOutput := true }.enqueue (ctx.toolEvent event)

/-- The delta that a part of a tool call is. -/
def deltaOf (toolCall : UnifiedToolCall) : ToolCallDelta where
  key := match toolCall.toolCallIndex with
    | some index => .indexed index
    | none => .unindexed
  toolId := toolCall.id
  toolName := toolCall.name
  arguments := toolCall.arguments
  argumentsIsSnapshot := toolCall.argumentsIsSnapshot

variable (ui : OpenUi σ (ToolEventIdentity × γ))
  (interpret : ToolCallFinalizeOptions → String → List Char → ι) (newUuid : ℕ → String)

/-- The events about the outcome of a delta, in their order. -/
def toolEventsOf (outcome : ToolCallDeltaOutcome (ToolEventIdentity × γ) ι) :
    List (ToolEventData γ) :=
  (outcome.earlyDetected.map fun detected =>
      .earlyDetected ⟨detected.toolId, detected.toolName, none⟩).toList ++
    (outcome.paramsPartial.map fun params => .paramsPartial
      ⟨params.toolId, params.toolName, none⟩ (String.ofList params.paramsChunk)).toList ++
    (outcome.genuiStream.map fun stream => .genUIStream stream.1 stream.2).toList

/-- `handle_tool_call_chunk`: the call that the delta ended is recorded first. -/
def handleToolCallChunk (toolCall : UnifiedToolCall) : StreamContext σ γ ι π :=
  let applied := ctx.pendingToolCalls.applyDelta ui (interpret .default) (deltaOf toolCall)
  let ctx := applied.1.finalizedPrevious.toList.foldl
    (fun ctx finalized => ctx.recordFinalizedToolCall newUuid finalized)
    { ctx with pendingToolCalls := applied.2 }
  (toolEventsOf applied.1).foldl showTool ctx

/-! ## The stream -/

/-- What the loop does with the parts of a response other than thinking, text and tool calls. -/
def noteResponse (response : UnifiedResponse π) : StreamContext σ γ ι π :=
  let ctx := match response.responseModel.filter fun model => (Text.trim model.toList) ≠ [] with
    | some model => { ctx with responseModel := some model }
    | none => ctx
  match response.thinkingSignature.filter (· ≠ "") with
  | some signature =>
    { ctx with reasoningContentPresent := true, thinkingSignature := some signature }
  | none => ctx

/-- What the loop does with the usage, the metadata and the items to replay of a response. -/
def noteMetadata (response : UnifiedResponse π) : StreamContext σ γ ι π :=
  let ctx := match response.usage with
    | some usage => { ctx with usage := some usage }
    | none => ctx
  let ctx := match response.providerMetadata, ctx.providerMetadata with
    | some overlay, some existing =>
      { ctx with providerMetadata := some (mergeJsonValue existing overlay) }
    | some overlay, none => { ctx with providerMetadata := some overlay }
    | none, _ => ctx
  match response.modelResponseReplay with
  | some replay => { ctx with modelResponseReplay := some replay }
  | none => ctx

/-- What the loop does with the finish reason of a response. -/
def noteFinishReason (response : UnifiedResponse π) : StreamContext σ γ ι π :=
  match response.finishReason with
  | some reason =>
    let ctx := ctx.finalizeAllPendingToolCalls interpret newUuid
      (response.toolCallCompletion.getD .unknown)
    if isTokenLimitFinishReason reason.toList then
      { ctx with tokenLimitFinishReason := some reason.toList }
    else ctx
  | none => ctx

/-- What the loop does with the reasoning of a response. -/
def noteReasoning (response : UnifiedResponse π) : StreamContext σ γ ι π :=
  match response.reasoningContent with
  | some thinkingContent =>
    let ctx := { ctx with reasoningContentPresent := true }
    if thinkingContent.isEmpty then ctx
    else ctx.handleThinkingChunk thinkingContent response.reasoningContentKind
  | none => ctx

/-- What the loop does with the text of a response. Text that is empty is no text: some models send
it alongside reasoning. -/
def noteText (response : UnifiedResponse π) : StreamContext σ γ ι π :=
  match response.text.filter (· ≠ []) with
  | some text => ctx.sendThinkingEndIfNeeded.handleTextChunk text
  | none => ctx

/-- What the loop does with the tool call of a response. -/
def noteToolCall (response : UnifiedResponse π) : StreamContext σ γ ι π :=
  match response.toolCall with
  | some toolCall =>
    ctx.sendThinkingEndIfNeeded.handleToolCallChunk ui interpret newUuid toolCall
  | none => ctx

/-- One response. -/
def handleResponse (response : UnifiedResponse π) : StreamContext σ γ ι π :=
  let ctx := ((ctx.noteResponse response).noteReasoning response).noteText response
  let ctx := ctx.noteToolCall ui interpret newUuid response
  (ctx.noteMetadata response).noteFinishReason interpret newUuid response

/-- A stream that stops with some output. -/
def recoverPartial (reason : List Char) : StreamContext σ γ ι π :=
  { ctx.sendThinkingEndIfNeeded.finalizeAllPendingToolCalls interpret newUuid .interrupted with
    partialRecoveryReason := some reason }

/-- A stream that comes to nothing. -/
def fail (error : StreamProcessorError) : StreamProcessError :=
  ⟨error, ctx.hasEffectiveOutput, ctx.usage, ctx.responseModel⟩

/-- What the loop does when the stream fails. The rejection of a provider, or a stream that cannot
be read, stays an error even after some output. -/
def handleFailure (failure : StreamFailure) : Except StreamProcessError (StreamContext σ γ ι π) :=
  let errorMsg := "Stream processing error: ".toList ++ failure.message
  let nonRecoverableStreamError := Text.contains errorMsg "SSE Parsing Error".toList ||
    failure.providerError.any fun error => !shouldRetry error.category
  if !nonRecoverableStreamError && ctx.hasEffectiveOutput then
    .ok (ctx.recoverPartial interpret newUuid errorMsg)
  else .error (ctx.fail (match failure.providerError with
    | some error => .aiProvider error
    | none => .aiClient errorMsg))

/-- What the loop does when there was no data for too long. -/
def handleTimeout : Except StreamProcessError (StreamContext σ γ ι π) :=
  let errorMsg := "Stream processor watchdog timeout (no data received for ".toList ++
    (toString (ctx.options.watchdogTimeoutSecs.getD 0)).toList ++ " seconds)".toList
  if ctx.hasEffectiveOutput then .ok (ctx.recoverPartial interpret newUuid errorMsg)
  else .error (ctx.fail (.aiClient errorMsg))

/-- The loop over the stream. -/
def processItems : StreamContext σ γ ι π → List (StreamItem π) →
    Except StreamProcessError (StreamContext σ γ ι π)
  | ctx, [] => .ok ctx
  | ctx, .response response :: items =>
    processItems (ctx.handleResponse ui interpret newUuid response) items
  | ctx, .failed failure :: _ => ctx.handleFailure interpret newUuid failure
  | ctx, .timedOut :: _ => ctx.handleTimeout interpret newUuid

/-- An answer that the output limit cut off is a partial one, unless tool calls go on with it. -/
def noteTokenLimit : StreamContext σ γ ι π :=
  if ctx.partialRecoveryReason.isNone && ctx.toolCalls.isEmpty && !ctx.fullText.isEmpty then
    match ctx.tokenLimitFinishReason with
    | some reason =>
      { ctx with
        tokenLimitFinishReason := none
        partialRecoveryReason := some
          ("response truncated by model output token limit (finish_reason=".toList ++ reason ++
            ")".toList) }
    | none => ctx
  else ctx

/-- What comes after the loop. -/
def finish : StreamContext σ γ ι π :=
  (ctx.sendThinkingEndIfNeeded.flushHiddenTextTail.finalizeAllPendingToolCalls interpret newUuid
    .unknown).noteTokenLimit

end StreamContext

/-- `StreamResult`. -/
structure StreamResult (ι π : Type) where
  fullThinking : List Char
  reasoningContentKind : Option ReasoningContentKind
  reasoningContentPresent : Bool
  thinkingSignature : Option String
  fullText : List Char
  hiddenTextBlocks : List HiddenTextBlock
  toolCalls : List (ToolCall ι)
  usage : Option UnifiedTokenUsage
  responseModel : Option String
  providerMetadata : Option Json.Value
  modelResponseReplay : Option π
  hasEffectiveOutput : Bool
  partialRecoveryReason : Option (List Char)

/-- `into_result`: a summary of the thinking is preferred. -/
def StreamContext.intoResult (ctx : StreamContext σ γ ι π) : StreamResult ι π :=
  let thinking :=
    if ctx.fullReasoningSummary ≠ [] then (ctx.fullReasoningSummary, some .summary)
    else if ctx.fullReasoningText ≠ [] then (ctx.fullReasoningText, some .reasoning)
    else (ctx.fullThinking, none)
  { fullThinking := thinking.1
    reasoningContentKind := thinking.2
    reasoningContentPresent := ctx.reasoningContentPresent
    thinkingSignature := ctx.thinkingSignature
    fullText := ctx.fullText
    hiddenTextBlocks := ctx.hiddenTextBlocks
    toolCalls := ctx.toolCalls
    usage := ctx.usage
    responseModel := ctx.responseModel
    providerMetadata := ctx.providerMetadata
    modelResponseReplay := ctx.modelResponseReplay
    hasEffectiveOutput := ctx.hasEffectiveOutput
    partialRecoveryReason := ctx.partialRecoveryReason }

/-- `process_stream_with_options`, up to `into_result`. -/
def processStreamWithOptions (ui : OpenUi σ (ToolEventIdentity × γ))
    (interpret : ToolCallFinalizeOptions → String → List Char → ι) (newUuid : ℕ → String)
    (options : StreamProcessOptions) (items : List (StreamItem π)) :
    Except StreamProcessError (StreamContext σ γ ι π) :=
  ((StreamContext.new options).processItems ui interpret newUuid items).map fun ctx =>
    ctx.finish interpret newUuid

end StreamProcessor

end OpenBitFun
