import Mathlib

/-!
# Agentic events

`AgenticEvent` is what the runtime tells its clients. Every variant keeps the fields that the
journal and the queue of the runtime read; what they only carry along (prompts, counters, timings,
results) is one value `rest` of a type `ρ` that nothing here looks into.
-/

namespace OpenBitFun

/-- `ToolEventIdentity`. -/
structure ToolEventIdentity where
  /-- The tool call. -/
  toolId : String
  /-- The provider-facing name. -/
  toolName : String
  /-- The runtime target when it differs from the provider-facing name. -/
  effectiveToolName : Option String := none
  deriving DecidableEq, Repr

/-- `ToolEventData`: what happened to a tool call. -/
inductive ToolEventData (ρ : Type) where
  | earlyDetected (identity : ToolEventIdentity)
  | paramsPartial (identity : ToolEventIdentity) (params : String)
  | genUIStream (identity : ToolEventIdentity) (rest : ρ)
  | queued (identity : ToolEventIdentity) (rest : ρ)
  | waiting (identity : ToolEventIdentity) (rest : ρ)
  | started (identity : ToolEventIdentity) (rest : ρ)
  | progress (identity : ToolEventIdentity) (rest : ρ)
  | streaming (identity : ToolEventIdentity) (rest : ρ)
  | streamChunk (identity : ToolEventIdentity) (rest : ρ)
  | confirmationNeeded (identity : ToolEventIdentity) (rest : ρ)
  | confirmed (identity : ToolEventIdentity)
  | rejected (identity : ToolEventIdentity)
  | completed (identity : ToolEventIdentity) (rest : ρ)
  | failed (identity : ToolEventIdentity) (rest : ρ)
  | cancelled (identity : ToolEventIdentity) (rest : ρ)
  deriving DecidableEq

/-- `ReasoningContentKind`. -/
inductive ReasoningContentKind where
  | reasoning
  | summary
  deriving DecidableEq, Repr

/-- `AgenticEvent`. -/
inductive AgenticEvent (ρ : Type) where
  | sessionCreated (sessionId : String) (rest : ρ)
  | sessionStateChanged (sessionId : String) (rest : ρ)
  | sessionHistoryChanged (sessionId : String) (rest : ρ)
  | sessionDeleted (sessionId : String)
  | sessionTitleGenerated (sessionId : String) (rest : ρ)
  | promptSuggestionGenerated (sessionId turnId : String) (rest : ρ)
  | imageAnalysisStarted (sessionId : String) (rest : ρ)
  | imageAnalysisCompleted (sessionId : String) (rest : ρ)
  | dialogTurnStarted (sessionId turnId : String) (rest : ρ)
  | subagentSessionLinked (sessionId subagentDialogTurnId : String) (rest : ρ)
  | dialogTurnCompleted (sessionId turnId : String) (rest : ρ)
  | dialogTurnCancelled (sessionId turnId : String)
  | dialogTurnInterrupted (sessionId turnId : String) (executionGeneration : Nat) (rest : ρ)
  | dialogTurnRecovered (sessionId turnId : String) (executionGeneration : Nat)
  | dialogTurnFailed (sessionId turnId : String) (rest : ρ)
  | tokenUsageUpdated (sessionId turnId : String) (rest : ρ)
  | contextCompressionStarted (sessionId turnId : String) (rest : ρ)
  | contextCompressionCompleted (sessionId turnId : String) (rest : ρ)
  | contextCompressionFailed (sessionId turnId : String) (rest : ρ)
  | threadGoalUpdated (sessionId : String) (rest : ρ)
  | modelRoundStarted (sessionId turnId roundId : String) (rest : ρ)
  | modelRoundAttemptSuperseded (sessionId turnId roundId : String) (rest : ρ)
  | modelRoundCompleted (sessionId turnId roundId : String) (rest : ρ)
  | textChunk (sessionId turnId roundId : String) (attemptId : Option String)
      (attemptIndex : Option Nat) (text : String)
  | thinkingChunk (sessionId turnId roundId : String) (attemptId : Option String)
      (attemptIndex : Option Nat) (content : String) (reasoningKind : Option ReasoningContentKind)
      (isEnd : Bool)
  | toolEvent (sessionId turnId roundId : String) (attemptId : Option String)
      (attemptIndex : Option Nat) (toolEvent : ToolEventData ρ)
  | deepReviewQueueStateChanged (sessionId turnId : String) (rest : ρ)
  | systemError (sessionId : Option String) (rest : ρ)
  | userSteeringInjected (sessionId turnId : String) (rest : ρ)
  | sessionModelFallbackApplied (sessionId : String) (rest : ρ)
  | sessionReasoningPresetAutoCleared (sessionId : String) (rest : ρ)
  deriving DecidableEq

variable {ρ : Type}

/-- The variants of `ToolEventData`: what `std::mem::discriminant` compares. -/
inductive ToolEventKind where
  | earlyDetected | paramsPartial | genUIStream | queued | waiting | started | progress
  | streaming | streamChunk | confirmationNeeded | confirmed | rejected | completed | failed
  | cancelled
  deriving DecidableEq, Repr

/-- `std::mem::discriminant` of a tool event. -/
def ToolEventData.discriminant : ToolEventData ρ → ToolEventKind
  | .earlyDetected .. => .earlyDetected
  | .paramsPartial .. => .paramsPartial
  | .genUIStream .. => .genUIStream
  | .queued .. => .queued
  | .waiting .. => .waiting
  | .started .. => .started
  | .progress .. => .progress
  | .streaming .. => .streaming
  | .streamChunk .. => .streamChunk
  | .confirmationNeeded .. => .confirmationNeeded
  | .confirmed .. => .confirmed
  | .rejected .. => .rejected
  | .completed .. => .completed
  | .failed .. => .failed
  | .cancelled .. => .cancelled

/-- The identity of the tool call that a tool event is about. -/
def ToolEventData.identity : ToolEventData ρ → ToolEventIdentity
  | .earlyDetected identity | .paramsPartial identity _ | .genUIStream identity _
  | .queued identity _ | .waiting identity _ | .started identity _ | .progress identity _
  | .streaming identity _ | .streamChunk identity _ | .confirmationNeeded identity _
  | .confirmed identity | .rejected identity | .completed identity _ | .failed identity _
  | .cancelled identity _ => identity

/-- `AgenticEvent::session_id`. -/
def AgenticEvent.sessionId : AgenticEvent ρ → Option String
  | .sessionCreated s _ | .sessionStateChanged s _ | .sessionHistoryChanged s _
  | .sessionDeleted s | .sessionTitleGenerated s _ | .promptSuggestionGenerated s _ _
  | .imageAnalysisStarted s _ | .imageAnalysisCompleted s _ | .dialogTurnStarted s _ _
  | .subagentSessionLinked s _ _ | .dialogTurnCompleted s _ _ | .tokenUsageUpdated s _ _
  | .contextCompressionStarted s _ _ | .contextCompressionCompleted s _ _
  | .contextCompressionFailed s _ _ | .threadGoalUpdated s _ | .dialogTurnCancelled s _
  | .dialogTurnInterrupted s _ _ _ | .dialogTurnRecovered s _ _ | .dialogTurnFailed s _ _
  | .modelRoundStarted s _ _ _ | .modelRoundAttemptSuperseded s _ _ _ | .textChunk s _ _ _ _ _
  | .thinkingChunk s _ _ _ _ _ _ _ | .modelRoundCompleted s _ _ _ | .toolEvent s _ _ _ _ _
  | .userSteeringInjected s _ _ | .deepReviewQueueStateChanged s _ _
  | .sessionModelFallbackApplied s _ | .sessionReasoningPresetAutoCleared s _ => some s
  | .systemError s _ => s

/-- `AgenticEvent::turn_id`: the dialog turn of an event that belongs to one. -/
def AgenticEvent.turnId : AgenticEvent ρ → Option String
  | .dialogTurnStarted _ t _ | .dialogTurnCompleted _ t _ | .dialogTurnCancelled _ t
  | .dialogTurnInterrupted _ t _ _ | .dialogTurnRecovered _ t _ | .dialogTurnFailed _ t _
  | .tokenUsageUpdated _ t _ | .contextCompressionStarted _ t _
  | .contextCompressionCompleted _ t _ | .contextCompressionFailed _ t _
  | .modelRoundStarted _ t _ _ | .modelRoundAttemptSuperseded _ t _ _
  | .modelRoundCompleted _ t _ _ | .textChunk _ t _ _ _ _ | .thinkingChunk _ t _ _ _ _ _ _
  | .toolEvent _ t _ _ _ _ | .deepReviewQueueStateChanged _ t _ | .userSteeringInjected _ t _ =>
    some t
  | _ => none

end OpenBitFun
