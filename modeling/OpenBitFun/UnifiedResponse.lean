import Mathlib
import OpenBitFun.AgenticEvent
import OpenBitFun.Json

/-!
# Unified responses

What the adapters of the providers make of a model's stream (`unified.rs`): a sequence of
responses, each with a part of the text, of the reasoning or of a tool call, and with what the
provider says about the whole answer. The items to replay an answer with are left to a type
parameter.
-/

namespace OpenBitFun

universe u

/-- `UnifiedToolCall`: a delta of a streamed tool call. -/
structure UnifiedToolCall where
  toolCallIndex : Option ℕ
  id : Option String
  name : Option String
  arguments : Option (List Char)
  argumentsIsSnapshot : Bool
  deriving DecidableEq

/-- `UnifiedTokenUsage`. -/
structure UnifiedTokenUsage where
  promptTokenCount : ℕ
  candidatesTokenCount : ℕ
  totalTokenCount : ℕ
  reasoningTokenCount : Option ℕ
  cachedContentTokenCount : Option ℕ
  cacheCreationTokenCount : Option ℕ
  deriving DecidableEq

/-- `ToolCallCompletion`: how the provider says that the answer ended. -/
inductive ToolCallCompletion where
  | normalToolUse
  | normalNoToolUse
  | outputLimit
  | contentFiltered
  | failed
  | interrupted
  | unknown
  deriving DecidableEq, Repr

/-- `UnifiedResponse`. -/
structure UnifiedResponse (ρ : Type u) where
  /-- The model as the provider reports it. -/
  responseModel : Option String
  text : Option (List Char)
  reasoningContent : Option (List Char)
  reasoningContentKind : Option ReasoningContentKind
  thinkingSignature : Option String
  toolCall : Option UnifiedToolCall
  usage : Option UnifiedTokenUsage
  toolCallCompletion : Option ToolCallCompletion
  finishReason : Option String
  providerMetadata : Option Json.Value
  modelResponseReplay : Option ρ

/-- The default response has nothing. -/
def UnifiedResponse.default {ρ : Type u} : UnifiedResponse ρ where
  responseModel := none
  text := none
  reasoningContent := none
  reasoningContentKind := none
  thinkingSignature := none
  toolCall := none
  usage := none
  toolCallCompletion := none
  finishReason := none
  providerMetadata := none
  modelResponseReplay := none

end OpenBitFun
