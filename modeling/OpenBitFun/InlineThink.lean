import OpenBitFun.Text
import OpenBitFun.UnifiedResponse

/-!
# Thinking inside of the text

Some models write their reasoning into the text, between `<think>` and `</think>`
(`inline_think.rs`). When the text of a stream starts with the opening tag, the parser divides it
into text and thinking; else it leaves the text alone. What could still become a tag is kept back.
Chunks are strings, so they are cut between characters, and the byte positions of the program are
numbers of characters here.
-/

namespace OpenBitFun

namespace InlineThink

universe u

variable {ρ : Type u}

/-- `INLINE_THINK_OPEN_TAG`. -/
def openTag : List Char := "<think>".toList

/-- `INLINE_THINK_CLOSE_TAG`. -/
def closeTag : List Char := "</think>".toList

/-! ## What the provider says about the answer -/

/-- `DeferredResponseMeta`: held back while no segment can carry it. -/
structure DeferredResponseMeta where
  usage : Option UnifiedTokenUsage
  toolCallCompletion : Option ToolCallCompletion
  finishReason : Option String
  providerMetadata : Option Json.Value

namespace DeferredResponseMeta

/-- The default has nothing. -/
def default : DeferredResponseMeta := ⟨none, none, none, none⟩

/-- `from_response`: takes it out of a response. -/
def fromResponse (response : UnifiedResponse ρ) : DeferredResponseMeta × UnifiedResponse ρ :=
  (⟨response.usage, response.toolCallCompletion, response.finishReason,
      response.providerMetadata⟩,
    { response with
      usage := none
      toolCallCompletion := none
      finishReason := none
      providerMetadata := none })

/-- `merge`: what comes later replaces what was there. -/
def merge (held other : DeferredResponseMeta) : DeferredResponseMeta where
  usage := other.usage.or held.usage
  toolCallCompletion := other.toolCallCompletion.or held.toolCallCompletion
  finishReason := other.finishReason.or held.finishReason
  providerMetadata := other.providerMetadata.or held.providerMetadata

/-- `apply_to`: fills in what the response does not have. -/
def applyTo (held : DeferredResponseMeta) (response : UnifiedResponse ρ) : UnifiedResponse ρ :=
  { response with
    usage := response.usage.or held.usage
    toolCallCompletion := response.toolCallCompletion.or held.toolCallCompletion
    finishReason := response.finishReason.or held.finishReason
    providerMetadata := response.providerMetadata.or held.providerMetadata }

/-- `is_empty`. -/
def isEmpty (held : DeferredResponseMeta) : Bool :=
  held.usage.isNone && held.toolCallCompletion.isNone && held.finishReason.isNone &&
    held.providerMetadata.isNone

@[simp] theorem merge_default (held : DeferredResponseMeta) : held.merge default = held := by
  simp [merge, default]

@[simp] theorem applyTo_default (response : UnifiedResponse ρ) :
    default.applyTo response = response := by
  simp [applyTo, default]

end DeferredResponseMeta

/-! ## The parser's state -/

/-- `InlineThinkActivation`. -/
inductive InlineThinkActivation where
  /-- All text so far could be the start of an opening tag, behind white space. -/
  | unknown
  | enabled
  | disabled
  deriving DecidableEq, Repr

/-- `InlineThinkMode`. -/
inductive InlineThinkMode where
  | text
  | thinking
  deriving DecidableEq, Repr

/-- The tag that ends a mode. -/
def InlineThinkMode.marker : InlineThinkMode → List Char
  | .text => openTag
  | .thinking => closeTag

/-- The mode behind the tag. -/
def InlineThinkMode.other : InlineThinkMode → InlineThinkMode
  | .text => .thinking
  | .thinking => .text

/-- `InlineThinkSegment`. -/
inductive InlineThinkSegment where
  | text (content : List Char)
  | thinking (content : List Char)
  deriving DecidableEq, Repr

/-- `InlineThinkParser`. -/
structure InlineThinkParser where
  enabled : Bool
  activation : InlineThinkActivation
  mode : InlineThinkMode
  /-- The end of the text that may be the start of the next tag. -/
  pendingTail : List Char
  /-- The whole text, while the activation is unknown. -/
  initialProbe : List Char
  deferredMeta : DeferredResponseMeta

/-- `InlineThinkParser::new`. -/
def new (enabled : Bool) : InlineThinkParser where
  enabled := enabled
  activation := .unknown
  mode := .text
  pendingTail := []
  initialProbe := []
  deferredMeta := .default

/-! ## Dividing text -/

/-- `longest_suffix_prefix_len`: how much of the end of a text may be the start of a marker. -/
def longestSuffixPrefixLen (value marker : List Char) : ℕ :=
  ((List.range' 1 (min value.length (marker.length - 1))).reverse.find? fun len =>
    (marker.take len).isSuffixOf value).getD 0

/-- The segment of a mode. -/
def InlineThinkMode.segment : InlineThinkMode → List Char → InlineThinkSegment
  | .text, content => .text content
  | .thinking, content => .thinking content

/-- `push_segment`. -/
def pushSegment (mode : InlineThinkMode) (segments : List InlineThinkSegment)
    (content : List Char) : List InlineThinkSegment :=
  if content.isEmpty then segments else segments ++ [mode.segment content]

theorem InlineThinkMode.marker_ne_nil : ∀ mode : InlineThinkMode, mode.marker ≠ []
  | .text => by decide
  | .thinking => by decide

/-- The loop of `parse_enabled_text`, with the mode and the tail that it leaves. -/
def parseFrom (mode : InlineThinkMode) (segments : List InlineThinkSegment) (data : List Char) :
    List InlineThinkSegment × InlineThinkMode × List Char :=
  match _h : Text.find data mode.marker with
  | some markerIdx =>
    parseFrom mode.other (pushSegment mode segments (data.take markerIdx))
      (data.drop (markerIdx + mode.marker.length))
  | none =>
    let flushLen := data.length - longestSuffixPrefixLen data mode.marker
    (pushSegment mode segments (data.take flushLen), mode, data.drop flushLen)
termination_by data.length
decreasing_by exact Text.drop_lt (Text.find_eq_some _h).1 mode.marker_ne_nil

/-- The response that carries a segment. -/
def InlineThinkSegment.response : InlineThinkSegment → UnifiedResponse ρ
  | .text content => { UnifiedResponse.default with text := some content }
  | .thinking content => { UnifiedResponse.default with reasoningContent := some content }

/-- `last_mut` with a change. -/
def modifyLast {α : Type u} (f : α → α) : List α → List α
  | [] => []
  | [a] => [f a]
  | a :: b :: l => a :: modifyLast f (b :: l)

namespace InlineThinkParser

/-- `parse_enabled_text`. -/
def parseEnabledText (p : InlineThinkParser) (text : List Char) :
    List InlineThinkSegment × InlineThinkParser :=
  let parsed := parseFrom p.mode [] (p.pendingTail ++ text)
  (parsed.1, { p with mode := parsed.2.1, pendingTail := parsed.2.2 })

/-- `consume_unknown_text`. -/
def consumeUnknownText (p : InlineThinkParser) (text : List Char) :
    List InlineThinkSegment × InlineThinkParser :=
  let probe := p.initialProbe ++ text
  let trimmed := Text.trimStart probe
  if trimmed.isEmpty then ([], { p with initialProbe := probe })
  else if openTag.isPrefixOf trimmed then
    { p with activation := .enabled, initialProbe := [] }.parseEnabledText probe
  else if trimmed.isPrefixOf openTag then ([], { p with initialProbe := probe })
  else ([.text probe], { p with activation := .disabled, initialProbe := [] })

/-! ## Responses -/

/-- `attach_meta_to_segments`: the last segment carries what was held back. -/
def attachMetaToSegments (p : InlineThinkParser) (segments : List InlineThinkSegment)
    (currentMeta : DeferredResponseMeta) : List (UnifiedResponse ρ) × InlineThinkParser :=
  let merged := p.deferredMeta.merge currentMeta
  if segments.isEmpty then
    ([], { p with deferredMeta := if merged.isEmpty then .default else merged })
  else
    (modifyLast merged.applyTo (segments.map InlineThinkSegment.response),
      { p with deferredMeta := .default })

/-- `normalize_content`. -/
def normalizeContent (p : InlineThinkParser) (response : UnifiedResponse ρ) :
    List (UnifiedResponse ρ) × InlineThinkParser :=
  if !p.enabled then ([response], p)
  else match response.text with
    | none => ([response], p)
    | some text =>
      -- a provider that has reasoning or tool calls of its own
      if response.reasoningContent.isSome || response.toolCall.isSome ||
          response.thinkingSignature.isSome then ([response], p)
      else
        let currentMeta := (DeferredResponseMeta.fromResponse response).1
        let parsed := match p.activation with
          | .unknown => p.consumeUnknownText text
          | .enabled => p.parseEnabledText text
          | .disabled => ([.text text], p)
        parsed.2.attachMetaToSegments parsed.1 currentMeta

/-- `normalize_response`: the model that was observed stays with the first response. -/
def normalizeResponse (p : InlineThinkParser) (response : UnifiedResponse ρ) :
    List (UnifiedResponse ρ) × InlineThinkParser :=
  let normalized := p.normalizeContent { response with responseModel := none }
  match response.responseModel, normalized.1 with
  | none, responses => (responses, normalized.2)
  | some model, first :: rest =>
    ({ first with responseModel := some model } :: rest, normalized.2)
  | some model, [] =>
    ([{ UnifiedResponse.default with responseModel := some model }], normalized.2)

/-- `flush`: at the end of the stream. -/
def flush (p : InlineThinkParser) : List (UnifiedResponse ρ) × InlineThinkParser :=
  if !p.enabled then ([], p)
  else
    let flushed : List InlineThinkSegment × InlineThinkParser := match p.activation with
      | .unknown => (pushSegment .text [] p.initialProbe, { p with initialProbe := [] })
      | .enabled => (pushSegment p.mode [] p.pendingTail, { p with pendingTail := [] })
      | .disabled => ([], p)
    flushed.2.attachMetaToSegments flushed.1 .default

end InlineThinkParser

end InlineThink

end OpenBitFun
