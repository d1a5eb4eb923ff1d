import Mathlib
import OpenBitFun.AssocMap

/-!
# Streamed tool calls

A model streams its tool calls in deltas, each under the key of its stream
(`tool_call_accumulator.rs`). The call that is pending under a key takes in deltas until one comes
with another id, or the stream ends. Arguments come in pieces, or as snapshots of all there is so
far; for generated user interfaces a piece that goes on from all the arguments counts as a snapshot
although it is not declared as one. What is read out of the arguments is left to two parameters:
the scanner that streams the source of a user interface out of unfinished arguments, and the
parsing (and repair) of finished ones.
-/

namespace OpenBitFun

namespace ToolCallAccumulator

universe u

/-! ## Data -/

/-- `ToolCallStreamKey`. -/
inductive ToolCallStreamKey where
  | indexed (index : ℕ)
  | unindexed
  deriving DecidableEq, Repr

/-- Keys with an index come first. -/
def ToolCallStreamKey.ble : ToolCallStreamKey → ToolCallStreamKey → Bool
  | .indexed i, .indexed j => i ≤ j
  | .unindexed, .indexed _ => false
  | _, .unindexed => true

instance : LE ToolCallStreamKey := ⟨fun a b => a.ble b⟩

instance : DecidableLE ToolCallStreamKey := fun a b => inferInstanceAs (Decidable (a.ble b = true))

/-- The scanner of a user interface's source: what it remembers between deltas, how it starts
over for a new call and for replaced arguments, and what it makes of the arguments so far. -/
structure OpenUi (σ γ : Type u) where
  start : σ
  replaced : σ → σ
  scan : σ → (toolId : String) → (rawArguments : List Char) → σ × Option γ

/-- `PendingToolCall`. -/
structure PendingToolCall (σ : Type u) where
  toolId : String
  toolName : String
  rawArguments : List Char
  earlyDetectedEmitted : Bool
  openui : σ

/-- `FinalizedToolCall`: `interpretation` is what parsing makes of the arguments. -/
structure FinalizedToolCall (ι : Type u) where
  toolId : String
  toolName : String
  rawArguments : List Char
  interpretation : ι
  deriving DecidableEq

/-- `EarlyDetectedToolCall`. -/
structure EarlyDetectedToolCall where
  toolId : String
  toolName : String
  deriving DecidableEq

/-- `ToolCallParamsChunk`. -/
structure ToolCallParamsChunk where
  toolId : String
  toolName : String
  paramsChunk : List Char
  deriving DecidableEq

/-- `ToolCallDeltaOutcome`. -/
structure ToolCallDeltaOutcome (γ ι : Type u) where
  finalizedPrevious : Option (FinalizedToolCall ι)
  earlyDetected : Option EarlyDetectedToolCall
  paramsPartial : Option ToolCallParamsChunk
  genuiStream : Option γ

/-- The default outcome: nothing happened. -/
def ToolCallDeltaOutcome.default {γ ι : Type u} : ToolCallDeltaOutcome γ ι :=
  ⟨none, none, none, none⟩

/-- The arguments of `apply_delta`. -/
structure ToolCallDelta where
  key : ToolCallStreamKey
  toolId : Option String
  toolName : Option String
  arguments : Option (List Char)
  argumentsIsSnapshot : Bool
  deriving DecidableEq

/-- The id of a delta, where it is not empty. -/
def ToolCallDelta.id? (d : ToolCallDelta) : Option String := d.toolId.filter (· ≠ "")

/-- The arguments of a delta, where they are not empty. -/
def ToolCallDelta.arguments? (d : ToolCallDelta) : Option (List Char) := d.arguments.filter (· ≠ [])

/-- The tool whose arguments are a user interface. -/
def generativeUi : String := "GenerativeUI"

/-! ## Operations -/

section

variable {σ γ ι : Type u} (ui : OpenUi σ γ) (interpret : String → List Char → ι)

namespace PendingToolCall

/-- The default call: nothing is pending. -/
def default : PendingToolCall σ := ⟨"", "", [], false, ui.start⟩

/-- `has_pending`. -/
def hasPending (p : PendingToolCall σ) : Bool := p.toolId ≠ ""

/-- `has_meaningful_payload`. -/
def hasMeaningfulPayload (p : PendingToolCall σ) : Bool := p.toolName ≠ "" || p.rawArguments ≠ []

/-- `start_new`. -/
def startNew (toolId : String) (toolName : Option String) : PendingToolCall σ :=
  ⟨toolId, toolName.getD "", [], false, ui.start⟩

/-- `update_tool_name_if_missing`. -/
def updateToolNameIfMissing (p : PendingToolCall σ) (toolName : Option String) :
    PendingToolCall σ :=
  if p.toolName = "" then { p with toolName := toolName.getD "" } else p

/-- `append_arguments`. -/
def appendArguments (p : PendingToolCall σ) (chunk : List Char) : PendingToolCall σ :=
  { p with rawArguments := p.rawArguments ++ chunk }

/-- `replace_arguments`. -/
def replaceArguments (p : PendingToolCall σ) (snapshot : List Char) : PendingToolCall σ :=
  { p with rawArguments := snapshot, openui := ui.replaced p.openui }

/-- `finalize`: the call that was pending, and what is left. -/
def finalize (p : PendingToolCall σ) : Option (FinalizedToolCall ι) × PendingToolCall σ :=
  if !p.hasPending then (none, p)
  else
    (if p.hasMeaningfulPayload then
      some ⟨p.toolId, p.toolName, p.rawArguments, interpret p.toolName p.rawArguments⟩
    else none,
      { p with toolId := "", toolName := "", rawArguments := [], earlyDetectedEmitted := false })

/-- The part of `apply_delta` about ids and names. -/
def identify (p : PendingToolCall σ) (d : ToolCallDelta) :
    Option (FinalizedToolCall ι) × PendingToolCall σ :=
  match d.id? with
  | some toolId =>
    if p.toolId ≠ toolId then ((p.finalize interpret).1, startNew ui toolId d.toolName)
    else (none, p.updateToolNameIfMissing d.toolName)
  | none =>
    if d.toolName.any (· ≠ "") then (none, p.updateToolNameIfMissing d.toolName) else (none, p)

/-- The part of `apply_delta` about early detection. -/
def detect (p : PendingToolCall σ) : Option EarlyDetectedToolCall × PendingToolCall σ :=
  if p.hasPending && p.toolName ≠ "" && !p.earlyDetectedEmitted then
    (some ⟨p.toolId, p.toolName⟩, { p with earlyDetectedEmitted := true })
  else (none, p)

/-- The arguments of a delta are a snapshot, declared or (for a user interface) by their shape. -/
def takesSnapshot (p : PendingToolCall σ) (isSnapshot : Bool) (chunk : List Char) : Bool :=
  isSnapshot ||
    (p.toolName = generativeUi && p.rawArguments ≠ [] && p.rawArguments.isPrefixOf chunk)

/-- A chunk of arguments. A snapshot that goes on from the arguments leaves the scanner alone. -/
def takeArguments (p : PendingToolCall σ) (isSnapshot : Bool) (chunk : List Char) :
    PendingToolCall σ :=
  if p.takesSnapshot isSnapshot chunk then
    if p.rawArguments.isPrefixOf chunk then { p with rawArguments := chunk }
    else p.replaceArguments ui chunk
  else p.appendArguments chunk

/-- The part of `apply_delta` about arguments. -/
def receive (p : PendingToolCall σ) (d : ToolCallDelta) :
    Option ToolCallParamsChunk × Option γ × PendingToolCall σ :=
  match d.arguments? with
  | none => (none, none, p)
  | some chunk =>
    if p.hasPending then
      let taken := p.takeArguments ui d.argumentsIsSnapshot chunk
      if taken.toolName = generativeUi then
        let scanned := ui.scan taken.openui taken.toolId taken.rawArguments
        (none, scanned.2, { taken with openui := scanned.1 })
      else (some ⟨taken.toolId, taken.toolName, chunk⟩, none, taken)
    else (none, none, p)

/-- `apply_delta` for the call that is pending under the key of the delta. -/
def apply (p : PendingToolCall σ) (d : ToolCallDelta) :
    ToolCallDeltaOutcome γ ι × PendingToolCall σ :=
  let identified := p.identify ui interpret d
  let detected := identified.2.detect
  let received := detected.2.receive ui d
  (⟨identified.1, detected.1, received.1, received.2.1⟩, received.2.2)

end PendingToolCall

/-- `PendingToolCalls`. -/
abbrev PendingToolCalls (σ : Type u) := AssocMap ToolCallStreamKey (PendingToolCall σ)

namespace PendingToolCalls

/-- `apply_delta`. A key is entered by its first delta with an id; what comes before is dropped. -/
def applyDelta (calls : PendingToolCalls σ) (d : ToolCallDelta) :
    ToolCallDeltaOutcome γ ι × PendingToolCalls σ :=
  match calls.lookup d.key with
  | some pending =>
    let applied := pending.apply ui interpret d
    (applied.1, calls.insert d.key applied.2)
  | none =>
    if d.id?.isSome then
      let applied := (PendingToolCall.default ui).apply ui interpret d
      (applied.1, calls.insert d.key applied.2)
    else (.default, calls)

/-- `finalize_all`: the calls that are pending, in the order of their keys. -/
def finalizeAll (calls : PendingToolCalls σ) : List (FinalizedToolCall ι) × PendingToolCalls σ :=
  (calls.iter.filterMap fun entry => (entry.2.finalize interpret).1, ∅)

/-- Several deltas, with their outcomes. -/
def applyAll (calls : PendingToolCalls σ) : List ToolCallDelta →
    List (ToolCallDeltaOutcome γ ι) × PendingToolCalls σ
  | [] => ([], calls)
  | d :: ds =>
    let applied := calls.applyDelta ui interpret d
    let rest := applyAll applied.2 ds
    (applied.1 :: rest.1, rest.2)

end PendingToolCalls

end

end ToolCallAccumulator

end OpenBitFun
