import OpenBitFun.Json
import OpenBitFun.Text

/-!
# Projections of Router observations

The Router keeps bounded projections of what it observes. Text is cut to a token budget by
`truncate`, JSON by `compactJson`, and an observation's known fields by `projectObservation`. All of
them measure with a `RouterTokenCounter`, which is a parameter.
-/

namespace OpenBitFun

namespace Router

open Json (Value)

/-- `RouterTokenCounter`: a measure of text, and the projections it may have cached. -/
structure RouterTokenCounter where
  /-- The number of tokens of a text. -/
  count : String → ℕ
  /-- The counter's name. -/
  name : String
  /-- A projection of a rendered value to a budget, if one is remembered. -/
  cachedProjection : String → ℕ → Option Value

/-- `Utf8ByteBudget`: one token a byte, and no cache. -/
def Utf8ByteBudget : RouterTokenCounter where
  count text := Text.byteLength text.toList
  name := "utf8_byte_upper_bound"
  cachedProjection _ _ := none

/-! ## Text -/

/-- The guard against very long sources: their middle is left out before any counting. -/
def truncateSource (text : List Char) : List Char :=
  if Text.byteLength text > 65536 then
    Text.takeBytes 16384 text ++ "\n[source middle omitted]\n".toList ++
      Text.takeBytesEnd 16384 text
  else text

/-- The first half and the second half of the `keep` characters that are kept of a text. -/
def headTail (text : List Char) (keep : ℕ) : List Char :=
  let head := keep / 2
  let tail := keep - head
  text.take head ++ "\n[omitted]\n".toList ++ text.drop (text.length - tail)

/-- The binary search of `truncate` for the number of characters to keep. -/
def truncateSearch (counter : RouterTokenCounter) (text : List Char) (budget low high : ℕ)
    (best : List Char) : List Char :=
  if low ≤ high then
    let keep := low + (high - low) / 2
    let candidate := headTail text keep
    if counter.count (String.ofList candidate) ≤ budget then
      truncateSearch counter text budget (keep + 1) high candidate
    else if keep = 0 then best
    else truncateSearch counter text budget low (keep - 1) best
  else best
termination_by high + 1 - low
decreasing_by all_goals omega

/-- `truncate`: a marked head and tail of the text within the budget. The shortened source is
shorter than the guard, so the source's recursive call meets the guard at most once. -/
def truncate (text : String) (budget : ℕ) (counter : RouterTokenCounter) : String :=
  let text := truncateSource text.toList
  if counter.count (String.ofList text) ≤ budget then String.ofList text
  else String.ofList (truncateSearch counter text budget 0 text.length [])

/-- The note that stands for repeated lines. -/
def repeatNote (repeats : ℕ) : List Char :=
  s!"\n[omitted {repeats} exact repeated lines]\n".toList

/-- The loop of `excerpt`: adjacent repetitions of a line are counted, not kept. -/
def collapseRepeats (previous : List Char) (repeats : ℕ) : List (List Char) → List Char
  | [] => if repeats > 0 then repeatNote repeats else []
  | line :: lines =>
    if line = previous && !previous.isEmpty then collapseRepeats previous (repeats + 1) lines
    else (if repeats > 0 then repeatNote repeats else []) ++ line ++ collapseRepeats line 0 lines

/-- `excerpt`: the text without exact repetitions of adjacent lines, within the budget. -/
def excerpt (text : String) (budget : ℕ) (counter : RouterTokenCounter) : String :=
  let output := collapseRepeats [] 0 (Text.splitInclusive text.toList)
  truncate (String.ofList output) budget counter

/-! ## Failure evidence -/

/-- What `failure_evidence` collects while it scans the lines. -/
structure EvidenceScan where
  /-- The two lines before the current one. -/
  before : List (ℕ × List Char)
  /-- The newest 24 lines near a failure, with their line numbers. -/
  selected : List (ℕ × List Char)
  /-- The newest eight lines that name a failure. -/
  anchors : List (List Char)
  /-- How many more lines to select. -/
  following : ℕ

/-- The words that name a failure. -/
def failureWords : List String :=
  ["assert", "error", "traceback", "panic", "failed", "exception", "stack trace"]

/-- A line cut at 1024 bytes. -/
def boundedLine (line : List Char) : List Char :=
  let cut := Text.takeBytes 1024 line
  if cut.length < line.length then cut ++ " [omitted]".toList else line

/-- The lines before a failure that are not selected yet. -/
def selectBefore (selected before : List (ℕ × List Char)) : List (ℕ × List Char) :=
  before.foldl
    (fun selected line =>
      match selected.getLast? with
      | none => selected ++ [line]
      | some last => if last.1 < line.1 then selected ++ [line] else selected)
    selected

/-- One line of the scan. -/
def EvidenceScan.next (scan : EvidenceScan) (index : ℕ) (line : List Char) : EvidenceScan :=
  let lower := Text.toAsciiLowercase line
  let relevant := failureWords.any fun word => Text.contains lower word.toList
  let selected := if relevant then selectBefore scan.selected scan.before else scan.selected
  let following := if relevant then 3 else scan.following
  let bounded := boundedLine line
  let anchors := if relevant then scan.anchors ++ [bounded] else scan.anchors
  let selected := if following > 0 then selected ++ [(index, bounded)] else selected
  let before := scan.before ++ [(index, bounded)]
  { before := before.drop (before.length - 2)
    selected := selected.drop (selected.length - 24)
    anchors := anchors.drop (anchors.length - 8)
    following := following - 1 }

/-- The selected lines, with a note where lines are left out between them. -/
def joinSelected (previous : Option ℕ) : List (ℕ × List Char) → List Char
  | [] => []
  | (index, line) :: lines =>
    (if previous.any fun previous => index > previous + 1 then "[omitted]\n".toList else []) ++
      line ++ ['\n'] ++ joinSelected (some index) lines

/-- `failure_evidence`: the lines of a log around the failures it names. -/
def failureEvidence (text : String) (counter : RouterTokenCounter) : Option String :=
  let scan := (Text.lines text.toList).zipIdx.foldl
    (fun scan line => EvidenceScan.next scan line.2 line.1) ⟨[], [], [], 0⟩
  if scan.selected.isEmpty then none
  else
    let output := "[selected failure-related output; other lines omitted]\n".toList ++
      joinSelected none scan.selected
    let anchors := ['\n'].intercalate scan.anchors
    some ("Selected failure lines:\n" ++ truncate (String.ofList anchors) 640 counter ++
      "\nSurrounding output:\n" ++ truncate (String.ofList output) 320 counter)

/-! ## Observations -/

/-- The text of a field of the assistant message, excerpted. -/
def excerptField (counter : RouterTokenCounter) (assistant : Value) (key : String) : Value :=
  assistant.modify key fun v =>
    match v with
    | .string text => .string (excerpt text 512 counter)
    | _ => v

/-- The budget of a tool call's argument. -/
def argumentBudget (name key : String) : ℕ :=
  if name ∈ ["edit", "write", "applypatch", "apply_patch"] ∧
      key ∈ ["old_string", "new_string", "content", "patch"] then 384
  else if key ∈ ["file_path", "path", "workdir", "cmd", "command"] then 512
  else 256

/-- `to_ascii_lowercase` of the `tool_name`, empty if there is none. -/
def toolName (v : Value) : String :=
  String.ofList (Text.toAsciiLowercase (((v.get "tool_name").bind Value.asStr).getD "").toList)

/-- The text arguments of a tool call, excerpted. -/
def projectCall (counter : RouterTokenCounter) (call : Value) : Value :=
  let name := toolName call
  call.modify "arguments" fun arguments =>
    match arguments with
    | .object fields => .object (fields.map fun (key, argument) =>
        match argument with
        | .string text => (key, .string (excerpt text (argumentBudget name key) counter))
        | _ => (key, argument))
    | _ => arguments

/-- The assistant message of an observation. -/
def projectAssistant (counter : RouterTokenCounter) (assistant : Value) : Value :=
  let assistant := excerptField counter assistant "text"
  let assistant := excerptField counter assistant "reasoning_content"
  assistant.modify "tool_calls" fun calls =>
    match calls with
    | .array calls => .array (calls.map (projectCall counter))
    | _ => calls

/-- The status of a tool result names a failure. -/
def resultFailed (result : Value) : Bool :=
  (result.get "is_error").bind Value.asBool = some true ||
    ((result.pointer ["status", "exit_code"]).bind Value.asI64).any (fun code => code ≠ 0) ||
    (result.pointer ["status", "success"]).bind Value.asBool = some false ||
    ["timed_out", "interrupted"].any fun key =>
      ((result.index "status").index key).asBool = some true

/-- The budget of a tool's output. -/
def outputBudget (name : String) (failed : Bool) : ℕ :=
  if name ∈ ["read", "readfile"] then 512
  else if name ∈ ["edit", "write", "applypatch", "apply_patch"] then 384
  else if failed then 1024
  else 768

/-- `project_result`: mark failures, extract their evidence, excerpt the output. A result that is
neither an object nor null panics. -/
def projectResult (counter : RouterTokenCounter) (result : Value) : Option Value := do
  let failed := resultFailed result
  let result ← result.setIndex "is_error" (.bool failed)
  let name := toolName result
  match result.get "result_for_assistant" with
  | none => return result
  | some output =>
    let output := output.asStr.getD output.render
    let evidence :=
      if failed || name ∈ ["execcommand", "writestdin", "bash", "terminal"] then
        failureEvidence output counter
      else none
    let projected := excerpt output (outputBudget name failed) counter
    let result ← match evidence with
      | some evidence => result.setIndex "key_evidence" (.string evidence)
      | none => some result
    result.setIndex "result_for_assistant" (.string projected)

/-- `project_observation`: the bounded form of an observation that is kept. -/
def projectObservation (value : Value) (counter : RouterTokenCounter) : Option Value :=
  let value := value.modify "assistant" (projectAssistant counter)
  match value.get "tool_results" with
  | some (.array results) => do
    let results ← results.mapM (projectResult counter)
    return value.modify "tool_results" fun _ => .array results
  | _ => if (value.get "tool_name").isSome then projectResult counter value else some value

/-! ## Compact JSON -/

/-- A value is flagged as an error. -/
def flagged (value : Value) : Bool := (value.get "is_error").bind Value.asBool = some true

/-- The order in which an array's items are kept: errors first, then newer ones. -/
def keepBefore (values : List Value) (i j : ℕ) : Bool :=
  let plain (index : ℕ) : Bool := !(values[index]?.any flagged)
  plain i < plain j || (plain i = plain j && j ≤ i)

/-- The indices of an array's items that are kept, in the array's order. -/
def retainedIndices (values : List Value) (items : ℕ) : List ℕ :=
  let preferred := (List.range values.length).mergeSort (keepBefore values)
  (preferred.take items).mergeSort fun i j => i ≤ j

mutual

/-- `shrink`: texts are truncated, arrays and objects lose items. -/
def shrink (fieldBudget items : ℕ) (counter : RouterTokenCounter) : Value → Value
  | .string text => .string (truncate text fieldBudget counter)
  | .array values =>
    let retained := retainedIndices values items
    let shrunk := shrinkItems fieldBudget items counter values
    let output := retained.filterMap fun index => shrunk[index]?
    .array (if values.length > output.length then
      Json.ofFields [("omitted_items", .number (.int (values.length - output.length : ℕ)))] ::
        output
    else output)
  | .object fields =>
    let output := (shrinkFields fieldBudget items counter fields).take (max items 8)
    .object (if fields.length > output.length then
      Json.insertField "omitted_fields" (.number (.int (fields.length - output.length : ℕ))) output
    else output)
  | .null => .null
  | .bool b => .bool b
  | .number n => .number n

/-- `shrink` of every item. -/
def shrinkItems (fieldBudget items : ℕ) (counter : RouterTokenCounter) : List Value → List Value
  | [] => []
  | v :: values => shrink fieldBudget items counter v :: shrinkItems fieldBudget items counter values

/-- `shrink` of every field. -/
def shrinkFields (fieldBudget items : ℕ) (counter : RouterTokenCounter) :
    List (String × Value) → List (String × Value)
  | [] => []
  | (key, v) :: fields =>
    (key, shrink fieldBudget items counter v) :: shrinkFields fieldBudget items counter fields

end

/-- The loop of `compact_json_uncached`: smaller fields, then fewer items, then a preview. -/
def compactLoop (value : Value) (rendered : String) (budget : ℕ) (counter : RouterTokenCounter)
    (fields items : ℕ) : Value :=
  let compact := shrink fields items counter value
  if counter.count compact.render ≤ budget then compact
  else if 32 < fields then compactLoop value rendered budget counter (fields / 2) items
  else if 1 < items then compactLoop value rendered budget counter fields (items / 2)
  else
    let preview := truncate rendered (budget - 48) counter
    let result := Json.ofFields [("truncated", .bool true), ("preview", .string preview)]
    if counter.count result.render ≤ budget then result else .null
termination_by fields + items
decreasing_by all_goals omega

/-- `compact_json_uncached`. -/
def compactJsonUncached (value : Value) (rendered : String) (budget : ℕ)
    (counter : RouterTokenCounter) : Value :=
  if Text.byteLength rendered.toList ≤ 65536 ∧ counter.count rendered ≤ budget then value
  else compactLoop value rendered budget counter 1024 32

/-- `compact_json`: the value within a budget, or the projection the counter remembers. -/
def compactJson (value : Value) (budget : ℕ) (counter : RouterTokenCounter) : Value :=
  let rendered := value.render
  match counter.cachedProjection rendered budget with
  | some cached => cached
  | none => compactJsonUncached value rendered budget counter

end Router

end OpenBitFun
