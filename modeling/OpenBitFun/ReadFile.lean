import Mathlib
import OpenBitFun.Text
import OpenBitFun.Utf8

/-!
# Reading files in pages

`read_file.rs`: a decoder that takes the bytes of a file in any chunks and hands the lines on, each
cut to a number of characters; a selection of the lines of one page, with the characters that the
rest would take; and the text that tells the caller how to go on. Sums of characters are not
saturated, as they stay below what a machine word counts.
-/

namespace OpenBitFun

namespace ReadFile

open Utf8

/-! ## Lines of a page -/

/-- `ReadFileResult`. -/
structure ReadFileResult where
  startLine : ℕ
  endLine : ℕ
  totalLines : ℕ
  content : List Char
  hitTotalCharLimit : Bool
  contentTruncated : Bool
  truncatedLines : List ℕ
  remainingChars : ℕ
  deriving DecidableEq, Repr

/-- An error, or a panic of the program. -/
inductive ReadError where
  | panic
  | message (text : String)
  deriving DecidableEq, Repr

/-- `usize::MAX`. -/
def usizeMax : ℕ := 2 ^ 64 - 1

/-- `ReadLineSelection`. A line of the tail has its number and whether it is cut. -/
structure ReadLineSelection where
  startLine : ℕ
  endLine : ℕ
  limit : ℕ
  maxLineChars : ℕ
  maxTotalChars : ℕ
  totalLines : ℕ := 0
  selectedLines : List (List Char) := []
  selectedChars : ℕ := 0
  hitTotalCharLimit : Bool := false
  contentTruncated : Bool := false
  truncatedLines : List ℕ := []
  remainingChars : ℕ := 0
  tailLines : Option (List (ℕ × List Char × Bool))
  deriving DecidableEq, Repr

namespace ReadLineSelection

/-- `ReadLineSelection::new`. -/
def new (startLine limit maxLineChars maxTotalChars : ℕ) (tail : Bool) :
    Except ReadError ReadLineSelection :=
  if startLine = 0 then .error (.message "`start_line` should start from 1")
  else if limit = 0 then .error (.message "`limit` can't be 0")
  else if maxTotalChars = 0 then .error (.message "`max_total_chars` can't be 0")
  else if startLine + (limit - 1) > usizeMax then
    .error (.message "Requested line range is too large")
  else
    .ok { startLine, endLine := startLine + (limit - 1), limit, maxLineChars, maxTotalChars
          tailLines := if tail then some [] else none }

/-- `rendered_line_chars`. -/
def renderedLineChars (lineNumber lineChars : ℕ) (truncated : Bool) : ℕ :=
  let digits := if lineNumber = 0 then 1 else Nat.log 10 lineNumber + 1
  max digits 6 + 1 + lineChars + if truncated then " [truncated]".toList.length else 0

/-- The line with its number, which takes six characters at least. -/
def render (lineNumber : ℕ) (line : List Char) : List Char :=
  let number := Nat.toDigits 10 lineNumber
  List.replicate (6 - number.length) ' ' ++ number ++ '\t' :: line

/-- `add_remaining`. -/
def addRemaining (s : ReadLineSelection) (renderedChars : ℕ) : ReadLineSelection :=
  { s with remainingChars :=
      s.remainingChars + (if s.remainingChars > 0 then 1 else 0) + renderedChars }

/-- The characters of a page with one more line, and what separates it from the last one. -/
def nextChars (s : ReadLineSelection) (rendered : List Char) : ℕ :=
  s.selectedChars + (if s.selectedLines.isEmpty then 0 else 1) + rendered.length

/-- `select`. -/
def select (s : ReadLineSelection) (lineNumber : ℕ) (line : List Char) (truncated : Bool) :
    ReadLineSelection :=
  let rendered := render lineNumber line
  if s.hitTotalCharLimit then s.addRemaining rendered.length
  else if s.nextChars rendered > s.maxTotalChars then
    { s with hitTotalCharLimit := true, contentTruncated := true }.addRemaining rendered.length
  else
    { s with
      contentTruncated := s.contentTruncated || truncated
      truncatedLines :=
        if truncated then s.truncatedLines ++ [lineNumber] else s.truncatedLines
      selectedChars := s.nextChars rendered
      selectedLines := s.selectedLines ++ [rendered] }

/-- `push`. -/
def push (s : ReadLineSelection) (line : List Char) (truncated : Bool) : ReadLineSelection :=
  let s := { s with totalLines := s.totalLines + 1 }
  let marked := if truncated then line ++ " [truncated]".toList else line
  match s.tailLines with
  | some tailLines =>
    let tailLines := if tailLines.length = s.limit then tailLines.drop 1 else tailLines
    { s with tailLines := some (tailLines ++ [(s.totalLines, marked, truncated)]) }
  | none =>
    if s.totalLines < s.startLine then s
    else if s.totalLines > s.endLine ∨ s.hitTotalCharLimit then
      s.addRemaining (renderedLineChars s.totalLines line.length truncated)
    else s.select s.totalLines marked truncated

/-- `finish`. -/
def finish (s : ReadLineSelection) : Except ReadError ReadFileResult :=
  if s.totalLines = 0 then
    .ok { startLine := 0, endLine := 0, totalLines := 0, content := [],
          hitTotalCharLimit := false, contentTruncated := false, truncatedLines := [],
          remainingChars := 0 }
  else
    let s := match s.tailLines with
      | none => s
      | some tailLines => tailLines.foldl
          (fun s (number, line, truncated) => s.select number line truncated)
          { s with tailLines := none, startLine := s.totalLines - s.limit + 1 }
    if s.startLine > s.totalLines then
      .error (.message ("`start_line` " ++ toString s.startLine ++
        " is larger than the number of lines in the file: " ++ toString s.totalLines))
    else
      .ok { startLine := s.startLine
            endLine := if s.selectedLines.isEmpty then s.startLine - 1
              else s.startLine + s.selectedLines.length - 1
            totalLines := s.totalLines
            content := List.intercalate ['\n'] s.selectedLines
            hitTotalCharLimit := s.hitTotalCharLimit
            contentTruncated := s.contentTruncated
            truncatedLines := s.truncatedLines
            remainingChars := s.remainingChars }

end ReadLineSelection

/-! ## The decoder -/

/-- `ReadTextDecoder`. The tail is the part of its buffer of four bytes that is in use. -/
structure ReadTextDecoder where
  selection : ReadLineSelection
  line : List Char := []
  lineChars : ℕ := 0
  lineTruncated : Bool := false
  hasLine : Bool := false
  pendingCr : Bool := false
  utf8Tail : List UInt8 := []
  deriving DecidableEq, Repr

namespace ReadTextDecoder

/-- `retain_char`. -/
def retainChar (d : ReadTextDecoder) (character : Char) : ReadTextDecoder :=
  if d.lineChars < d.selection.maxLineChars then
    { d with line := d.line ++ [character], lineChars := d.lineChars + 1 }
  else { d with lineTruncated := true }

/-- `finish_line`. -/
def finishLine (d : ReadTextDecoder) : ReadTextDecoder :=
  { d with
    selection := d.selection.push d.line d.lineTruncated
    line := []
    lineChars := 0
    lineTruncated := false
    hasLine := false }

/-- `push_char`. -/
def pushChar (d : ReadTextDecoder) (character : Char) : ReadTextDecoder :=
  if character = '\n' then { d with pendingCr := false }.finishLine
  else
    let d := { d with hasLine := true }
    let d := if d.pendingCr then d.retainChar '\r' else d
    let d := { d with pendingCr := character == '\r' }
    if d.pendingCr then d else d.retainChar character

/-- `push_text`. -/
def pushText (d : ReadTextDecoder) (text : List Char) : ReadTextDecoder := text.foldl pushChar d

/-- The error for bytes that are not UTF-8. -/
def invalid : ReadError := .message "stream did not contain valid UTF-8"

/-- The loop of `push_bytes` that completes a scalar; it leaves the bytes behind it. -/
def completeTail : ReadTextDecoder → List UInt8 → Except ReadError (ReadTextDecoder × List UInt8)
  | d, [] => .ok (d, [])
  | d, byte :: bytes =>
    if d.utf8Tail.isEmpty then .ok (d, byte :: bytes)
    else if d.utf8Tail.length ≥ 4 then .error .panic
    else
      match fromUtf8 (d.utf8Tail ++ [byte]) with
      | .ok [] => .error .panic
      | .ok (character :: _) => completeTail ({ d with utf8Tail := [] }.pushChar character) bytes
      | .error e =>
        if e.errorLen.isNone ∧ (d.utf8Tail ++ [byte]).length < 4 then
          completeTail { d with utf8Tail := d.utf8Tail ++ [byte] } bytes
        else .error invalid

/-- The rest of `push_bytes`: what is UTF-8 is pushed, and a scalar that the bytes end in is
kept. -/
def pushWhole (d : ReadTextDecoder) (bytes : List UInt8) : Except ReadError ReadTextDecoder :=
  match fromUtf8 bytes with
  | .ok text => .ok (d.pushText text)
  | .error e =>
    match fromUtf8 (bytes.take e.validUpTo) with
    | .error _ => .error .panic
    | .ok text =>
      if e.errorLen.isSome then .error invalid
      else if (bytes.drop e.validUpTo).length > 4 then .error .panic
      else .ok { d.pushText text with utf8Tail := bytes.drop e.validUpTo }

/-- `push_bytes`. -/
def pushBytes (d : ReadTextDecoder) (bytes : List UInt8) : Except ReadError ReadTextDecoder :=
  match completeTail d bytes with
  | .error e => .error e
  | .ok (d, bytes) => d.pushWhole bytes

/-- `finish`. -/
def finish (d : ReadTextDecoder) : Except ReadError ReadLineSelection :=
  if d.utf8Tail.isEmpty then
    let d := if d.pendingCr then d.retainChar '\r' else d
    let d := if d.hasLine then d.finishLine else d
    .ok d.selection
  else .error invalid

/-- The loop over the chunks of a file, and the end of it. -/
def decode : ReadTextDecoder → List (List UInt8) → Except ReadError ReadLineSelection
  | d, [] => d.finish
  | d, chunk :: chunks => match d.pushBytes chunk with
    | .error e => .error e
    | .ok d => decode d chunks

end ReadTextDecoder

/-! ## Pages -/

/-- `read_buffered_text` and `read_async_text`, with what each read gives. -/
def readBufferedText (chunks : List (List UInt8)) (source : String)
    (startLine limit maxLineChars maxTotalChars : ℕ) (tail : Bool) :
    Except ReadError ReadFileResult :=
  match ReadLineSelection.new startLine limit maxLineChars maxTotalChars tail with
  | .error e => .error e
  | .ok selection =>
    match ReadTextDecoder.decode { selection } chunks with
    | .error .panic => .error .panic
    | .error (.message error) => .error (.message ("Failed to read " ++ source ++ ": " ++ error))
    | .ok selection => selection.finish

/-- What a reader of a buffer with some bytes gives, in as many reads as there are. -/
def reads (size : ℕ) : (count : ℕ) → List UInt8 → List (List UInt8)
  | 0, _ => []
  | count + 1, bytes =>
    if bytes.isEmpty then [] else bytes.take size :: reads size count (bytes.drop size)

/-- `read_text`. -/
def readText (text : List Char) (startLine limit maxLineChars maxTotalChars : ℕ) :
    Except ReadError ReadFileResult :=
  let bytes := encode text
  readBufferedText (reads 8192 bytes.length bytes) "converted document" startLine limit
    maxLineChars maxTotalChars false

/-- `ReadCallBudget`. -/
structure ReadCallBudget where
  maxLines : ℕ
  maxTotalChars : ℕ
  deriving DecidableEq, Repr

/-- `read_file_lines_read`. -/
def readFileLinesRead (result : ReadFileResult) : ℕ :=
  if result.totalLines = 0 ∨ result.endLine < result.startLine then 0
  else result.endLine - result.startLine + 1

/-- `ReadFilePresentation`. -/
structure ReadFilePresentation where
  resultForAssistant : String
  linesRead : ℕ
  nextOffset : Option ℕ
  deriving DecidableEq, Repr

/-- Whether lines are left behind a page that has some: where they start. -/
def nextStartLine (result : ReadFileResult) : Option ℕ :=
  if readFileLinesRead result > 0 ∧ result.endLine < result.totalLines then
    some (result.endLine + 1)
  else none

/-- Whether what is left is within both budgets of a call. -/
def fitsInOneCall (result : ReadFileResult) (budget : ReadCallBudget) : Bool :=
  result.totalLines - result.endLine ≤ budget.maxLines &&
    result.remainingChars ≤ budget.maxTotalChars

/-- The text on how to go on. -/
def continuation (result : ReadFileResult) (budget : ReadCallBudget) (nextStart : ℕ) : String :=
  let remainingLines := result.totalLines - result.endLine
  let window :=
    if result.hitTotalCharLimit then "Output truncated after reaching the Read tool size limit"
    else "Showing lines " ++ toString result.startLine ++ "-" ++ toString result.endLine ++
      " of " ++ toString result.totalLines ++ " total"
  let nextStep :=
    if fitsInOneCall result budget then
      "All of it fits in one call: use offset=" ++ toString nextStart ++ " without limit."
    else
      "Use offset=" ++ toString nextStart ++ " without limit to read up to " ++
        toString budget.maxLines ++ " lines and " ++ toString budget.maxTotalChars ++
        " characters per call, or offset/limit for a known range."
  let unit := if remainingLines = 1 then "line" else "lines"
  "\n\n[" ++ window ++ " (" ++ toString remainingLines ++ " " ++ unit ++ " remaining). " ++
    nextStep ++ "]"

/-- `build_read_file_presentation_with_budget`. -/
def buildReadFilePresentationWithBudget (logicalPath : String) (result : ReadFileResult)
    (budget : ReadCallBudget) : ReadFilePresentation :=
  let linesRead := readFileLinesRead result
  let body :=
    if result.totalLines = 0 then logicalPath ++ " is empty (0 lines)."
    else if linesRead = 0 then
      "No lines from " ++ logicalPath ++ " fit within the Read output limit (" ++
        toString result.totalLines ++ " total lines). Use another inspection method; a smaller " ++
        "line window cannot make a single line fit."
    else
      "Read lines " ++ toString result.startLine ++ "-" ++ toString result.endLine ++ " from " ++
        logicalPath ++ " (" ++ toString result.totalLines ++ " total lines)\n<file_content>\n" ++
        String.ofList result.content ++ "\n</file_content>"
  let more := match nextStartLine result with
    | some nextStart => continuation result budget nextStart
    | none => ""
  let cut :=
    if result.truncatedLines.isEmpty then ""
    else "\n\n[Lines " ++ toString result.truncatedLines ++ " contain truncated text. " ++
      "offset/limit cannot restore those characters. Use another inspection method before " ++
      "copying source text for Edit.]"
  { resultForAssistant := body ++ more ++ cut, linesRead, nextOffset := nextStartLine result }

end ReadFile

end OpenBitFun
