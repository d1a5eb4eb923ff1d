import OpenBitFun.Text

/-!
# Editing a file

`applyEditToContent` replaces a string in the content of a file. The string may be written
differently in the file: some rewritings of it are tried in their order
(`editStringCandidates`). The line ends of the file and of the strings are compared as line feeds,
and a file with a carriage return before a line feed is written with carriage returns before all.
-/

namespace OpenBitFun

namespace EditFile

/-! ## Constants and results -/

/-- `MAX_MATCH_CONTEXTS`. -/
def MAX_MATCH_CONTEXTS : ℕ := 5

/-- `CONTEXT_LINES_BEFORE`. -/
def CONTEXT_LINES_BEFORE : ℕ := 2

/-- `CONTEXT_LINES_AFTER`. -/
def CONTEXT_LINES_AFTER : ℕ := 2

/-- `NOT_FOUND_DIAGNOSTIC_SNIPPETS`. -/
def NOT_FOUND_DIAGNOSTIC_SNIPPETS : ℕ := 1

/-- `NOT_FOUND_MIN_SUBSTRING_LEN`. -/
def NOT_FOUND_MIN_SUBSTRING_LEN : ℕ := 8

/-- `EditResult`. -/
structure EditResult where
  /-- The line on which the string starts. -/
  startLine : ℕ
  /-- The line on which it ended. -/
  oldEndLine : ℕ
  /-- The line on which the new string ends. -/
  newEndLine : ℕ
  deriving DecidableEq, Repr

/-- `ApplyEditResult`. -/
structure ApplyEditResult where
  /-- The new content. -/
  newContent : List Char
  /-- How often the string was found. -/
  matchCount : ℕ
  /-- The lines of its first occurrence. -/
  editResult : EditResult
  deriving DecidableEq, Repr

/-- `EditContentErrorKind`. -/
inductive EditContentErrorKind where
  | emptyTarget
  | noChange
  | targetNotFound
  | targetAmbiguous
  deriving DecidableEq, Repr

/-- `EditContentError`. -/
structure EditContentError where
  /-- What is wrong. -/
  kind : EditContentErrorKind
  /-- The message. -/
  message : List Char
  deriving DecidableEq, Repr

/-- `EditContentError::no_change`. -/
def EditContentError.noChange : EditContentError :=
  ⟨.noChange, "new_string must be different from old_string".toList⟩

/-! ## Line ends -/

/-- A carriage return and a line feed. -/
def crlf : List Char := ['\r', '\n']

/-- `normalize_string`. -/
def normalizeString (s : List Char) : List Char :=
  if Text.contains s crlf then Text.replace s crlf ['\n'] else s

/-- `count_newlines`. -/
def countNewlines (s : List Char) : ℕ := s.count '\n'

/-- `count_lines_before`. -/
def countLinesBefore (content : List Char) (bytePos : ℕ) : ℕ :=
  countNewlines (Text.takeBytes bytePos content) + 1

/-! ## Candidates -/

/-- `strip_read_line_number_prefix`. -/
def stripReadLineNumberPrefix (line : List Char) : List Char :=
  let rest := line.dropWhile (· = ' ')
  if (rest.takeWhile Char.isDigit).isEmpty then line
  else match rest.dropWhile Char.isDigit with
    | c :: rest => if c = '\t' || c = '→' then rest else line
    | [] => line

/-- `read_tool_output_to_file_content`. -/
def readToolOutputToFileContent (formatted : List Char) : List Char :=
  Text.joinLines ((Text.lines formatted).map stripReadLineNumberPrefix)

/-- `sanitize_read_tool_copied_text`. -/
def sanitizeReadToolCopiedText (text : List Char) : Option (List Char) :=
  let sanitized := readToolOutputToFileContent text
  if sanitized ≠ text then some sanitized else none

/-- `normalize_quote_char`. -/
def normalizeQuoteChar (c : Char) : Char :=
  if c = '‘' || c = '’' then '\'' else if c = '“' || c = '”' then '"' else c

/-- `find_actual_string`. -/
def findActualString (fileContent searchString : List Char) : Option (List Char) :=
  if Text.contains fileContent searchString then some searchString
  else
    let normalizedFile := normalizeString fileContent
    let normalizedSearch := normalizeString searchString
    if Text.contains normalizedFile normalizedSearch then some searchString
    else
      let quotedFile := normalizedFile.map normalizeQuoteChar
      let quotedSearch := normalizedSearch.map normalizeQuoteChar
      (Text.find quotedFile quotedSearch).map fun charsBefore =>
        (normalizedFile.drop charsBefore).take quotedSearch.length

/-- `convert_tabs_to_spaces`. -/
def convertTabsToSpaces (s : List Char) (tabWidth : ℕ) : List Char :=
  Text.replace s ['\t'] (List.replicate tabWidth ' ')

/-- `convert_leading_spaces_to_tabs`. -/
def convertLeadingSpacesToTabs (s : List Char) (tabWidth : ℕ) : List Char :=
  Text.joinLines <| (Text.lines s).map fun line =>
    let leading := line.takeWhile Text.isWhitespace
    if leading.isEmpty || !leading.all (· = ' ') || leading.length % tabWidth ≠ 0 then line
    else List.replicate (leading.length / tabWidth) '\t' ++ line.dropWhile Text.isWhitespace

/-- A pair of an old and a new string. -/
abbrev Candidate := List Char × List Char

/-- `push_candidate`. -/
def pushCandidate (candidates : List Candidate) (candidate : Candidate) : List Candidate :=
  if candidate ∈ candidates then candidates else candidates ++ [candidate]

/-- One of the two conversions of white space in `edit_string_candidates`. -/
def pushConverted (content oldString newString : List Char) (convert : List Char → List Char)
    (candidates : List Candidate) : List Candidate :=
  let old := convert oldString
  if old ≠ oldString then
    let candidates := pushCandidate candidates (old, convert newString)
    match findActualString content old with
    | some actualOld => pushCandidate candidates (actualOld, convert newString)
    | none => candidates
  else candidates

/-- `edit_string_candidates`. -/
def editStringCandidates (content oldString newString : List Char) : List Candidate :=
  let candidates := [(oldString, newString)]
  let candidates := match sanitizeReadToolCopiedText oldString with
    | some sanitizedOld =>
      pushCandidate candidates
        (sanitizedOld, (sanitizeReadToolCopiedText newString).getD newString)
    | none => candidates
  let candidates := match findActualString content oldString with
    | some actualOld => pushCandidate candidates (actualOld, newString)
    | none => candidates
  let candidates :=
    if oldString.getLast? ≠ some '\n' ∧ Text.contains content (oldString ++ ['\n']) then
      pushCandidate candidates (oldString ++ ['\n'], newString ++ ['\n'])
    else candidates
  [2, 4].foldl (fun candidates tabWidth =>
    pushConverted content oldString newString (convertLeadingSpacesToTabs · tabWidth)
      (pushConverted content oldString newString (convertTabsToSpaces · tabWidth) candidates))
    candidates

/-! ## Diagnostics -/

/-- A number in a message. -/
def number (n : ℕ) : List Char := (toString n).toList

/-- `match_contexts`. -/
def matchContexts (content oldString : List Char) (positions : List ℕ) : List Char :=
  let lines := content.splitOn '\n'
  let oldLineCount := countNewlines oldString + 1
  let contexts := (positions.take MAX_MATCH_CONTEXTS).mapIdx fun idx bytePos =>
    let startLine := countLinesBefore content bytePos
    let oldEndLine := startLine + (oldLineCount - 1)
    let contextStartLine := max (startLine - CONTEXT_LINES_BEFORE) 1
    let contextEndLine := min (oldEndLine + CONTEXT_LINES_AFTER) (max lines.length 1)
    let snippet := Text.joinLines ((lines.take contextEndLine).drop (contextStartLine - 1))
    "[match ".toList ++ number (idx + 1) ++ " starts at line ".toList ++ number startLine ++
      "]\n".toList ++ snippet
  let omitted := positions.length - MAX_MATCH_CONTEXTS
  "Matched contexts (copy exact text from a snippet and add stable surrounding lines to make ".toList ++
    "\x60old_string\x60 unique):\n".toList ++
    "\n---\n".toList.intercalate contexts ++
    if omitted > 0 then "\n... ".toList ++ number omitted ++ " more matches omitted.".toList else []

/-- `longest_shared_prefix_len`. -/
def longestSharedPrefixLen (left right : List Char) : ℕ :=
  ((left.zip right).takeWhile fun p => p.1 = p.2).length

/-- `longest_shared_suffix_len`. -/
def longestSharedSuffixLen (left right : List Char) : ℕ :=
  longestSharedPrefixLen left.reverse right.reverse

/-- `snippet_context`. -/
def snippetContext (lines : List (List Char)) (lineIdx : ℕ) : List Char :=
  Text.joinLines ((lines.take (lineIdx + CONTEXT_LINES_AFTER + 1)).drop
    (lineIdx - CONTEXT_LINES_BEFORE))

/-- The lines of `build_not_found_diagnostics` that resemble a line, the most similar first, each
with its similarity and its index. -/
def similarLines (anchorLine : List Char) (lines : List (List Char)) : List (ℕ × ℕ) :=
  let candidates := (lines.mapIdx fun idx line => (idx, Text.trim line)).filterMap
    fun (idx, trimmed) =>
      let score := max (longestSharedPrefixLen anchorLine trimmed)
        (longestSharedSuffixLen anchorLine trimmed)
      if !trimmed.isEmpty && (Text.contains anchorLine trimmed || Text.contains trimmed anchorLine ||
          NOT_FOUND_MIN_SUBSTRING_LEN ≤ score) then some (score, idx)
      else none
  candidates.mergeSort fun left right =>
    right.1 < left.1 || (left.1 = right.1 && left.2 ≤ right.2)

/-- `build_not_found_diagnostics`. -/
def buildNotFoundDiagnostics (content oldString : List Char) : List Char :=
  let hints := ["Re-read the target lines with Read (use start_line/limit if needed), then copy ".toList ++
    "the exact text after the tab on each line into old_string without reformatting ".toList ++
    "indentation.".toList]
  let hints :=
    if (Text.lines oldString).any fun line => stripReadLineNumberPrefix line ≠ line then
      hints ++ ["Detected Read-tool line-number prefixes inside \x60old_string\x60. Copy only ".toList ++
        "the text after the tab on each line.".toList]
    else hints
  let hints :=
    if Text.contains oldString " [truncated]".toList then
      hints ++ ["Detected a Read-tool \x60[truncated]\x60 marker inside \x60old_string\x60. ".toList ++
        "Re-read with start_line/limit so the target lines are complete.".toList]
    else hints
  let lines := (normalizeString content).splitOn '\n'
  let anchorLine := Text.trim
    (((Text.lines oldString).find? fun line => !(Text.trim line).isEmpty).getD oldString)
  let snippets :=
    if anchorLine.isEmpty then []
    else ((similarLines anchorLine lines).take NOT_FOUND_DIAGNOSTIC_SNIPPETS).map fun (_, idx) =>
      "[nearby content around line ".toList ++ number (idx + 1) ++ "]\n".toList ++
        snippetContext lines idx
  let hints :=
    if snippets.isEmpty then hints
    else hints ++ ["Closest current file snippet:\n".toList ++
      "\n---\n".toList.intercalate snippets]
  "\n\n".toList.intercalate hints

/-! ## The edit -/

/-- `apply_match_and_replace`. -/
def applyMatchAndReplace (normalizedContent : List Char) (usesCrlf : Bool)
    (oldString newString : List Char) (replaceAll : Bool) :
    Except EditContentError ApplyEditResult :=
  let normalizedOld := normalizeString oldString
  let normalizedNew := normalizeString newString
  if normalizedOld.isEmpty then .error ⟨.emptyTarget, "old_string cannot be empty.".toList⟩
  else match Text.matchIndices normalizedContent normalizedOld with
    | [] => .error ⟨.targetNotFound, "old_string not found in file.".toList⟩
    | first :: others =>
      if others ≠ [] ∧ !replaceAll then
        .error ⟨.targetAmbiguous,
          "\x60old_string\x60 appears ".toList ++ number (others.length + 1) ++
          " times in file, either provide a larger string with more surrounding context to make ".toList ++
            "it unique or use \x60replace_all\x60 to change every instance of ".toList ++
            "\x60old_string\x60.\n".toList ++
          matchContexts normalizedContent normalizedOld (first :: others)⟩
      else
        let startLine := countLinesBefore normalizedContent first
        let newNormalizedContent :=
          if replaceAll then Text.replace normalizedContent normalizedOld normalizedNew
          else Text.replacen normalizedContent normalizedOld normalizedNew 1
        .ok
          { newContent :=
              if usesCrlf then Text.replace newNormalizedContent ['\n'] crlf
              else newNormalizedContent
            matchCount := others.length + 1
            editResult :=
              { startLine
                oldEndLine := startLine + countNewlines normalizedOld
                newEndLine := startLine + countNewlines normalizedNew } }

/-- The loop of `apply_edit_to_content` over the candidates: the result, or the last message about a
string that was not found. -/
def tryCandidates (normalizedContent : List Char) (usesCrlf replaceAll : Bool) :
    (lastError : List Char) → List Candidate →
      Except EditContentError (ApplyEditResult ⊕ List Char)
  | lastError, [] => .ok (.inr lastError)
  | _, (candidateOld, candidateNew) :: candidates =>
    match applyMatchAndReplace normalizedContent usesCrlf candidateOld candidateNew replaceAll with
    | .ok result => .ok (.inl result)
    | .error error =>
      if error.kind = .targetNotFound then
        tryCandidates normalizedContent usesCrlf replaceAll error.message candidates
      else .error error

/-- `apply_edit_to_content`. -/
def applyEditToContent (content oldString newString : List Char) (replaceAll : Bool) :
    Except EditContentError ApplyEditResult :=
  if !oldString.isEmpty && oldString = newString then .error .noChange
  else
    let usesCrlf := Text.contains content crlf
    let normalizedContent := normalizeString content
    match tryCandidates normalizedContent usesCrlf replaceAll
        "old_string not found in file.".toList
        (editStringCandidates content oldString newString) with
    | .error error => .error error
    | .ok (.inl result) => .ok result
    | .ok (.inr lastError) =>
      .error ⟨.targetNotFound, lastError ++
        "\nPossible causes: the file might be changed externally after you inspected it, or ".toList ++
          "old_string was generated incorrectly (for example, with line-number prefixes, ".toList ++
          "different whitespace or indentation, or truncated output).\nInspect the current target ".toList ++
          "region, correct old_string to match the current file content exactly, then ".toList ++
          "retry.\n".toList ++
        buildNotFoundDiagnostics content oldString⟩

end EditFile

end OpenBitFun
