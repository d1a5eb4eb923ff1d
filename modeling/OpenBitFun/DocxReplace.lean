import OpenBitFun.TextSlices

/-!
# Replacing text across runs

A paragraph of a document is a list of runs, texts with a formatting each. `replace_text` replaces
what it finds in the text of all runs together (`docx/ops.rs`). Positions are byte positions, and
slicing inside a character is a panic, `none` here. How a character is lowered is Unicode's
business and a parameter; what `str::to_lowercase` makes of it is not: a capital sigma at the end
of a word has a small form of its own.
-/

namespace OpenBitFun

namespace DocxReplace

/-! ## Lower case -/

/-- The tables of Unicode: `char::to_lowercase`, and which characters have a case or are passed
over in search of one. -/
structure CaseTables where
  lower : Char → List Char
  lower_ne_nil : ∀ c, lower c ≠ []
  isCased : Char → Bool
  isCaseIgnorable : Char → Bool

namespace CaseTables

variable (t : CaseTables)

/-- `case_ignorable_then_cased`. -/
def caseIgnorableThenCased (s : List Char) : Bool :=
  match s.dropWhile t.isCaseIgnorable with
  | c :: _ => t.isCased c
  | [] => false

/-- A capital sigma, with the characters before it (backwards) and after it. -/
def mapUppercaseSigma (before after : List Char) : Char :=
  if t.caseIgnorableThenCased before && !t.caseIgnorableThenCased after then 'ς' else 'σ'

/-- `str::to_lowercase`, after some characters (backwards). -/
def toLowercaseAfter : (before : List Char) → List Char → List Char
  | _, [] => []
  | before, c :: s =>
    (if c = 'Σ' then [t.mapUppercaseSigma before s] else t.lower c) ++
      toLowercaseAfter (c :: before) s

/-- `str::to_lowercase`. -/
def toLowercase (s : List Char) : List Char := t.toLowercaseAfter [] s

/-- The lower case of every character on its own, as the text is folded. -/
def fold (s : List Char) : List Char := s.flatMap t.lower

/-- The boundaries of a text: where a character starts in the folded text, and in the text. -/
def boundaries : (folded offset : ℕ) → List Char → List (ℕ × ℕ)
  | folded, offset, [] => [(folded, offset)]
  | folded, offset, c :: s =>
    (folded, offset) ::
      boundaries (folded + Text.byteLength (t.lower c)) (offset + c.utf8Size) s

end CaseTables

/-! ## Matches -/

/-- `binary_search_by_key` for a boundary of the folded text, in boundaries that are in order. -/
def searchBoundary (boundaries : List (ℕ × ℕ)) (folded : ℕ) : Option ℕ :=
  (boundaries.find? fun boundary => boundary.1 == folded).map Prod.snd

/-- `matching_ranges`. -/
def matchingRanges (t : CaseTables) (text find : List Char) (matchCase : Bool) : List (ℕ × ℕ) :=
  if find = [] then []
  else if matchCase then
    (Text.matchIndices text find).map fun start => (start, start + Text.byteLength find)
  else
    let boundaries := t.boundaries 0 0 text
    let needle := t.toLowercase find
    (Text.matchIndices (t.fold text) needle).filterMap fun start =>
      (searchBoundary boundaries start).bind fun first =>
        (searchBoundary boundaries (start + Text.byteLength needle)).map fun last => (first, last)

/-! ## Replacing -/

/-- `Run`: a text and its formatting, which nothing here looks at. -/
structure Run (φ : Type) where
  text : List Char
  formatting : φ

/-- `runs_text`. -/
def runsText {φ : Type} (runs : List (Run φ)) : List Char := runs.flatMap Run.text

/-- The matches of one run in `replace_runs`: from the matches that are left, with what was updated
up to a cursor. -/
def replaceMatches (text replace : List Char) (runStart runEnd : ℕ) :
    List (ℕ × ℕ) → (cursor : ℕ) → (updated : List Char) →
      Option (List Char × ℕ × List (ℕ × ℕ))
  | [], cursor, updated => some (updated, cursor, [])
  | (start, stop) :: matches', cursor, updated =>
    if start ≥ runEnd then some (updated, cursor, (start, stop) :: matches')
    else if stop ≤ runStart then replaceMatches text replace runStart runEnd matches' cursor updated
    else
      (if start ≥ runStart then
        (Text.slice? text cursor start).map fun kept => updated ++ kept ++ replace
      else some updated).bind fun updated =>
        if stop > runEnd then some (updated, min stop runEnd, (start, stop) :: matches')
        else replaceMatches text replace runStart runEnd matches' (min stop runEnd) updated

/-- The loop of `replace_runs` over the runs, with the matches that are left. -/
def replaceRunsFrom {φ : Type} (text replace : List Char) :
    (runStart : ℕ) → List (ℕ × ℕ) → List (Run φ) → Option (List (Run φ))
  | _, _, [] => some []
  | runStart, matches', run :: runs => do
    let runEnd := runStart + Text.byteLength run.text
    let (updated, cursor, left) ← replaceMatches text replace runStart runEnd matches' runStart []
    let kept ← Text.slice? text cursor runEnd
    let rest ← replaceRunsFrom text replace runEnd left runs
    some ({ run with text := updated ++ kept } :: rest)

/-- `replace_runs`. -/
def replaceRuns {φ : Type} (t : CaseTables) (runs : List (Run φ)) (find replace : List Char)
    (matchCase : Bool) : Option (List (Run φ) × ℕ) :=
  let text := runsText runs
  let found := matchingRanges t text find matchCase
  (replaceRunsFrom text replace 0 found runs).map fun runs => (runs, found.length)

/-- The loop of `replace_all`. -/
def replaceAllFrom (text replace : List Char) :
    List (ℕ × ℕ) → (cursor : ℕ) → (out : List Char) → Option (List Char)
  | [], cursor, out => (Text.slice? text cursor (Text.byteLength text)).map fun kept => out ++ kept
  | (start, stop) :: matches', cursor, out =>
    (Text.slice? text cursor start).bind fun kept =>
      replaceAllFrom text replace matches' stop (out ++ kept ++ replace)

/-- `replace_all`. -/
def replaceAll (t : CaseTables) (text find replace : List Char) (matchCase : Bool) :
    Option (List Char × ℕ) :=
  let found := matchingRanges t text find matchCase
  (replaceAllFrom text replace found 0 []).map fun out => (out, found.length)

end DocxReplace

end OpenBitFun
