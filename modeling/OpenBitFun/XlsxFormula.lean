import OpenBitFun.XlsxFormulaParser

/-!
# Rewriting references in formulas

When rows or columns move, the references of all formulas are rewritten (`formula.rs`). A scanner
of its own finds the references in a formula's text: it understands string literals, quoted and bare
sheet prefixes, cells, ranges of cells, and ranges of whole rows and whole columns. The rest of the
text is copied.
-/

namespace OpenBitFun

namespace Xlsx

namespace Formula

/-! ## References -/

/-- `Axis`. -/
inductive Axis
  | row
  | column
  deriving DecidableEq

/-- The last row or column of a sheet. -/
def Axis.limit : Axis → ℕ
  | .row => maxRows
  | .column => maxColumns

/-- `Shift`: rows or columns are inserted (`delta ≥ 0`) or deleted from an index on. -/
structure Shift where
  sheet : List Char
  axis : Axis
  start : ℕ
  delta : ℤ

/-- `PartKind`. -/
inductive PartKind
  | cell
  | column
  | row
  deriving DecidableEq

/-- `Part`: a corner of a reference. What its kind does not have is zero. -/
structure Part where
  kind : PartKind
  colAbs : Bool
  col : ℕ
  rowAbs : Bool
  row : ℕ
  deriving DecidableEq

/-- A dollar sign in front of an absolute coordinate. -/
def dollar (isAbs : Bool) : List Char := if isAbs then ['$'] else []

/-- `Part::render`. -/
def Part.render (part : Part) : List Char :=
  let col := dollar part.colAbs ++ columnLetters part.col
  let row := dollar part.rowAbs ++ Nat.toDigits 10 part.row
  match part.kind with
  | .cell => col ++ row
  | .column => col
  | .row => row

/-- `Reference`. -/
structure Reference where
  /-- The raw prefix with its `!`. -/
  sheetPrefix : Option (List Char)
  sheet : Option (List Char)
  first : Part
  second : Option Part
  deriving DecidableEq

/-- `render`. -/
def Reference.render (reference : Reference) : List Char :=
  reference.sheetPrefix.getD [] ++ reference.first.render ++
    reference.second.elim [] fun second => ':' :: second.render

/-- `Token`. -/
inductive Token
  | text (text : List Char)
  | ref (reference : Reference)
  deriving DecidableEq

/-! ## The scanner -/

variable (unicode : Unicode)

/-- `parse_sheet_prefix`: the raw prefix, the name of the sheet and what follows. -/
def parseSheetPrefix (chars : List Char) : Option (List Char × List Char × List Char) :=
  match chars with
  | '\'' :: rest =>
    (readQuoted '\'' rest).bind fun read =>
      match read.2 with
      | '!' :: next => some (chars.take (chars.length - next.length), read.1, next)
      | _ => none
  | _ =>
    let name := chars.takeWhile (isBareName unicode)
    match name, chars.dropWhile (isBareName unicode) with
    | _ :: _, '!' :: next => some (name ++ ['!'], name, next)
    | _, _ => none

/-- The digits of a row and what follows; the row must be on the sheet. -/
def parseRow (chars : List Char) : Option (ℕ × List Char) :=
  (parseU32 (chars.takeWhile isAsciiDigit)).bind fun row =>
    if row = 0 ∨ maxRows < row then none else some (row, chars.dropWhile isAsciiDigit)

/-- `parse_part`. -/
def parsePart (chars : List Char) : Option (Part × List Char) :=
  let isAbs := chars.head? == some '$'
  let chars := skipDollar chars
  let letters := (chars.take 4).takeWhile isAsciiAlphabetic
  let rest := chars.drop letters.length
  if letters.isEmpty then
    -- A row part: `$5` or `5`.
    (parseRow chars).bind fun row =>
      if row.2.head? = some '.' then none
      else some (⟨.row, false, 0, isAbs, row.1⟩, row.2)
  else
    (columnNumber letters).bind fun col =>
      let rowAbs := rest.head? == some '$'
      if (skipDollar rest).head?.any isAsciiDigit then
        (parseRow (skipDollar rest)).map fun row => (⟨.cell, isAbs, col, rowAbs, row.1⟩, row.2)
      else if rowAbs then none
      else some (⟨.column, isAbs, col, false, 0⟩, rest)

/-- The second corner, if one of the same kind follows. -/
def parseSecond (kind : PartKind) (chars : List Char) : Option (Part × List Char) :=
  match chars with
  | ':' :: rest =>
    (parsePart rest).bind fun second => if second.1.kind = kind then some second else none
  | _ => none

/-- A character that cannot follow a reference. -/
def continues (c : Char) : Bool := isBareName unicode c || c = '(' || c = '!' || c = '$'

/-- The corners of a reference. -/
def parseCorners (chars : List Char) : Option (Part × Option Part × List Char) :=
  (parsePart chars).bind fun first =>
    let second := parseSecond first.1.kind first.2
    let next := second.elim first.2 Prod.snd
    -- Whole rows and whole columns are only references as ranges.
    if (first.1.kind ≠ .cell ∧ second.isNone) ∨ next.head?.any (continues unicode) then none
    else some (first.1, second.map Prod.fst, next)

/-- `parse_reference`. -/
def parseReference (chars : List Char) : Option (Reference × List Char) :=
  match parseSheetPrefix unicode chars with
  | some (raw, name, next) =>
    (parseCorners unicode next).map fun corners =>
      (⟨some raw, some name, corners.1, corners.2.1⟩, corners.2.2)
  | none =>
    (parseCorners unicode chars).map fun corners =>
      (⟨none, none, corners.1, corners.2.1⟩, corners.2.2)

/-- The rest of a string literal with its closing quote, and what follows. -/
def readLiteral : List Char → List Char × List Char
  | [] => ([], [])
  | [c] => ([c], [])
  | c :: d :: rest =>
    if c = '"' then
      if d = '"' then
        let read := readLiteral rest
        (c :: d :: read.1, read.2)
      else ([c], d :: rest)
    else
      let read := readLiteral (d :: rest)
      (c :: read.1, read.2)

/-- A reference may start here: it is not in the middle of a name. -/
def boundary (before : Option Char) : Bool :=
  !before.any fun c => isBareName unicode c || c = '$' || c = '!'

/-- The text that is collected becomes a token. -/
def flushText (text : List Char) : List Token := if text.isEmpty then [] else [.text text]

/-- `tokenize`, from a place on: the character before it, the text collected and what is left. Every
step reads at least one character. -/
def tokenizeFrom : (length : ℕ) → (before : Option Char) → (text chars : List Char) → List Token
  | _, _, text, [] => flushText text
  | 0, _, text, _ :: _ => flushText text
  | length + 1, before, text, c :: rest =>
    if c = '"' then
      let literal := readLiteral rest
      tokenizeFrom length ((c :: literal.1).getLast?) (text ++ c :: literal.1) literal.2
    else
      match if boundary unicode before then parseReference unicode (c :: rest) else none with
      | some (reference, next) =>
        let raw := (c :: rest).take ((c :: rest).length - next.length)
        flushText text ++ .ref reference :: tokenizeFrom length raw.getLast? [] next
      | none => tokenizeFrom length (some c) (text ++ [c]) rest

/-- `tokenize`. -/
def tokenize (formula : List Char) : List Token :=
  tokenizeFrom unicode formula.length none [] formula

/-! ## Shifting -/

/-- `End`: the coordinate of a single cell, or of the first or last corner of a range. -/
inductive End
  | single
  | start
  | finish
  deriving DecidableEq

/-- `shift_index`: `none` where the coordinate was deleted and cannot be kept. -/
def shiftIndex (value : ℕ) (shift : Shift) (stop : End) : Option ℕ :=
  if 0 ≤ shift.delta then
    if shift.start ≤ value then
      let shifted := value + shift.delta.toNat
      if shifted ≤ shift.axis.limit then some shifted else none
    else some value
  else
    let count := (-shift.delta).toNat
    let last := shift.start + count - 1
    if value < shift.start then some value
    else if last < value then some (value - count)
    else
      match stop with
      | .single => none
      | .start => some shift.start
      | .finish => if 1 < shift.start then some (shift.start - 1) else none

/-- `shift_part`. -/
def shiftPart (part : Part) (shift : Shift) (stop : End) : Option Part :=
  match shift.axis, part.kind with
  | .row, .cell | .row, .row =>
    (shiftIndex part.row shift stop).map fun row => { part with row }
  | .column, .cell | .column, .column =>
    (shiftIndex part.col shift stop).map fun col => { part with col }
  | _, _ => some part

/-- A corner's coordinate on an axis. -/
def Part.coordinate (part : Part) : Axis → ℕ
  | .row => part.row
  | .column => part.col

/-- The shifted reference: both corners can be kept, in order. -/
def shiftReference (reference : Reference) (shift : Shift) : Option Reference :=
  match reference.second with
  | none => (shiftPart reference.first shift .single).map fun first => { reference with first }
  | some second =>
    (shiftPart reference.first shift .start).bind fun first =>
      (shiftPart second shift .finish).bind fun second =>
        if first.coordinate shift.axis ≤ second.coordinate shift.axis then
          some { reference with first, second := some second }
        else none

/-- `#REF!`. -/
def refError : List Char := ['#', 'R', 'E', 'F', '!']

/-- The sheet that a reference is to, from the formula's own sheet. -/
def Reference.target (reference : Reference) (formulaSheet : List Char) : List Char :=
  reference.sheet.getD formulaSheet

/-- What a token is rewritten to. -/
def shiftToken (formulaSheet : List Char) (shift : Shift) : Token → List Char
  | .text text => text
  | .ref reference =>
    if eqIgnoreAsciiCase (reference.target formulaSheet) shift.sheet then
      match shiftReference reference shift with
      | some shifted => shifted.render
      | none => reference.sheetPrefix.getD [] ++ refError
    else reference.render

/-- `shift_formula`. -/
def shiftFormula (formula formulaSheet : List Char) (shift : Shift) : List Char :=
  (tokenize unicode formula).flatMap (shiftToken formulaSheet shift)

end Formula

end Xlsx

end OpenBitFun
