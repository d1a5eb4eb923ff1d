import OpenBitFun.Asking
import OpenBitFun.XlsxFormulaParser

/-!
# Evaluating formulas

The values of a workbook's formulas, where they are supported (`eval.rs`). An expression asks for
the values of the cells it refers to, one after the other, and gives up where it leaves the
supported subset or where a cell it asks for has no value.
-/

namespace OpenBitFun

namespace Xlsx

variable {F : Type} (floats : Floats F) (unicode : Unicode)

/-! ## Workbooks -/

/-- A cell's literal value; the numbers are those of `as_f64`. -/
inductive CellValue (F : Type)
  | number (number : F)
  | string (text : List Char)
  | bool (value : Bool)
  /-- `null`, and what is no literal. -/
  | other

/-- `Cell`: the fields that are evaluated. -/
structure Cell (F : Type) where
  value : CellValue F
  /-- The formula without the leading `=`. -/
  formula : Option (List Char)

/-- `Sheet`: its name and its cells, in the order of a `BTreeMap`. -/
structure Sheet (F : Type) where
  name : List Char
  cells : List (CellRef × Cell F)
  sorted : cells.Pairwise fun a b => a.1 < b.1

/-- `XlsxDocument`. -/
structure XlsxDocument (F : Type) where
  sheets : List (Sheet F)

/-- `XlsxDocument::sheet_index`. -/
def XlsxDocument.sheetIndex (book : XlsxDocument F) (name : List Char) : Option ℕ :=
  book.sheets.findIdx? fun sheet => eqIgnoreAsciiCase sheet.name name

/-- The cells of the sheet with an index. -/
def XlsxDocument.cells (book : XlsxDocument F) (sheet : ℕ) : List (CellRef × Cell F) :=
  (book.sheets[sheet]?).elim [] Sheet.cells

/-! ## Values -/

/-- `Computed`. -/
inductive Computed (F : Type)
  | number (value : F)
  | text (text : List Char)
  | bool (value : Bool)
  | error (error : String)
  | empty
  deriving DecidableEq

/-- `MAX_RANGE_CELLS`. -/
def maxRangeCells : ℕ := 1000000

/-- `MAX_DEPTH`. -/
def maxDepth : ℕ := 256

/-- `finite`. -/
def finite (value : F) : Computed F :=
  if floats.isFinite value then .number value else .error "#NUM!"

/-- `number`: a value as a number, or the error instead. -/
def number : Computed F → Except (Computed F) F
  | .number value => .ok value
  | .bool value => .ok (floats.ofNat (if value then 1 else 0))
  | .empty => .ok (floats.ofNat 0)
  | .text text =>
    if (Text.trim text).isEmpty then .error (.error "#VALUE!")
    else
      match floats.parse (Text.trim text) with
      | some value => .ok value
      | none => .error (.error "#VALUE!")
  | .error error => .error (.error error)

/-- Equality of numbers, `==`. -/
def Floats.eq (a b : F) : Bool := floats.partialCmp a b == some .eq

/-- `truthy`: a value as a condition, or the error instead. -/
def truthy : Computed F → Except (Computed F) Bool
  | .bool value => .ok value
  | .number value => .ok (!floats.eq value (floats.ofNat 0))
  | .empty => .ok false
  | .text text =>
    if text.map toAsciiUppercase = "TRUE".toList then .ok true
    else if text.map toAsciiUppercase = "FALSE".toList then .ok false
    else .error (.error "#VALUE!")
  | .error error => .error (.error error)

/-- `format_number`. -/
def formatNumber (value : F) : List Char :=
  floats.display ((floats.parse (floats.scientific14 value)).getD value)

/-- `text`: a value as text. -/
def text : Computed F → List Char
  | .number value => formatNumber floats value
  | .text text => text
  | .bool value => if value then "TRUE".toList else "FALSE".toList
  | .error error => error.toList
  | .empty => []

/-- The rank of a value in comparisons between kinds. -/
def rank : Computed F → ℕ
  | .number _ | .empty => 0
  | .text _ => 1
  | .bool _ => 2
  | .error _ => 3

/-- `number(..).unwrap_or(0.0)`. -/
def numberOrZero (value : Computed F) : F :=
  match number floats value with
  | .ok value => value
  | .error _ => floats.ofNat 0

/-- `compare`. -/
def compare : Computed F → Computed F → Ordering
  | .text a, .text b => unicode.cmp (unicode.toLowercase a) (unicode.toLowercase b)
  | .text a, .empty => if a.isEmpty then .eq else .gt
  | .empty, .text b => if b.isEmpty then .eq else .lt
  | .bool a, .bool b => Ord.compare a b
  | left, right =>
    if rank left = 0 ∧ rank right = 0 then
      (floats.partialCmp (numberOrZero floats left) (numberOrZero floats right)).getD .eq
    else Ord.compare (rank left) (rank right)

/-- The verdict of a comparison operator. -/
def compareOp (op : String) (ordering : Ordering) : Bool :=
  match op with
  | "=" => ordering == .eq
  | "<>" => ordering != .eq
  | "<" => ordering == .lt
  | ">" => ordering == .gt
  | "<=" => ordering != .gt
  | _ => ordering != .lt

/-- `split_whitespace`. -/
def splitWhitespace : List Char → List (List Char)
  | [] => []
  | c :: rest =>
    if Text.isWhitespace c then splitWhitespace rest
    else
      match rest, splitWhitespace rest with
      | d :: _, word :: words =>
        if Text.isWhitespace d then [c] :: word :: words else (c :: word) :: words
      | _, words => [c] :: words

/-! ## Expressions -/

/-- A cell of the workbook: the index of its sheet and its address. -/
abbrev Key : Type := ℕ × CellRef

/-- A computation of the evaluator: it asks for cells and may leave the supported subset. -/
abbrev Eval (F : Type) (α : Type) : Type := Asking Key (Computed F) α

/-- `Evaluator::cell`, from inside of an expression. -/
def cell (sheet : ℕ) (cell : CellRef) : Eval F (Computed F) := .ask (sheet, cell) .done

/-- An error ends the evaluation with it as the value. -/
def orError {α : Type} (value : Except (Computed F) α) (next : α → Eval F (Computed F)) :
    Eval F (Computed F) :=
  match value with
  | .ok a => next a
  | .error error => pure error

/-- A value that is an error is the value of the whole. -/
def unlessError (value : Computed F) (next : Eval F (Computed F)) : Eval F (Computed F) :=
  match value with
  | .error error => pure (.error error)
  | _ => next

/-- The stored cells of a range, row by row. -/
def XlsxDocument.range (book : XlsxDocument F) (sheet : ℕ) (start stop : CellRef) : List CellRef :=
  ((book.cells sheet).map Prod.fst).filter fun cell =>
    decide (min start.row stop.row ≤ cell.row ∧ cell.row ≤ max start.row stop.row ∧
      min start.col stop.col ≤ cell.col ∧ cell.col ≤ max start.col stop.col)

/-- `Evaluator::sheet_index`. -/
def targetSheet (book : XlsxDocument F) (current : ℕ) : Option (List Char) → Option ℕ
  | none => some current
  | some name => book.sheetIndex name

/-- `Evaluator::values` of a range. -/
def rangeValues (book : XlsxDocument F) (sheet : ℕ) (name : Option (List Char))
    (start stop : CellRef) : Eval F (List (Computed F)) :=
  match targetSheet book sheet name with
  | none => pure [.error "#REF!"]
  | some target =>
    if maxRangeCells < (max start.row stop.row - min start.row stop.row + 1) *
        (max start.col stop.col - min start.col stop.col + 1) then .giveUp
    else (book.range target start stop).mapM (cell target)

/-- An argument of a call: what it is worth as a single value, and as a list of values. -/
structure Arg (F : Type) where
  isRange : Bool
  scalar : Eval F (Computed F)
  values : Eval F (List (Computed F))

/-- `Evaluator::numbers`, for the values of one argument: ranges contribute only their numbers. -/
def argNumbers (isRange : Bool) : List (Computed F) → Except (Computed F) (List F)
  | [] => .ok []
  | .error error :: _ => .error (.error error)
  | .number value :: rest => (argNumbers isRange rest).map (value :: ·)
  | other :: rest =>
    if isRange then argNumbers isRange rest
    else
      (number floats other).bind fun value => (argNumbers isRange rest).map (value :: ·)

/-- `Evaluator::numbers`. -/
def numbers : List (Arg F) → (next : List F → Eval F (Computed F)) → Eval F (Computed F)
  | [], next => next []
  | arg :: args, next => do
    let values ← arg.values
    orError (argNumbers floats arg.isRange values) fun values' =>
      numbers args fun rest => next (values' ++ rest)

/-- How many of the arguments' values pass a test. -/
def countValues (test : Computed F → Bool) : List (Arg F) → Eval F ℕ
  | [] => pure 0
  | arg :: args => do
    let values ← arg.values
    let rest ← countValues test args
    pure (values.countP test + rest)

/-- The conditions among the values of an argument of `AND` and `OR`. -/
def argFlags (isRange : Bool) : List (Computed F) → Except (Computed F) (List Bool)
  | [] => .ok []
  | value :: rest =>
    match value, isRange with
    | .empty, true => argFlags isRange rest
    | .text _, true => argFlags isRange rest
    | _, _ => (truthy floats value).bind fun flag => (argFlags isRange rest).map (flag :: ·)

/-- The conditions among the arguments of `AND` and `OR`. -/
def flags : List (Arg F) → (next : List Bool → Eval F (Computed F)) → Eval F (Computed F)
  | [], next => next []
  | arg :: args, next => do
    let values ← arg.values
    orError (argFlags floats arg.isRange values) fun values' =>
      flags args fun rest => next (values' ++ rest)

/-- The text of the values, up to the first error. -/
def argTexts : List (Computed F) → Except (Computed F) (List Char)
  | [] => .ok []
  | .error error :: _ => .error (.error error)
  | value :: rest => (argTexts rest).map (text floats value ++ ·)

/-- The text of all arguments, for `CONCATENATE`. -/
def texts : List (Arg F) → (next : List Char → Eval F (Computed F)) → Eval F (Computed F)
  | [], next => next []
  | arg :: args, next => do
    let values ← arg.values
    orError (argTexts floats values) fun out => texts args fun rest => next (out ++ rest)

/-- `ROUND`, `ROUNDUP` and `ROUNDDOWN`: binary noise is stripped first. -/
def roundTo (name : String) (value digits : F) : Computed F :=
  let factor := floats.powi10 (floats.trunc digits)
  let product := floats.mul value factor
  let scaled := (floats.parse (floats.fixed9 product)).getD product
  let rounded :=
    match name with
    | "ROUND" => floats.copysign (floats.round (floats.abs scaled)) scaled
    | "ROUNDUP" => floats.copysign (floats.ceil (floats.abs scaled)) scaled
    | _ => floats.trunc scaled
  finite floats (floats.div rounded factor)

/-- The functions of numbers. -/
def aggregate (name : String) (values : List F) : Computed F :=
  match name with
  | "SUM" => finite floats (floats.sum values)
  | "PRODUCT" => finite floats (floats.product values)
  | "AVERAGE" =>
    if values.isEmpty then .error "#DIV/0!"
    else finite floats (floats.div (floats.sum values) (floats.ofNat values.length))
  | "MIN" => .number (if values.isEmpty then floats.ofNat 0 else floats.minimum values)
  | _ => .number (if values.isEmpty then floats.ofNat 0 else floats.maximum values)

/-- The functions of a text. -/
def textFunction (name : String) (value : List Char) : Computed F :=
  match name with
  | "LEN" => .number (floats.ofNat value.length)
  | "UPPER" => .text (unicode.toUppercase value)
  | "LOWER" => .text (unicode.toLowercase value)
  | _ => .text ([' '].intercalate (splitWhitespace value))

/-- `Evaluator::call`. -/
def call (name : String) (args : List (Arg F)) : Eval F (Computed F) :=
  if name = "COUNT" then do
    let count ← countValues (fun value => match value with | .number _ => true | _ => false) args
    pure (.number (floats.ofNat count))
  else if name ∈ ["SUM", "AVERAGE", "MIN", "MAX", "PRODUCT"] then
    numbers floats args fun values => pure (aggregate floats name values)
  else if name = "COUNTA" then do
    let count ← countValues (fun value => match value with | .empty => false | _ => true) args
    pure (.number (floats.ofNat count))
  else if name ∈ ["ROUND", "ROUNDUP", "ROUNDDOWN"] then
    match args with
    | [arg] => do
      let value ← arg.scalar
      orError (number floats value) fun value => pure (roundTo floats name value (floats.ofNat 0))
    | [arg, places] => do
      let value ← arg.scalar
      let digits ← places.scalar
      orError (number floats value) fun value =>
        orError (number floats digits) fun digits => pure (roundTo floats name value digits)
    | _ => .giveUp
  else if name = "ABS" then
    match args with
    | [arg] => do
      let value ← arg.scalar
      orError (number floats value) fun value => pure (.number (floats.abs value))
    | _ => .giveUp
  else if name = "IF" then
    match args with
    | [test, yes] => do
      let value ← test.scalar
      orError (truthy floats value) fun flag => if flag then yes.scalar else pure (.bool false)
    | [test, yes, no] => do
      let value ← test.scalar
      orError (truthy floats value) fun flag => if flag then yes.scalar else no.scalar
    | _ => .giveUp
  else if name = "IFERROR" then
    match args with
    | [arg, instead] => do
      let value ← arg.scalar
      match value with
      | .error _ => instead.scalar
      | value => pure value
    | _ => .giveUp
  else if name ∈ ["AND", "OR"] then
    flags floats args fun results => pure <|
      if results.isEmpty then .error "#VALUE!"
      else if name = "AND" then .bool (results.all id)
      else .bool (results.any id)
  else if name = "NOT" then
    match args with
    | [arg] => do
      let value ← arg.scalar
      orError (truthy floats value) fun flag => pure (.bool !flag)
    | _ => .giveUp
  else if name ∈ ["CONCATENATE", "CONCAT"] then
    texts floats args fun out => pure (.text out)
  else if name ∈ ["LEN", "UPPER", "LOWER", "TRIM"] then
    match args with
    | [arg] => do
      let value ← arg.scalar
      unlessError value (pure (textFunction floats unicode name (text floats value)))
    | _ => .giveUp
  else .giveUp

/-- The value of an arithmetic operator. -/
def arithmetic (op : String) (a b : F) : Eval F (Computed F) :=
  match op with
  | "+" => pure (finite floats (floats.add a b))
  | "-" => pure (finite floats (floats.sub a b))
  | "*" => pure (finite floats (floats.mul a b))
  | "/" =>
    pure (if floats.eq b (floats.ofNat 0) then .error "#DIV/0!"
      else finite floats (floats.div a b))
  | "^" => pure (finite floats (floats.powf a b))
  | _ => .giveUp

mutual

/-- `Evaluator::scalar`. -/
def scalar (book : XlsxDocument F) (sheet : ℕ) : Expr F → Eval F (Computed F)
  | .number value => pure (.number value)
  | .text text => pure (.text text)
  | .bool value => pure (.bool value)
  | .error error => pure (.error error)
  | .cell name address =>
    match targetSheet book sheet name with
    | some target => cell target address
    | none => pure (.error "#REF!")
  | .range name start stop =>
    if start = stop then do
      let values ← rangeValues book sheet name start stop
      pure (values.headD .empty)
    else .giveUp
  | .negate inner => do
    let value ← scalar book sheet inner
    orError (number floats value) fun value => pure (.number (floats.neg value))
  | .percent inner => do
    let value ← scalar book sheet inner
    orError (number floats value) fun value =>
      pure (.number (floats.div value (floats.ofNat 100)))
  | .binary op left right => do
    let left ← scalar book sheet left
    let right ← scalar book sheet right
    if op = "&" then
      unlessError left (unlessError right (pure (.text (text floats left ++ text floats right))))
    else
      orError (number floats left) fun a =>
        orError (number floats right) fun b => arithmetic floats op a b
  | .compare op left right => do
    let left ← scalar book sheet left
    let right ← scalar book sheet right
    unlessError left (unlessError right
      (pure (.bool (compareOp op (compare floats unicode left right)))))
  | .call name args => call floats unicode name (callArgs book sheet args)

/-- The arguments of a call, with `Evaluator::values` of each: a range has its cells, and another
expression its value. -/
def callArgs (book : XlsxDocument F) (sheet : ℕ) : List (Expr F) → List (Arg F)
  | [] => []
  | expr :: rest =>
    let value := scalar book sheet expr
    let arg : Arg F :=
      match expr with
      | .range name start stop => ⟨true, value, rangeValues book sheet name start stop⟩
      | _ => ⟨false, value, value.bind fun value => pure [value]⟩
    arg :: callArgs book sheet rest

end

/-! ## The workbook -/

/-- The stored cell with an address. -/
def XlsxDocument.get (book : XlsxDocument F) (key : Key) : Option (Cell F) :=
  ((book.cells key.1).find? fun entry => entry.1 == key.2).map Prod.snd

/-- The value of a cell without a formula. -/
def literal : CellValue F → Computed F
  | .number number => .number number
  | .string text => .text text
  | .bool value => .bool value
  | .other => .empty

/-- The value of a formula on a sheet, if it can be read. -/
def evaluateFormula (book : XlsxDocument F) (sheet : ℕ) (formula : List Char) :
    Eval F (Computed F) :=
  match parse floats unicode formula with
  | none => .giveUp
  | some expr => scalar floats unicode book sheet expr

/-- What a cell is worth: a value of its own, or its formula's. -/
def rule (book : XlsxDocument F) (key : Key) : Computed F ⊕ Eval F (Computed F) :=
  match book.get key with
  | none => .inl .empty
  | some stored =>
    match stored.formula with
    | none => .inl (literal stored.value)
    | some formula => .inr (evaluateFormula floats unicode book key.1 formula)

/-- The cells with a formula, in the order in which they are visited. -/
def formulaCells (book : XlsxDocument F) : List Key :=
  book.sheets.zipIdx.flatMap fun sheet =>
    (sheet.1.cells.filter fun entry => entry.2.formula.isSome).map fun entry => (sheet.2, entry.1)

/-- The table after the walk over the workbook. -/
def evaluated (book : XlsxDocument F) : Table Key (Computed F) :=
  Table.walk (rule floats unicode book) maxDepth (formulaCells book) .empty

/-- `evaluate_workbook`: the value that is held for a cell. -/
def evaluateWorkbook (book : XlsxDocument F) (key : Key) : Option (Computed F) :=
  ((evaluated floats unicode book).memo.lookup key).join

/-- The plain evaluation of a cell, without a memo, through formulas nested at most so deeply. -/
def evaluatePlainly (book : XlsxDocument F) (depth : ℕ) (key : Key) : Option (Computed F) :=
  plain (rule floats unicode book) depth key

end Xlsx

end OpenBitFun
