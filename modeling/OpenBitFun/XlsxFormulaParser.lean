import OpenBitFun.Text
import OpenBitFun.XlsxAddress

/-!
# Reading formulas

The evaluator's own reader of formulas (`eval.rs`): the text is cut into tokens, and these are
parsed by precedence. What is outside the supported subset is not read at all. Numbers are `f64` in
the program and a parameter here, with the operations that are used of them; so are the Unicode
tables.
-/

namespace OpenBitFun

namespace Xlsx

/-! ## Numbers and characters -/

/-- What is used of `f64`. -/
structure Floats (F : Type) where
  /-- `str::parse`. -/
  parse : List Char → Option F
  /-- `as f64`. -/
  ofNat : ℕ → F
  neg : F → F
  add : F → F → F
  sub : F → F → F
  mul : F → F → F
  div : F → F → F
  powf : F → F → F
  /-- `partial_cmp`. -/
  partialCmp : F → F → Option Ordering
  isFinite : F → Bool
  abs : F → F
  trunc : F → F
  round : F → F
  ceil : F → F
  copysign : F → F → F
  /-- `10f64.powi(x as i32)`. -/
  powi10 : F → F
  /-- `Iterator::sum`. -/
  sum : List F → F
  /-- `Iterator::product`. -/
  product : List F → F
  /-- The fold of `f64::min` from infinity. -/
  minimum : List F → F
  /-- The fold of `f64::max` from minus infinity. -/
  maximum : List F → F
  /-- `{:.9}`. -/
  fixed9 : F → List Char
  /-- `{:.14e}`. -/
  scientific14 : F → List Char
  /-- `to_string`. -/
  display : F → List Char

/-- What is used of the Unicode tables, which extend those of ASCII. -/
structure Unicode where
  isAlphabetic : Char → Bool
  isAlphanumeric : Char → Bool
  alphabetic_ascii : ∀ c, c.toNat < 128 → isAlphabetic c = isAsciiAlphabetic c
  alphanumeric_ascii : ∀ c, c.toNat < 128 →
    isAlphanumeric c = (isAsciiAlphabetic c || isAsciiDigit c)
  toUppercase : List Char → List Char
  toLowercase : List Char → List Char
  /-- The order of strings, which is the order of their UTF-8. -/
  cmp : List Char → List Char → Ordering

/-- Characters of ASCII. -/
def Unicode.ascii : Unicode where
  isAlphabetic := isAsciiAlphabetic
  isAlphanumeric c := isAsciiAlphabetic c || isAsciiDigit c
  alphabetic_ascii _ _ := rfl
  alphanumeric_ascii _ _ := rfl
  toUppercase s := s.map toAsciiUppercase
  toLowercase := Text.toAsciiLowercase
  cmp a b := Ord.compare (String.ofList a) (String.ofList b)

/-! ## Expressions and tokens -/

/-- `Expr`. -/
inductive Expr (F : Type)
  | number (value : F)
  | text (text : List Char)
  | bool (value : Bool)
  | error (error : String)
  | cell (sheet : Option (List Char)) (cell : CellRef)
  | range (sheet : Option (List Char)) (start stop : CellRef)
  | negate (inner : Expr F)
  | percent (inner : Expr F)
  | binary (op : String) (left right : Expr F)
  | compare (op : String) (left right : Expr F)
  | call (name : String) (args : List (Expr F))

/-- `Token`. -/
inductive Token (F : Type)
  | number (value : F)
  | text (text : List Char)
  | ident (name : String)
  | ref (sheet : Option (List Char)) (cell : CellRef)
  | error (error : String)
  | op (op : String)

/-- `ERRORS`. -/
def errors : List String :=
  ["#DIV/0!", "#N/A", "#NAME?", "#NULL!", "#NUM!", "#REF!", "#VALUE!"]

/-! ## Tokens -/

variable {F : Type} (floats : Floats F) (unicode : Unicode)

/-- The text up to a closing quote, behind the opening one; a doubled quote stands for itself. -/
def readQuoted (quote : Char) : List Char → Option (List Char × List Char)
  | [] => none
  | [c] => if c = quote then some ([], []) else none
  | c :: d :: rest =>
    if c = quote then
      if d = quote then (readQuoted quote rest).map fun read => (quote :: read.1, read.2)
      else some ([], d :: rest)
    else (readQuoted quote (d :: rest)).map fun read => (c :: read.1, read.2)

/-- The exponent of a number, if there is a whole one. -/
def readExponent : List Char → List Char × List Char
  | [] => ([], [])
  | e :: rest =>
    if e = 'e' || e = 'E' then
      let sign := (rest.take 1).filter fun c => c = '+' || c = '-'
      let rest' := rest.drop sign.length
      if (rest'.head?.any isAsciiDigit) then
        (e :: sign ++ rest'.takeWhile isAsciiDigit, rest'.dropWhile isAsciiDigit)
      else ([], e :: rest)
    else ([], e :: rest)

/-- The text of a number. -/
def readNumber (chars : List Char) : List Char × List Char :=
  let mantissa := chars.takeWhile fun c => isAsciiDigit c || c = '.'
  let exponent := readExponent (chars.dropWhile fun c => isAsciiDigit c || c = '.')
  (mantissa ++ exponent.1, exponent.2)

/-- A dollar sign in front is skipped. -/
def skipDollar : List Char → List Char
  | '$' :: rest => rest
  | chars => chars

/-- `lex_cell`. -/
def lexCell (chars : List Char) : Option (CellRef × List Char) :=
  let chars := skipDollar chars
  let letters := (chars.take 3).takeWhile isAsciiAlphabetic
  (columnNumber letters).bind fun col =>
    let rest := skipDollar (chars.drop letters.length)
    (parseU32 (rest.takeWhile isAsciiDigit)).bind fun row =>
      if 1 ≤ row ∧ row ≤ maxRows then some (⟨row, col⟩, rest.dropWhile isAsciiDigit) else none

/-- A character of a bare name. -/
def isBareName (c : Char) : Bool := unicode.isAlphanumeric c || c = '_' || c = '.'

/-- The sheet in front of a reference: a quoted name, which must be followed by `!`, or a bare one,
which is only a sheet when it is. -/
def lexSheet (chars : List Char) : Option (Option (List Char) × List Char) :=
  match chars with
  | '\'' :: rest =>
    (readQuoted '\'' rest).bind fun read =>
      match read.2 with
      | '!' :: rest => some (some read.1, rest)
      | _ => none
  | _ =>
    let name := chars.takeWhile (isBareName unicode)
    match name, chars.dropWhile (isBareName unicode) with
    | _ :: _, '!' :: rest => some (some name, rest)
    | _, _ => some (none, chars)

/-- A bare name, which is not a reference. -/
def lexName (chars : List Char) : Option (Token F × List Char) :=
  let name := chars.takeWhile (isBareName unicode)
  if name.isEmpty then none
  else some (.ident (String.ofList (name.map toAsciiUppercase)), chars.drop name.length)

/-- `lex_name_or_ref`. -/
def lexNameOrRef (chars : List Char) : Option (Token F × List Char) :=
  (lexSheet unicode chars).bind fun sheet =>
    match lexCell sheet.2 with
    | some (cell, next) =>
      if next.head?.any fun c => unicode.isAlphanumeric c || c = '_' || c = '(' then
        -- Names on other sheets and whole rows or columns are out of scope.
        if sheet.1.isSome then none else lexName unicode sheet.2
      else some (.ref sheet.1 cell, next)
    | none => if sheet.1.isSome then none else lexName unicode sheet.2

/-- The operators of one character. -/
def operators : List Char := ['+', '-', '*', '/', '^', '&', '=', '<', '>', '%', ',', '(', ')', ':']

/-- One token from the first character on, which is not a blank. -/
def lexToken (c : Char) (rest : List Char) : Option (Token F × List Char) :=
  if c = '"' then (readQuoted '"' rest).map fun read => (.text read.1, read.2)
  else if c = '#' then
    (errors.find? fun error => Text.startsWith (c :: rest) error).map fun error =>
      (.error error, (c :: rest).drop error.length)
  else if isAsciiDigit c || (c = '.' && rest.head?.any isAsciiDigit) then
    let read := readNumber (c :: rest)
    (floats.parse read.1).map fun value => (.number value, read.2)
  else if c = '\'' || c = '$' || unicode.isAlphabetic c || c = '_' then
    lexNameOrRef unicode (c :: rest)
  else
    match c, rest with
    | '<', '>' :: rest => some (.op "<>", rest)
    | '<', '=' :: rest => some (.op "<=", rest)
    | '>', '=' :: rest => some (.op ">=", rest)
    | _, _ => if c ∈ operators then some (.op (String.singleton c), rest) else none

/-- `tokenize` of the rest of a text; every step reads at least one character. -/
def tokenizeFrom : (length : ℕ) → List Char → Option (List (Token F))
  | _, [] => some []
  | 0, _ :: _ => none
  | length + 1, c :: rest =>
    if Text.isWhitespace c then tokenizeFrom length rest
    else
      (lexToken floats unicode c rest).bind fun token =>
        (tokenizeFrom length token.2).map (token.1 :: ·)

/-- `tokenize`. -/
def tokenize (formula : List Char) : Option (List (Token F)) :=
  tokenizeFrom floats unicode formula.length formula

/-! ## Expressions -/

/-- A reader of expressions from the tokens that are left. -/
abbrev Reader (F : Type) : Type := List (Token F) → Option (Expr F × List (Token F))

/-- `eat`. -/
def eat (op : String) : List (Token F) → Option (List (Token F))
  | .op op' :: rest => if op = op' then some rest else none
  | _ => none

/-- The loop of a left-associative operator: each round reads an operator and an operand. -/
def operatorLoop (operand : Reader F) (ops : List String)
    (combine : String → Expr F → Expr F → Expr F) : (rounds : ℕ) → Expr F → Reader F
  | rounds + 1, left, .op op :: rest =>
    if op ∈ ops then
      (operand rest).bind fun right =>
        operatorLoop operand ops combine rounds (combine op left right.1) right.2
    else some (left, .op op :: rest)
  | _, left, tokens => some (left, tokens)

/-- A level of left-associative operators. -/
def operatorLevel (operand : Reader F) (ops : List String)
    (combine : String → Expr F → Expr F → Expr F) : Reader F := fun tokens =>
  (operand tokens).bind fun left =>
    operatorLoop operand ops combine left.2.length left.1 left.2

/-- The percent signs behind an operand. -/
def percents (expr : Expr F) : List (Token F) → Expr F × List (Token F)
  | .op "%" :: rest => percents (.percent expr) rest
  | tokens => (expr, tokens)

/-- `unary`. -/
def unary (primary : Reader F) : Reader F
  | .op "-" :: rest => (unary primary rest).map fun inner => (.negate inner.1, inner.2)
  | .op "+" :: rest => unary primary rest
  | tokens => (primary tokens).map fun expr => percents expr.1 expr.2

/-- `power`. -/
def power (primary : Reader F) : Reader F := operatorLevel (unary primary) ["^"] .binary

/-- `multiplicative`. -/
def multiplicative (primary : Reader F) : Reader F :=
  operatorLevel (power primary) ["*", "/"] .binary

/-- `additive`. -/
def additive (primary : Reader F) : Reader F :=
  operatorLevel (multiplicative primary) ["+", "-"] .binary

/-- `concat`. -/
def concat (primary : Reader F) : Reader F := operatorLevel (additive primary) ["&"] .binary

/-- `comparison`. -/
def comparison (primary : Reader F) : Reader F :=
  operatorLevel (concat primary) ["=", "<>", "<", ">", "<=", ">="] .compare

/-- The arguments of a call up to the closing parenthesis, at least one. -/
def arguments (argument : Reader F) :
    (rounds : ℕ) → List (Token F) → Option (List (Expr F) × List (Token F))
  | 0, _ => none
  | rounds + 1, tokens =>
    (argument tokens).bind fun arg =>
      match eat "," arg.2, eat ")" arg.2 with
      | some rest, _ =>
        (arguments argument rounds rest).map fun args => (arg.1 :: args.1, args.2)
      | none, some rest => some ([arg.1], rest)
      | none, none => none

/-- `trim_start_matches("_XLFN.")`. -/
def trimXlfn : (rounds : ℕ) → List Char → List Char
  | 0, name => name
  | rounds + 1, name =>
    if Text.startsWith name "_XLFN." then trimXlfn rounds (name.drop 6) else name

/-- `primary`. Parentheses and calls are one level deeper, behind a token that is read. -/
def primary : (levels : ℕ) → Reader F
  | _, [] => none
  | 0, _ :: _ => none
  | levels + 1, token :: rest =>
    match token with
    | .number value => some (.number value, rest)
    | .text text => some (.text text, rest)
    | .error error => some (.error error, rest)
    | .ref sheet cell =>
      match eat ":" rest with
      | some (.ref none stop :: rest) => some (.range sheet cell stop, rest)
      | some _ => none
      | none => some (.cell sheet cell, rest)
    | .ident name =>
      match eat "(" rest with
      | some rest =>
        let name := String.ofList (trimXlfn name.length name.toList)
        match eat ")" rest with
        | some rest => some (.call name [], rest)
        | none =>
          (arguments (comparison (primary levels)) rest.length rest).map fun args =>
            (.call name args.1, args.2)
      | none =>
        if name = "TRUE" then some (.bool true, rest)
        else if name = "FALSE" then some (.bool false, rest)
        else none
    | .op "(" =>
      (comparison (primary levels) rest).bind fun inner =>
        (eat ")" inner.2).map fun rest => (inner.1, rest)
    | .op _ => none

/-- `parse`: all tokens belong to the expression. -/
def parse (formula : List Char) : Option (Expr F) :=
  (tokenize floats unicode formula).bind fun tokens =>
    (comparison (primary (tokens.length + 1)) tokens).bind fun expr =>
      if expr.2.isEmpty then some expr.1 else none

end Xlsx

end OpenBitFun
