import OpenBitFun.JsonGrammar
import OpenBitFun.Text

/-!
# JSON with comments

`strip_jsonc` (`jsonc.rs`) goes over a text twice: once to take the comments out, and once to take
out the commas in front of a closing bracket. Each time it keeps track of the string it is in.
-/

namespace OpenBitFun

namespace Jsonc

open JsonGrammar Text

/-! ## Comments -/

/-- Where the first loop is: in the text, in a string (`escaped` behind a backslash), or in one of
the loops over a comment. -/
inductive Place where
  | text
  | string (escaped : Bool)
  | line
  | block
  deriving DecidableEq, Repr

/-- Behind a character of a string. -/
def Place.next (escaped : Bool) (current : Char) : Place :=
  if escaped then .string false
  else if current = '\\' then .string true
  else if current = '"' then .text
  else .string false

/-- The loop that takes the comments out. The feeds of the lines in them stay. -/
def withoutComments : Place → List Char → List Char
  | _, [] => []
  | .string escaped, current :: chars =>
    current :: withoutComments (Place.next escaped current) chars
  | .line, current :: chars =>
    if current = '\n' then '\n' :: withoutComments .text chars else withoutComments .line chars
  -- a comment that is not ended takes the last character with it
  | .block, [_] => []
  | .block, current :: next :: chars =>
    if current = '*' ∧ next = '/' then withoutComments .text chars
    else if current = '\n' then '\n' :: withoutComments .block (next :: chars)
    else withoutComments .block (next :: chars)
  | .text, [current] => [current]
  | .text, current :: next :: chars =>
    if current = '"' then '"' :: withoutComments (.string false) (next :: chars)
    else if current = '/' ∧ next = '/' then withoutComments .line chars
    else if current = '/' ∧ next = '*' then withoutComments .block chars
    else current :: withoutComments .text (next :: chars)

/-! ## Trailing commas -/

/-- The lookahead behind a comma: whether a closing bracket is next. -/
def closesNext (chars : List Char) : Bool :=
  match chars.dropWhile isWhitespace with
  | '}' :: _ => true
  | ']' :: _ => true
  | _ => false

/-- The loop that takes the trailing commas out, in a string if there is one. -/
def withoutTrailingCommas : Option Bool → List Char → List Char
  | _, [] => []
  | some escaped, current :: chars =>
    current :: withoutTrailingCommas (match Place.next escaped current with
      | .string escaped => some escaped
      | _ => none) chars
  | none, current :: chars =>
    if current = '"' then '"' :: withoutTrailingCommas (some false) chars
    else if current = ',' ∧ closesNext chars then withoutTrailingCommas none chars
    else current :: withoutTrailingCommas none chars

/-- `strip_jsonc`. -/
def stripJsonc (input : List Char) : List Char :=
  withoutTrailingCommas none (withoutComments .text input)

end Jsonc

end OpenBitFun
