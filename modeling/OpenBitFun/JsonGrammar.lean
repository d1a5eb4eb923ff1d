import Mathlib

/-!
# The grammar of JSON

A text is tokens with gaps between them. Which tokens make a document is a grammar over tokens;
what may stand in a gap is a parameter, so that JSON with comments is the same grammar with wider
gaps and with trailing commas. A document keeps its strings and scalars as they are spelled, so that
one document has one value.
-/

namespace OpenBitFun

open List

namespace JsonGrammar

/-! ## Lexemes -/

/-- A character of a `\u` escape. -/
def IsHexDigit (c : Char) : Prop :=
  c.isDigit ∨ ('a' ≤ c ∧ c ≤ 'f') ∨ ('A' ≤ c ∧ c ≤ 'F')

/-- What stands between the quotes of a string. -/
inductive StringBody : List Char → Prop
  | nil : StringBody []
  /-- Any character that is no control character, quote or backslash. -/
  | char {c : Char} {rest : List Char} : c ≠ '"' → c ≠ '\\' → 0x20 ≤ c.toNat → StringBody rest →
      StringBody (c :: rest)
  | escape {c : Char} {rest : List Char} : c ∈ ['"', '\\', '/', 'b', 'f', 'n', 'r', 't'] →
      StringBody rest → StringBody ('\\' :: c :: rest)
  | unicode {a b c d : Char} {rest : List Char} :
      IsHexDigit a → IsHexDigit b → IsHexDigit c → IsHexDigit d → StringBody rest →
      StringBody ('\\' :: 'u' :: a :: b :: c :: d :: rest)

/-- One or more digits. -/
def IsDigits (text : List Char) : Prop := text ≠ [] ∧ ∀ c ∈ text, c.isDigit

/-- The integer part of a number, which has no leading zero. -/
def IsInteger (text : List Char) : Prop :=
  text = ['0'] ∨ IsDigits text ∧ text.head? ≠ some '0'

/-- A number. -/
inductive IsNumber : List Char → Prop
  | mk {sign integer fraction exponent : List Char} : sign = [] ∨ sign = ['-'] →
      IsInteger integer → fraction = [] ∨ (∃ digits, IsDigits digits ∧ fraction = '.' :: digits) →
      exponent = [] ∨ (∃ e ∈ ['e', 'E'], ∃ s ∈ [[], ['+'], ['-']], ∃ digits,
        IsDigits digits ∧ exponent = e :: (s ++ digits)) →
      IsNumber (sign ++ integer ++ fraction ++ exponent)

/-- A number, or one of the three names. -/
def IsScalar (text : List Char) : Prop :=
  IsNumber text ∨ text ∈ ["true".toList, "false".toList, "null".toList]

/-! ## Tokens -/

/-- A token. -/
inductive Token where
  | openArray
  | closeArray
  | openObject
  | closeObject
  | colon
  | comma
  /-- What stands between the quotes. -/
  | string (body : List Char)
  | scalar (text : List Char)
  deriving DecidableEq, Repr

/-- The characters of a token. -/
def Token.chars : Token → List Char
  | openArray => ['[']
  | closeArray => [']']
  | openObject => ['{']
  | closeObject => ['}']
  | colon => [':']
  | comma => [',']
  | string body => '"' :: (body ++ ['"'])
  | scalar text => text

/-- Whether a token can be read. -/
def Token.Valid : Token → Prop
  | string body => StringBody body
  | scalar text => IsScalar text
  | _ => True

/-- The closing brackets. -/
def Token.closes : Token → Bool
  | closeArray => true
  | closeObject => true
  | _ => false

/-- The strings among the tokens, as they are spelled. -/
def literals (tokens : List Token) : List (List Char) :=
  tokens.filterMap fun token => match token with
    | .string body => some body
    | _ => none

/-! ## Documents -/

/-- A document, with its strings and scalars as they are spelled. -/
inductive Document where
  | scalar (text : List Char)
  | string (body : List Char)
  | array (items : List Document)
  | object (members : List (List Char × Document))

/-- A part of a document. -/
inductive Phrase where
  | value (document : Document)
  /-- The items of an array that is not empty. -/
  | items (items : List Document)
  /-- The members of an object that is not empty. -/
  | members (members : List (List Char × Document))

/-- What may stand behind the last item or member. -/
def IsTail (trailing : Bool) (tail : List Token) : Prop :=
  tail = [] ∨ trailing = true ∧ tail = [.comma]

/-- The tokens of a part of a document, where a comma behind the last item may be allowed. -/
inductive Derives (trailing : Bool) : Phrase → List Token → Prop
  | scalar (text : List Char) : Derives trailing (.value (.scalar text)) [.scalar text]
  | string (body : List Char) : Derives trailing (.value (.string body)) [.string body]
  | emptyArray : Derives trailing (.value (.array [])) [.openArray, .closeArray]
  | emptyObject : Derives trailing (.value (.object [])) [.openObject, .closeObject]
  | array {items : List Document} {tokens tail : List Token} :
      Derives trailing (.items items) tokens → IsTail trailing tail →
      Derives trailing (.value (.array items)) (.openArray :: tokens ++ tail ++ [.closeArray])
  | object {members : List (List Char × Document)} {tokens tail : List Token} :
      Derives trailing (.members members) tokens → IsTail trailing tail →
      Derives trailing (.value (.object members)) (.openObject :: tokens ++ tail ++ [.closeObject])
  | lastItem {item : Document} {tokens : List Token} :
      Derives trailing (.value item) tokens → Derives trailing (.items [item]) tokens
  | item {item : Document} {items : List Document} {tokens more : List Token} :
      Derives trailing (.value item) tokens → Derives trailing (.items items) more →
      Derives trailing (.items (item :: items)) (tokens ++ .comma :: more)
  | lastMember {key : List Char} {value : Document} {tokens : List Token} :
      Derives trailing (.value value) tokens →
      Derives trailing (.members [(key, value)]) (.string key :: .colon :: tokens)
  | member {key : List Char} {value : Document} {members : List (List Char × Document)}
      {tokens more : List Token} :
      Derives trailing (.value value) tokens → Derives trailing (.members members) more →
      Derives trailing (.members ((key, value) :: members))
        (.string key :: .colon :: tokens ++ .comma :: more)

/-! ## Texts -/

/-- Tokens with a gap before each, and a last gap. -/
inductive Laid (Gap Last : List Char → Prop) : List Token → List Char → Prop
  | nil {gap : List Char} : Last gap → Laid Gap Last [] gap
  | cons {gap rest : List Char} {token : Token} {tokens : List Token} :
      Gap gap → token.Valid → Laid Gap Last tokens rest →
      Laid Gap Last (token :: tokens) (gap ++ token.chars ++ rest)

/-- The white space of JSON. -/
def IsGap (gap : List Char) : Prop := ∀ c ∈ gap, c ∈ [' ', '\t', '\n', '\r']

/-- A text of JSON. -/
def IsJson (document : Document) (text : List Char) : Prop :=
  ∃ tokens, Derives false (.value document) tokens ∧ Laid IsGap IsGap tokens text

/-- White space and comments: a line comment with its line feed, and a block comment, which ends
at the first end of a comment. -/
inductive IsTrivia : List Char → Prop
  | nil : IsTrivia []
  | blank {c : Char} {rest : List Char} : c ∈ [' ', '\t', '\n', '\r'] → IsTrivia rest →
      IsTrivia (c :: rest)
  | line {body rest : List Char} : '\n' ∉ body → IsTrivia rest →
      IsTrivia ('/' :: '/' :: (body ++ '\n' :: rest))
  | block {body rest : List Char} : ¬ ['*', '/'] <:+: body → IsTrivia rest →
      IsTrivia ('/' :: '*' :: (body ++ '*' :: '/' :: rest))

/-- White space and comments at the end of the input, which may end a line comment. -/
def IsLastTrivia (text : List Char) : Prop :=
  IsTrivia text ∨ ∃ gap body, IsTrivia gap ∧ '\n' ∉ body ∧ text = gap ++ '/' :: '/' :: body

/-- A text of JSON with comments and trailing commas. -/
def IsJsonc (document : Document) (text : List Char) : Prop :=
  ∃ tokens, Derives true (.value document) tokens ∧ Laid IsTrivia IsLastTrivia tokens text

/-! ## Trailing commas -/

/-- The tokens without the commas in front of a closing bracket. -/
def dropTrailing : List Token → List Token
  | [] => []
  | token :: tokens =>
    if token = .comma ∧ (tokens.head?.any Token.closes) then dropTrailing tokens
    else token :: dropTrailing tokens

/-- A comma in front of a closing bracket is dropped. -/
theorem dropTrailing_closes {tokens : List Token} (h : tokens.head?.any Token.closes = true) :
    dropTrailing (.comma :: tokens) = dropTrailing tokens := by
  rw [dropTrailing, if_pos ⟨rfl, h⟩]

/-- A comma in front of anything else stays. -/
theorem dropTrailing_comma {tokens : List Token} (h : tokens.head?.any Token.closes = false) :
    dropTrailing (.comma :: tokens) = .comma :: dropTrailing tokens := by
  rw [dropTrailing, if_neg (by simp [h])]

theorem dropTrailing_cons {token : Token} (h : token ≠ .comma) (tokens : List Token) :
    dropTrailing (token :: tokens) = token :: dropTrailing tokens := by
  rw [dropTrailing, if_neg fun hcomma => h hcomma.1]

@[simp] theorem dropTrailing_openArray (tokens : List Token) :
    dropTrailing (.openArray :: tokens) = .openArray :: dropTrailing tokens :=
  dropTrailing_cons (by nofun) tokens

@[simp] theorem dropTrailing_openObject (tokens : List Token) :
    dropTrailing (.openObject :: tokens) = .openObject :: dropTrailing tokens :=
  dropTrailing_cons (by nofun) tokens

@[simp] theorem dropTrailing_colon (tokens : List Token) :
    dropTrailing (.colon :: tokens) = .colon :: dropTrailing tokens :=
  dropTrailing_cons (by nofun) tokens

@[simp] theorem dropTrailing_string (body : List Char) (tokens : List Token) :
    dropTrailing (.string body :: tokens) = .string body :: dropTrailing tokens :=
  dropTrailing_cons (by nofun) tokens

/-- Dropping is done in each of two parts, unless the first ends with a comma or the second starts
with a closing bracket. -/
theorem dropTrailing_append {tokens more : List Token}
    (h : tokens.getLast? ≠ some .comma ∨ more.head?.any Token.closes = false) :
    dropTrailing (tokens ++ more) = dropTrailing tokens ++ dropTrailing more := by
  induction tokens with
  | nil => rfl
  | cons token tokens ih =>
    by_cases hcomma : token = .comma
    · subst hcomma
      cases tokens with
      | nil =>
        have hhead := h.resolve_left fun hlast => hlast rfl
        rw [singleton_append, dropTrailing_comma hhead, dropTrailing_comma rfl]
        rfl
      | cons next tokens =>
        have hrest := ih (by rwa [getLast?_cons_cons] at h)
        cases hcloses : next.closes with
        | true =>
          rw [cons_append, @dropTrailing_closes (next :: tokens ++ more) hcloses,
            @dropTrailing_closes (next :: tokens) hcloses, hrest]
        | false =>
          rw [cons_append, @dropTrailing_comma (next :: tokens ++ more) hcloses,
            @dropTrailing_comma (next :: tokens) hcloses, hrest, cons_append]
    · have hrest := ih (by
        cases tokens with
        | nil => exact .inl nofun
        | cons => rwa [getLast?_cons_cons] at h)
      rw [cons_append, dropTrailing_cons hcomma, dropTrailing_cons hcomma, hrest,
        cons_append]

theorem length_dropTrailing_le (tokens : List Token) :
    (dropTrailing tokens).length ≤ tokens.length := by
  induction tokens with
  | nil => exact Nat.le_refl 0
  | cons token tokens ih =>
    rw [dropTrailing]
    split
    · exact Nat.le_succ_of_le ih
    · exact Nat.succ_le_succ ih

theorem literals_dropTrailing (tokens : List Token) :
    literals (dropTrailing tokens) = literals tokens := by
  induction tokens with
  | nil => rfl
  | cons token tokens ih =>
    rw [dropTrailing]
    split
    · rename_i h
      rw [ih, h.1]
      rfl
    · rw [literals, filterMap_cons, literals, filterMap_cons]
      cases token with
      | string body => exact congrArg _ ih
      | _ => exact ih

/-- The tokens of a part of a document neither start with a closing bracket nor end with a comma. -/
theorem Derives.ends {trailing : Bool} {phrase : Phrase} {tokens : List Token}
    (h : Derives trailing phrase tokens) :
    tokens.head?.any Token.closes = false ∧
      ∃ last, tokens.getLast? = some last ∧ last ≠ .comma := by
  induction h with
  | scalar text => exact ⟨rfl, _, rfl, nofun⟩
  | string body => exact ⟨rfl, _, rfl, nofun⟩
  | emptyArray => exact ⟨rfl, _, rfl, nofun⟩
  | emptyObject => exact ⟨rfl, _, rfl, nofun⟩
  | array => exact ⟨rfl, _, getLast?_concat .., nofun⟩
  | object => exact ⟨rfl, _, getLast?_concat .., nofun⟩
  | lastItem _ ih => exact ih
  | @item _ _ tokens more _ _ ihvalue ihmore =>
    obtain ⟨last, hlast, hne⟩ := ihmore.2
    refine ⟨?_, last, ?_, hne⟩
    · cases tokens with
      | nil => rfl
      | cons => exact ihvalue.1
    · rw [getLast?_append, getLast?_cons, hlast]
      rfl
  | @lastMember _ _ tokens _ ih =>
    obtain ⟨last, hlast, hne⟩ := ih.2
    refine ⟨rfl, last, ?_, hne⟩
    rw [getLast?_cons, getLast?_cons, hlast]
    rfl
  | @member _ _ _ tokens more _ _ _ ihmore =>
    obtain ⟨last, hlast, hne⟩ := ihmore.2
    refine ⟨rfl, last, ?_, hne⟩
    rw [getLast?_append, getLast?_cons, hlast]
    rfl

/-- What ends with no comma can be dropped apart. -/
theorem Derives.dropTrailing_append {trailing : Bool} {phrase : Phrase} {tokens : List Token}
    (h : Derives trailing phrase tokens) (more : List Token) :
    dropTrailing (tokens ++ more) = dropTrailing tokens ++ dropTrailing more := by
  obtain ⟨-, last, hlast, hne⟩ := h.ends
  apply JsonGrammar.dropTrailing_append
  rw [hlast]
  exact .inl fun heq => hne (Option.some.inj heq)

/-- A comma in front of a part of a document stays. -/
theorem Derives.dropTrailing_comma {trailing : Bool} {phrase : Phrase} {tokens : List Token}
    (h : Derives trailing phrase tokens) :
    dropTrailing (.comma :: tokens) = .comma :: dropTrailing tokens :=
  JsonGrammar.dropTrailing_comma h.ends.1

/-- The tail of an array or object is dropped. -/
theorem dropTrailing_tail {trailing : Bool} {tail : List Token} (h : IsTail trailing tail)
    {close : Token} (hclose : close.closes = true) : dropTrailing (tail ++ [close]) = [close] := by
  have hcomma : close ≠ .comma := by
    rintro rfl
    cases hclose
  have hsingle : dropTrailing [close] = [close] := dropTrailing_cons hcomma []
  rcases h with rfl | ⟨-, rfl⟩
  · exact hsingle
  · rw [singleton_append, @dropTrailing_closes [close] hclose, hsingle]

/-- Without the trailing commas the tokens are those of the same document of JSON. -/
theorem Derives.dropTrailing {trailing : Bool} {phrase : Phrase} {tokens : List Token}
    (h : Derives trailing phrase tokens) : Derives false phrase (dropTrailing tokens) := by
  induction h with
  | scalar text => exact .scalar text
  | string body => exact .string body
  | emptyArray => exact .emptyArray
  | emptyObject => exact .emptyObject
  | array hitems htail ih =>
    rw [cons_append, cons_append, dropTrailing_openArray, append_assoc,
      hitems.dropTrailing_append, dropTrailing_tail htail rfl, ← cons_append]
    have := Derives.array ih (.inl rfl)
    rwa [append_nil] at this
  | object hmembers htail ih =>
    rw [cons_append, cons_append, dropTrailing_openObject, append_assoc,
      hmembers.dropTrailing_append, dropTrailing_tail htail rfl, ← cons_append]
    have := Derives.object ih (.inl rfl)
    rwa [append_nil] at this
  | lastItem _ ih => exact .lastItem ih
  | item hitem hitems ihitem ihitems =>
    rw [hitem.dropTrailing_append, hitems.dropTrailing_comma]
    exact .item ihitem ihitems
  | lastMember _ ih =>
    rw [dropTrailing_string, dropTrailing_colon]
    exact .lastMember ih
  | member hvalue hmembers ihvalue ihmembers =>
    rw [cons_append, cons_append, dropTrailing_string, dropTrailing_colon,
      hvalue.dropTrailing_append, hmembers.dropTrailing_comma]
    exact .member ihvalue ihmembers

theorem Derives.dropTrailing_eq {phrase : Phrase} {tokens : List Token}
    (h : Derives false phrase tokens) : JsonGrammar.dropTrailing tokens = tokens := by
  induction h with
  | scalar text => rfl
  | string body => rfl
  | emptyArray => rfl
  | emptyObject => rfl
  | array hitems htail ih =>
    obtain rfl := htail.resolve_right fun htail => nomatch htail.1
    rw [cons_append, cons_append, dropTrailing_openArray, append_assoc,
      hitems.dropTrailing_append, dropTrailing_tail htail rfl, ih]
    rfl
  | object hmembers htail ih =>
    obtain rfl := htail.resolve_right fun htail => nomatch htail.1
    rw [cons_append, cons_append, dropTrailing_openObject, append_assoc,
      hmembers.dropTrailing_append, dropTrailing_tail htail rfl, ih]
    rfl
  | lastItem _ ih => exact ih
  | item hitem hitems ihitem ihitems =>
    rw [hitem.dropTrailing_append, hitems.dropTrailing_comma, ihitem, ihitems]
  | lastMember _ ih => rw [dropTrailing_string, dropTrailing_colon, ih]
  | member hvalue hmembers ihvalue ihmembers =>
    rw [cons_append, cons_append, dropTrailing_string, dropTrailing_colon,
      hvalue.dropTrailing_append, hmembers.dropTrailing_comma, ihvalue, ihmembers]

end JsonGrammar

end OpenBitFun
