import OpenBitFun.Jsonc

/-!
# Stripping keeps the document

Both loops go over a text token by token: each token comes out as it is, but for a comma in front of
a closing bracket, and of a gap only white space is left.
-/

namespace OpenBitFun

open List

namespace Jsonc

open JsonGrammar Text

/-! ## Characters -/

theorem withoutComments_quote (chars : List Char) :
    withoutComments .text ('"' :: chars) = '"' :: withoutComments (.string false) chars := by
  cases chars with
  | nil => rfl
  | cons next chars => rfl

/-- A character that starts nothing is copied. -/
theorem withoutComments_char {c : Char} (hquote : c ≠ '"') (hslash : c ≠ '/')
    (chars : List Char) :
    withoutComments .text (c :: chars) = c :: withoutComments .text chars := by
  cases chars with
  | nil => rfl
  | cons next chars =>
    rw [withoutComments, if_neg hquote, if_neg fun h => hslash h.1, if_neg fun h => hslash h.1]

theorem withoutComments_chars {text : List Char} (h : ∀ c ∈ text, c ≠ '"' ∧ c ≠ '/')
    (chars : List Char) :
    withoutComments .text (text ++ chars) = text ++ withoutComments .text chars := by
  induction text with
  | nil => rfl
  | cons c text ih =>
    obtain ⟨⟨hquote, hslash⟩, htext⟩ := forall_mem_cons.1 h
    rw [cons_append, withoutComments_char hquote hslash, ih htext, cons_append]

/-- Characters that start nothing are copied by the second loop. -/
theorem withoutTrailingCommas_chars {text : List Char} (h : ∀ c ∈ text, c ≠ '"' ∧ c ≠ ',')
    (chars : List Char) :
    withoutTrailingCommas none (text ++ chars) = text ++ withoutTrailingCommas none chars := by
  induction text with
  | nil => rfl
  | cons c text ih =>
    obtain ⟨⟨hquote, hcomma⟩, htext⟩ := forall_mem_cons.1 h
    rw [cons_append, withoutTrailingCommas, if_neg hquote, if_neg fun h => hcomma h.1,
      ih htext, cons_append]

/-! ## Strings -/

/-- Behind a backslash anything is copied. -/
@[simp] theorem next_escaped (c : Char) : Place.next true c = .string false := rfl

/-- A character that is not special leaves the string as it is. -/
theorem next_plain {c : Char} (hquote : c ≠ '"') (hslash : c ≠ '\\') :
    Place.next false c = .string false := by
  rw [Place.next, if_neg (by simp), if_neg hslash, if_neg hquote]

theorem next_hexDigit {c : Char} (h : IsHexDigit c) : Place.next false c = .string false := by
  apply next_plain
  · rintro rfl
    revert h
    simp [IsHexDigit]
  · rintro rfl
    revert h
    simp [IsHexDigit]

theorem withoutComments_string_cons (escaped : Bool) (c : Char) (chars : List Char) :
    withoutComments (.string escaped) (c :: chars) =
      c :: withoutComments (Place.next escaped c) chars :=
  withoutComments.eq_2 escaped c chars

/-- The first loop copies a string up to its end. -/
theorem withoutComments_string {body : List Char} (h : StringBody body) (chars : List Char) :
    withoutComments (.string false) (body ++ '"' :: chars) =
      body ++ '"' :: withoutComments .text chars := by
  induction h with
  | nil => rw [nil_append, withoutComments_string_cons]; rfl
  | char hquote hslash _ _ ih =>
    rw [cons_append, withoutComments_string_cons, next_plain hquote hslash, ih,
      cons_append]
  | escape _ _ ih =>
    have hescape : Place.next false '\\' = .string true := rfl
    simp only [cons_append, withoutComments_string_cons, hescape, next_escaped, ih]
  | unicode ha hb hc hd _ ih =>
    have hescape : Place.next false '\\' = .string true := rfl
    simp only [cons_append, withoutComments_string_cons, hescape, next_escaped,
      next_hexDigit ha, next_hexDigit hb, next_hexDigit hc, next_hexDigit hd, ih]

/-- The second loop copies a string up to its end. -/
theorem withoutTrailingCommas_string {body : List Char} (h : StringBody body)
    (chars : List Char) :
    withoutTrailingCommas (some false) (body ++ '"' :: chars) =
      body ++ '"' :: withoutTrailingCommas none chars := by
  induction h with
  | nil => rfl
  | char hquote hslash _ _ ih =>
    rw [cons_append, withoutTrailingCommas, next_plain hquote hslash]
    exact congrArg _ ih
  | escape _ _ ih => exact congrArg _ (congrArg _ ih)
  | @unicode a b c d rest ha hb hc hd _ ih =>
    have hescape : Place.next false '\\' = .string true := rfl
    simp only [cons_append, withoutTrailingCommas, hescape, next_escaped, next_hexDigit ha,
      next_hexDigit hb, next_hexDigit hc, next_hexDigit hd, ih]

/-! ## Tokens -/

theorem mem_number {text : List Char} (h : IsNumber text) {c : Char} (hc : c ∈ text) :
    c.isDigit ∨ c ∈ ['-', '+', '.', 'e', 'E'] := by
  obtain ⟨hsign, hinteger, hfraction, hexponent⟩ := h
  simp only [mem_append] at hc
  obtain ((hc | hc) | hc) | hc := hc
  · rcases hsign with rfl | rfl
    · cases hc
    · obtain rfl := mem_singleton.1 hc
      simp
  · rcases hinteger with rfl | ⟨hdigits, -⟩
    · obtain rfl := mem_singleton.1 hc
      exact .inl rfl
    · exact .inl (hdigits.2 c hc)
  · rcases hfraction with rfl | ⟨digits, hdigits, rfl⟩
    · cases hc
    · rcases mem_cons.1 hc with rfl | hc
      · simp
      · exact .inl (hdigits.2 c hc)
  · rcases hexponent with rfl | ⟨e, he, s, hs, digits, hdigits, rfl⟩
    · cases hc
    · rcases mem_cons.1 hc with rfl | hc
      · simp only [mem_cons, not_mem_nil, or_false] at he
        rcases he with rfl | rfl
        · simp
        · simp
      · rcases mem_append.1 hc with hc | hc
        · simp only [mem_cons, not_mem_nil, or_false] at hs
          rcases hs with rfl | rfl | rfl
          · cases hc
          · obtain rfl := mem_singleton.1 hc
            simp
          · obtain rfl := mem_singleton.1 hc
            simp
        · exact .inl (hdigits.2 c hc)

/-- A character of a scalar is nothing that the loops look for, and no white space. -/
theorem mem_scalar {text : List Char} (h : IsScalar text) {c : Char} (hc : c ∈ text) :
    c ∉ ['"', '/', ',', '}', ']'] ∧ isWhitespace c = false := by
  have hcases : c.isDigit ∨ c ∈ "-+.eEtrufalsn".toList := by
    rcases h with hnumber | hname
    · rcases mem_number hnumber hc with hdigit | hc
      · exact .inl hdigit
      · right
        simp only [mem_cons, not_mem_nil, or_false] at hc
        rcases hc with rfl | rfl | rfl | rfl | rfl <;> decide
    · right
      simp only [mem_cons, not_mem_nil, or_false] at hname
      have hsubset : text ⊆ "-+.eEtrufalsn".toList := by
        rcases hname with rfl | rfl | rfl
        · simp
        · simp
        · simp
      exact hsubset hc
  rcases hcases with hdigit | hc
  · have hrange : 48 ≤ c.toNat ∧ c.toNat ≤ 57 := by
      simpa [Char.isDigit, UInt32.le_iff_toNat_le] using hdigit
    refine ⟨?_, ?_⟩
    · simp only [mem_cons, not_mem_nil, or_false]
      rintro (rfl | rfl | rfl | rfl | rfl) <;> revert hrange <;> decide
    · simp only [isWhitespace, Bool.or_eq_false_iff, Bool.and_eq_false_iff, decide_eq_false_iff_not,
        beq_eq_false_iff_ne]
      omega
  · have hall : ∀ c ∈ "-+.eEtrufalsn".toList,
        c ∉ ['"', '/', ',', '}', ']'] ∧ isWhitespace c = false := by simp [isWhitespace]
    exact hall c hc

theorem withoutComments_token {token : Token} (h : token.Valid) (chars : List Char) :
    withoutComments .text (token.chars ++ chars) =
      token.chars ++ withoutComments .text chars := by
  cases token with
  | string body =>
    have hbody := withoutComments_string h chars
    rw [Token.chars, cons_append, append_assoc, singleton_append,
      withoutComments_quote, hbody, cons_append, append_assoc, singleton_append]
  | scalar text =>
    refine withoutComments_chars (fun c hc => ?_) chars
    have hspecial := (mem_scalar h hc).1
    simp only [mem_cons, not_mem_nil, or_false, not_or] at hspecial
    exact ⟨hspecial.1, hspecial.2.1⟩
  | _ => exact withoutComments_chars (by simp [Token.chars]) chars

/-- The second loop copies a token that is no comma. -/
theorem withoutTrailingCommas_token {token : Token} (h : token.Valid) (hcomma : token ≠ .comma)
    (chars : List Char) :
    withoutTrailingCommas none (token.chars ++ chars) =
      token.chars ++ withoutTrailingCommas none chars := by
  cases token with
  | comma => exact absurd rfl hcomma
  | string body =>
    have hbody := withoutTrailingCommas_string h chars
    rw [Token.chars, cons_append, append_assoc, singleton_append,
      withoutTrailingCommas, if_pos rfl, hbody, cons_append, append_assoc,
      singleton_append]
  | scalar text =>
    refine withoutTrailingCommas_chars (fun c hc => ?_) chars
    have hspecial := (mem_scalar h hc).1
    simp only [mem_cons, not_mem_nil, or_false, not_or] at hspecial
    exact ⟨hspecial.1, hspecial.2.2.1⟩
  | _ => exact withoutTrailingCommas_chars (by simp [Token.chars]) chars

/-! ## Comments -/

/-- A gap of white space is copied by both loops. -/
theorem gap_plain {gap : List Char} (h : IsGap gap) :
    ∀ c ∈ gap, c ≠ '"' ∧ c ≠ '/' ∧ c ≠ ',' ∧ isWhitespace c = true := by
  intro c hc
  have hall : ∀ c ∈ [' ', '\t', '\n', '\r'],
      c ≠ '"' ∧ c ≠ '/' ∧ c ≠ ',' ∧ isWhitespace c = true := by simp [isWhitespace]
  exact hall c (h c hc)

/-- A line comment goes up to its line feed. -/
theorem withoutComments_line {body : List Char} (h : '\n' ∉ body) (chars : List Char) :
    withoutComments .line (body ++ '\n' :: chars) = '\n' :: withoutComments .text chars := by
  induction body with
  | nil => rw [nil_append, withoutComments.eq_3, if_pos rfl]
  | cons c body ih =>
    obtain ⟨hc, hbody⟩ := not_or.1 (mem_cons.not.1 h)
    rw [cons_append, withoutComments.eq_3, if_neg (Ne.symm hc), ih hbody]

/-- A line comment at the end of the input goes up to the end. -/
theorem withoutComments_lastLine {body : List Char} (h : '\n' ∉ body) :
    withoutComments .line body = [] := by
  induction body with
  | nil => rfl
  | cons c body ih =>
    obtain ⟨hc, hbody⟩ := not_or.1 (mem_cons.not.1 h)
    rw [withoutComments.eq_3, if_neg (Ne.symm hc), ih hbody]

/-- A block comment goes up to its first end, and its line feeds stay. -/
theorem withoutComments_block {body : List Char} (h : ¬ ['*', '/'] <:+: body)
    (chars : List Char) :
    withoutComments .block (body ++ '*' :: '/' :: chars) =
      body.filter (· == '\n') ++ withoutComments .text chars := by
  induction body with
  | nil => exact withoutComments.eq_5 '*' '/' chars
  | cons c body ih =>
    have hbody : ¬ ['*', '/'] <:+: body := fun hinfix => h (infix_cons hinfix)
    obtain ⟨next, rest, hrest, hend⟩ : ∃ next rest,
        body ++ '*' :: '/' :: chars = next :: rest ∧ ¬ (c = '*' ∧ next = '/') := by
      cases body with
      | nil => exact ⟨'*', '/' :: chars, rfl, fun hend => nomatch hend.2⟩
      | cons next body =>
        refine ⟨next, body ++ '*' :: '/' :: chars, rfl, ?_⟩
        rintro ⟨rfl, rfl⟩
        exact h ⟨[], body, rfl⟩
    have hih := ih hbody
    rw [hrest] at hih
    rw [cons_append, hrest, withoutComments.eq_5, if_neg hend, hih, filter_cons]
    by_cases hfeed : c = '\n'
    · rw [if_pos hfeed, if_pos (beq_iff_eq.2 hfeed), hfeed, cons_append]
    · rw [if_neg hfeed, if_neg (mt beq_iff_eq.1 hfeed)]

/-- Of white space and comments only white space is left. -/
theorem withoutComments_trivia {gap : List Char} (h : IsTrivia gap) :
    ∃ blank, IsGap blank ∧
      ∀ chars, withoutComments .text (gap ++ chars) = blank ++ withoutComments .text chars := by
  induction h with
  | nil => exact ⟨[], nofun, fun chars => rfl⟩
  | @blank c rest hc _ ih =>
    obtain ⟨blank, hblank, hrest⟩ := ih
    have hgap : IsGap [c] := forall_mem_singleton.2 hc
    have hplain := gap_plain hgap c (mem_singleton_self c)
    refine ⟨c :: blank, forall_mem_cons.2 ⟨hc, hblank⟩, fun chars => ?_⟩
    rw [cons_append, withoutComments_char hplain.1 hplain.2.1, hrest, cons_append]
  | @line body rest hbody _ ih =>
    obtain ⟨blank, hblank, hrest⟩ := ih
    refine ⟨'\n' :: blank, forall_mem_cons.2 ⟨by simp, hblank⟩, fun chars => ?_⟩
    have hline := withoutComments_line hbody (rest ++ chars)
    rw [hrest] at hline
    rw [cons_append, cons_append, append_assoc, cons_append, cons_append]
    exact hline
  | @block body rest hbody _ ih =>
    obtain ⟨blank, hblank, hrest⟩ := ih
    refine ⟨body.filter (· == '\n') ++ blank, fun c hc => ?_, fun chars => ?_⟩
    · rcases mem_append.1 hc with hc | hc
      · obtain rfl := beq_iff_eq.1 (mem_filter.1 hc).2
        simp
      · exact hblank c hc
    · have hblock := withoutComments_block hbody (rest ++ chars)
      rw [hrest, ← append_assoc] at hblock
      rw [cons_append, cons_append, append_assoc, cons_append,
        cons_append]
      exact hblock

/-- Only white space is left at the end of the input as well. -/
theorem withoutComments_lastTrivia {gap : List Char} (h : IsLastTrivia gap) :
    IsGap (withoutComments .text gap) := by
  rcases h with htrivia | ⟨gap, body, htrivia, hbody, rfl⟩
  · obtain ⟨blank, hblank, hgap⟩ := withoutComments_trivia htrivia
    have hall := hgap []
    rw [append_nil, withoutComments.eq_1, append_nil] at hall
    rwa [hall]
  · obtain ⟨blank, hblank, hgap⟩ := withoutComments_trivia htrivia
    have hline : withoutComments .text ('/' :: '/' :: body) = [] := withoutComments_lastLine hbody
    rw [hgap, hline, append_nil]
    exact hblank

/-! ## Texts -/

/-- Without comments the tokens are the same, and the gaps are those of JSON. -/
theorem laid_withoutComments {tokens : List Token} {text : List Char}
    (h : Laid IsTrivia IsLastTrivia tokens text) :
    Laid IsGap IsGap tokens (withoutComments .text text) := by
  induction h with
  | nil hgap => exact .nil (withoutComments_lastTrivia hgap)
  | cons hgap hvalid _ ih =>
    obtain ⟨blank, hblank, hcopied⟩ := withoutComments_trivia hgap
    rw [append_assoc, hcopied, withoutComments_token hvalid, ← append_assoc]
    exact .cons hblank hvalid ih

theorem withoutComments_laid {tokens : List Token} {text : List Char}
    (h : Laid IsGap IsGap tokens text) : withoutComments .text text = text := by
  induction h with
  | @nil gap hgap =>
    have hall := withoutComments_chars
      (fun c hc => ⟨(gap_plain hgap c hc).1, (gap_plain hgap c hc).2.1⟩) []
    rwa [append_nil, withoutComments.eq_1, append_nil] at hall
  | cons hgap hvalid _ ih =>
    rw [append_assoc, withoutComments_chars
      (fun c hc => ⟨(gap_plain hgap c hc).1, (gap_plain hgap c hc).2.1⟩),
      withoutComments_token hvalid, ih]

/-- What starts a token is no white space, and is a closing bracket just if the token is one. -/
theorem Token.head_chars {token : Token} (h : token.Valid) : ∃ c rest,
    token.chars = c :: rest ∧ isWhitespace c = false ∧ (c ∈ ['}', ']'] ↔ token.closes = true) := by
  cases token with
  | scalar text =>
    have hne : text ≠ [] := by
      rintro rfl
      rcases h with hnumber | hname
      · generalize htext : ([] : List Char) = text at hnumber
        obtain ⟨_, hinteger, _, _⟩ := hnumber
        simp only [nil_eq, append_eq_nil_iff] at htext
        obtain rfl := htext.1.1.2
        rcases hinteger with hzero | hdigits
        · cases hzero
        · exact hdigits.1.1 rfl
      · revert hname
        decide
    obtain ⟨c, rest, rfl⟩ := exists_cons_of_ne_nil hne
    have hspecial := mem_scalar h (mem_cons_self ..)
    refine ⟨c, rest, rfl, hspecial.2, ?_⟩
    have hc := hspecial.1
    simp only [mem_cons, not_mem_nil, or_false, not_or] at hc
    simp [hc.2.2.2, Token.closes]
  | string body => exact ⟨'"', _, rfl, by decide, by simp [Token.closes]⟩
  | openArray => exact ⟨'[', _, rfl, by decide, by simp [Token.closes]⟩
  | closeArray => exact ⟨']', _, rfl, by decide, by simp [Token.closes]⟩
  | openObject => exact ⟨'{', _, rfl, by decide, by simp [Token.closes]⟩
  | closeObject => exact ⟨'}', _, rfl, by decide, by simp [Token.closes]⟩
  | colon => exact ⟨':', _, rfl, by decide, by simp [Token.closes]⟩
  | comma => exact ⟨',', _, rfl, by decide, by simp [Token.closes]⟩

/-- The lookahead finds a closing bracket just if the next token is one. -/
theorem closesNext_laid {tokens : List Token} {text : List Char}
    (h : Laid IsGap IsGap tokens text) : closesNext text = tokens.head?.any Token.closes := by
  cases h with
  | nil hgap =>
    have hdrop : text.dropWhile isWhitespace = [] :=
      dropWhile_eq_nil_iff.2 fun c hc => (gap_plain hgap c hc).2.2.2
    rw [closesNext, hdrop]
    rfl
  | @cons gap rest token tokens hgap hvalid _ =>
    obtain ⟨c, more, hchars, hblank, hcloses⟩ := Token.head_chars hvalid
    have hdrop : (gap ++ token.chars ++ rest).dropWhile isWhitespace = c :: (more ++ rest) := by
      rw [append_assoc, dropWhile_append_of_pos fun c hc => (gap_plain hgap c hc).2.2.2,
        hchars, cons_append, dropWhile_cons_of_neg (by rw [hblank]; simp)]
    rw [closesNext, hdrop, head?_cons, Option.any_some]
    cases hclose : token.closes with
    | true =>
      have hc := hcloses.2 hclose
      simp only [mem_cons, not_mem_nil, or_false] at hc
      rcases hc with rfl | rfl
      · rfl
      · rfl
    | false =>
      have hc := mt hcloses.1 (by rw [hclose]; simp)
      simp only [mem_cons, not_mem_nil, or_false, not_or] at hc
      split
      · rename_i heq
        exact absurd (List.cons.inj heq).1 hc.1
      · rename_i heq
        exact absurd (List.cons.inj heq).1 hc.2
      · rfl

/-- White space in front of a text is one gap with the first. -/
theorem laid_prepend {gap : List Char} (hgap : IsGap gap) {tokens : List Token}
    {text : List Char} (h : Laid IsGap IsGap tokens text) :
    Laid IsGap IsGap tokens (gap ++ text) := by
  cases h with
  | nil hlast => exact .nil (forall_mem_append.2 ⟨hgap, hlast⟩)
  | cons hfirst hvalid hrest =>
    rw [← append_assoc, ← append_assoc]
    exact .cons (forall_mem_append.2 ⟨hgap, hfirst⟩) hvalid hrest

/-- The second loop takes out the commas in front of a closing bracket and nothing else. -/
theorem laid_withoutTrailingCommas {tokens : List Token} {text : List Char}
    (h : Laid IsGap IsGap tokens text) :
    Laid IsGap IsGap (dropTrailing tokens) (withoutTrailingCommas none text) ∧
      (dropTrailing tokens = tokens → withoutTrailingCommas none text = text) := by
  induction h with
  | @nil gap hgap =>
    have hall := withoutTrailingCommas_chars
      (fun c hc => ⟨(gap_plain hgap c hc).1, (gap_plain hgap c hc).2.2.1⟩) []
    rw [append_nil, withoutTrailingCommas, append_nil] at hall
    rw [hall]
    exact ⟨.nil hgap, fun _ => rfl⟩
  | @cons gap rest token tokens hgap hvalid hrest ih =>
    have hcopied := withoutTrailingCommas_chars
      (fun c hc => ⟨(gap_plain hgap c hc).1, (gap_plain hgap c hc).2.2.1⟩) (token.chars ++ rest)
    rw [append_assoc, hcopied]
    by_cases hcomma : token = .comma
    · subst hcomma
      have hlook := closesNext_laid hrest
      cases hclose : tokens.head?.any Token.closes with
      | true =>
        -- the gaps in front of the comma and behind it become one
        have hdropped : withoutTrailingCommas none (Token.comma.chars ++ rest) =
            withoutTrailingCommas none rest := by
          rw [Token.chars, singleton_append, withoutTrailingCommas, if_neg (by decide),
            if_pos ⟨rfl, hlook.trans hclose⟩]
        rw [hdropped, dropTrailing_closes hclose]
        refine ⟨laid_prepend hgap ih.1, fun hsame => ?_⟩
        have hlen := congrArg List.length hsame
        have hle := length_dropTrailing_le tokens
        rw [length_cons] at hlen
        omega
      | false =>
        have hkept : withoutTrailingCommas none (Token.comma.chars ++ rest) =
            Token.comma.chars ++ withoutTrailingCommas none rest := by
          rw [Token.chars, singleton_append, withoutTrailingCommas, if_neg (by decide),
            if_neg (by rw [hlook, hclose]; simp), singleton_append]
        rw [hkept, dropTrailing_comma hclose, ← append_assoc]
        refine ⟨.cons hgap hvalid ih.1, fun hsame => ?_⟩
        rw [ih.2 (List.cons.inj hsame).2, append_assoc]
    · rw [withoutTrailingCommas_token hvalid hcomma, dropTrailing_cons hcomma,
        ← append_assoc]
      refine ⟨.cons hgap hvalid ih.1, fun hsame => ?_⟩
      rw [ih.2 (List.cons.inj hsame).2, append_assoc]

theorem stripJsonc_json {document : Document} {text : List Char} (h : IsJson document text) :
    stripJsonc text = text := by
  obtain ⟨tokens, hderives, hlaid⟩ := h
  rw [stripJsonc, withoutComments_laid hlaid]
  exact (laid_withoutTrailingCommas hlaid).2 hderives.dropTrailing_eq

/-! ## Texts without comments and trailing commas -/

/-- The string that a text ends in, if any, where one may be open before it: `some true` is behind
a backslash. -/
def openString (place : Option Bool) (text : List Char) : Option Bool :=
  text.foldl (fun place c => match place with
    | none => if c = '"' then some false else none
    | some true => some false
    | some false => if c = '\\' then some true else if c = '"' then none else some false) place

/-- A text that a comment starts. -/
def StartsComment (text : List Char) : Prop := ['/', '/'] <+: text ∨ ['/', '*'] <+: text

/-- A text that starts with a comma and a closing bracket behind it. -/
def StartsTrailingComma (text : List Char) : Prop :=
  ∃ gap close rest, (∀ c ∈ gap, isWhitespace c = true) ∧ close ∈ ['}', ']'] ∧
    text = ',' :: (gap ++ close :: rest)

/-- A text with no comment and no trailing comma outside of its strings; it may be any text. -/
def Unadorned (text : List Char) : Prop :=
  ∀ before after, text = before ++ after → openString none before = none →
    ¬ StartsComment after ∧ ¬ StartsTrailingComma after

/-- Where the first loop is when it is in no comment. -/
def Place.ofString : Option Bool → Place
  | none => .text
  | some escaped => .string escaped

/-- The first loop keeps track of the string as the text has it. -/
theorem next_eq (escaped : Bool) (c : Char) :
    Place.next escaped c = Place.ofString (openString (some escaped) [c]) := by
  cases escaped with
  | true => rfl
  | false =>
    by_cases hslash : c = '\\'
    · subst hslash
      rfl
    · by_cases hquote : c = '"'
      · subst hquote
        rfl
      · simp [Place.next, openString, hslash, hquote, Place.ofString]

/-- A text with no comment outside of its strings is left by the first loop. -/
theorem withoutComments_unadorned {place : Option Bool} {text : List Char}
    (h : ∀ before after, text = before ++ after → openString place before = none →
      ¬ StartsComment after) :
    withoutComments (Place.ofString place) text = text := by
  induction text generalizing place with
  | nil => exact withoutComments.eq_1 _
  | cons c text ih =>
    have hrest := @ih (openString place [c]) fun before after htext hplace =>
      h (c :: before) after (by rw [htext, cons_append]) hplace
    cases place with
    | some escaped => rw [Place.ofString, withoutComments.eq_2, next_eq, hrest]
    | none =>
      have hstart := h [] (c :: text) rfl rfl
      by_cases hquote : c = '"'
      · subst hquote
        exact (withoutComments_quote text).trans (congrArg _ hrest)
      · have hplace : openString none [c] = none := if_neg hquote
        rw [hplace] at hrest
        cases text with
        | nil => rfl
        | cons next text =>
          have hline : ¬ (c = '/' ∧ next = '/') := by
            rintro ⟨rfl, rfl⟩
            exact hstart (.inl ⟨text, rfl⟩)
          have hblock : ¬ (c = '/' ∧ next = '*') := by
            rintro ⟨rfl, rfl⟩
            exact hstart (.inr ⟨text, rfl⟩)
          rw [Place.ofString, withoutComments.eq_7, if_neg hquote, if_neg hline, if_neg hblock]
          exact congrArg _ hrest

/-- The lookahead finds a closing bracket behind white space. -/
theorem startsTrailingComma_of_closesNext {text : List Char} (h : closesNext text = true) :
    StartsTrailingComma (',' :: text) := by
  have hsplit := (takeWhile_append_dropWhile (p := isWhitespace) (l := text)).symm
  have hgap : ∀ c ∈ text.takeWhile isWhitespace, isWhitespace c = true :=
    fun c hc => mem_takeWhile_imp hc
  rw [closesNext] at h
  split at h
  · rename_i rest hdrop
    exact ⟨_, '}', rest, hgap, by simp, congrArg _ (hsplit.trans (congrArg _ hdrop))⟩
  · rename_i rest hdrop
    exact ⟨_, ']', rest, hgap, by simp, congrArg _ (hsplit.trans (congrArg _ hdrop))⟩
  · cases h

/-- A text with no trailing comma outside of its strings is left by the second loop. -/
theorem withoutTrailingCommas_unadorned {place : Option Bool} {text : List Char}
    (h : ∀ before after, text = before ++ after → openString place before = none →
      ¬ StartsTrailingComma after) :
    withoutTrailingCommas place text = text := by
  induction text generalizing place with
  | nil => exact withoutTrailingCommas.eq_1 _
  | cons c text ih =>
    have hrest := @ih (openString place [c]) fun before after htext hplace =>
      h (c :: before) after (by rw [htext, cons_append]) hplace
    cases place with
    | some escaped =>
      rw [withoutTrailingCommas, next_eq]
      cases hplace : openString (some escaped) [c] with
      | none => rw [hplace] at hrest; exact congrArg _ hrest
      | some => rw [hplace] at hrest; exact congrArg _ hrest
    | none =>
      have hstart := h [] (c :: text) rfl rfl
      by_cases hquote : c = '"'
      · subst hquote
        exact congrArg _ hrest
      · have hplace : openString none [c] = none := if_neg hquote
        have hcomma : ¬ (c = ',' ∧ closesNext text = true) := by
          rintro ⟨rfl, hcloses⟩
          exact hstart (startsTrailingComma_of_closesNext hcloses)
        rw [hplace] at hrest
        rw [withoutTrailingCommas, if_neg hquote, if_neg hcomma, hrest]

/-- A text without comments and trailing commas is left as it is. -/
theorem stripJsonc_unadorned {text : List Char} (h : Unadorned text) : stripJsonc text = text := by
  have hcomments : withoutComments .text text = text :=
    @withoutComments_unadorned none text fun before after htext hplace =>
      (h before after htext hplace).1
  rw [stripJsonc, hcomments]
  exact withoutTrailingCommas_unadorned fun before after htext hplace =>
    (h before after htext hplace).2

/-- What is stripped of a text with comments and trailing commas is JSON for the same document, with
each token but the trailing commas as it was; strings are not touched. Stripping it again changes
nothing, as it changes nothing in any text that has no comments and trailing commas. -/
theorem stripJsonc_exact :
    (∀ document text, IsJsonc document text → IsJson document (stripJsonc text) ∧
      stripJsonc (stripJsonc text) = stripJsonc text) ∧
    (∀ tokens text, Laid IsTrivia IsLastTrivia tokens text →
      Laid IsGap IsGap (dropTrailing tokens) (stripJsonc text) ∧
        literals (dropTrailing tokens) = literals tokens) ∧
    ∀ text, Unadorned text → stripJsonc text = text := by
  have hlaid : ∀ tokens text, Laid IsTrivia IsLastTrivia tokens text →
      Laid IsGap IsGap (dropTrailing tokens) (stripJsonc text) := fun tokens text h =>
    (laid_withoutTrailingCommas (laid_withoutComments h)).1
  refine ⟨?_, fun tokens text h => ⟨hlaid tokens text h, literals_dropTrailing tokens⟩,
    fun text => stripJsonc_unadorned⟩
  rintro document text ⟨tokens, hderives, htext⟩
  have hjson : IsJson document (stripJsonc text) :=
    ⟨dropTrailing tokens, hderives.dropTrailing, hlaid tokens text htext⟩
  exact ⟨hjson, stripJsonc_json hjson⟩

example : stripJsonc "[1,/* \n */ \"//,]\", ] // x".toList = "[1,\n \"//,]\" ] ".toList := by
  decide

end Jsonc

end OpenBitFun
