import OpenBitFun.XlsxFormula

/-!
# What the scanner reads

A corner of a reference that the scanner reads is its text in front of the rest, and a written
corner is read back (`ReadsPart`, `parsePart_append`); so are whole references. The pieces of a
formula are its string literals, its references and its other characters, with their text
(`pieces`): together they are the formula.
-/

namespace OpenBitFun

open List

namespace Xlsx

namespace Formula

variable {unicode : Unicode} {chars next text digits letters : List Char} {part first : Part}
  {second : Option Part} {reference : Reference} {row : ℕ} {c : Char}

/-! ## Characters -/

/-- A run of characters that pass a test, before one that does not. -/
theorem takeWhile_append_stop {p : Char → Bool} {run : List Char} (hrun : ∀ c ∈ run, p c)
    (hnext : ∀ c ∈ next.head?, p c = false) :
    (run ++ next).takeWhile p = run ∧ (run ++ next).dropWhile p = next := by
  rw [takeWhile_append_of_pos hrun, dropWhile_append_of_pos hrun]
  cases next with
  | nil => simp
  | cons c next =>
    have hc : p c = false := hnext c rfl
    refine ⟨?_, ?_⟩ <;> simp [hc]

theorem dollar_append_skipDollar (chars : List Char) :
    dollar (chars.head? == some '$') ++ skipDollar chars = chars := by
  cases chars with
  | nil => rfl
  | cons c chars =>
    by_cases hc : c = '$'
    · subst hc
      rfl
    · have hhead : ((c :: chars).head? == some '$') = false := by simpa using hc
      rw [hhead, skipDollar]
      · rfl
      · simpa using hc

theorem skipDollar_dollar (isAbs : Bool) (h : chars.head? ≠ some '$') :
    ((dollar isAbs ++ chars).head? == some '$') = isAbs ∧
      skipDollar (dollar isAbs ++ chars) = chars := by
  cases isAbs with
  | true => exact ⟨rfl, rfl⟩
  | false =>
    refine ⟨by simpa [dollar] using h, ?_⟩
    rw [dollar, if_neg (by decide), nil_append, skipDollar]
    rintro rest rfl
    exact h rfl

theorem not_alphabetic_of_digit (h : isAsciiDigit c) : isAsciiAlphabetic c = false := by
  by_contra halpha
  have hrange := isAsciiAlphabetic_iff.mp (Bool.not_eq_false _ ▸ halpha)
  have hdigit := isAsciiDigit_iff.mp h
  omega

/-- What ends a corner: no letter, digit, dollar sign or dot. -/
def Ends (next : List Char) : Prop :=
  ∀ c ∈ next.head?, isAsciiAlphabetic c = false ∧ isAsciiDigit c = false ∧ c ≠ '$' ∧ c ≠ '.'

/-! ## Rows -/

theorem parseRow_append (hrow : parseU32 digits = some row) (hpos : 1 ≤ row) (hle : row ≤ maxRows)
    (hnext : ∀ c ∈ next.head?, isAsciiDigit c = false) :
    parseRow (digits ++ next) = some (row, next) := by
  obtain ⟨hdigits, -, -⟩ := parseU32_eq_some hrow
  obtain ⟨htake, hdrop⟩ := takeWhile_append_stop hdigits hnext
  rw [parseRow, htake, hdrop, hrow, Option.bind_some, if_neg (by omega)]

theorem parseRow_eq_some (h : parseRow chars = some (row, next)) : ∃ digits,
    chars = digits ++ next ∧ parseU32 digits = some row ∧ 1 ≤ row ∧ row ≤ maxRows := by
  obtain ⟨n, hn, hrow⟩ := Option.bind_eq_some_iff.mp h
  by_cases hbad : n = 0 ∨ maxRows < n
  · rw [if_pos hbad] at hrow
    cases hrow
  · rw [if_neg hbad] at hrow
    obtain ⟨rfl, rfl⟩ := Prod.mk.inj (Option.some.inj hrow)
    exact ⟨chars.takeWhile isAsciiDigit, takeWhile_append_dropWhile.symm, hn, by omega,
      by omega⟩

/-! ## Corners -/

/-- The text is that of a corner. -/
def ReadsPart (text : List Char) (part : Part) : Prop :=
  match part.kind with
  | .cell => ∃ letters digits,
      text = dollar part.colAbs ++ (letters ++ (dollar part.rowAbs ++ digits)) ∧
        columnNumber letters = some part.col ∧ parseU32 digits = some part.row ∧
        1 ≤ part.row ∧ part.row ≤ maxRows
  | .column => ∃ letters, text = dollar part.colAbs ++ letters ∧
      columnNumber letters = some part.col ∧ part.rowAbs = false ∧ part.row = 0
  | .row => ∃ digits, text = dollar part.rowAbs ++ digits ∧ parseU32 digits = some part.row ∧
      1 ≤ part.row ∧ part.row ≤ maxRows ∧ part.colAbs = false ∧ part.col = 0

theorem head?_letters (next : List Char) (h : columnNumber letters = some row) :
    ∃ c ∈ (letters ++ next).head?, isAsciiAlphabetic c ∧ c ≠ '$' := by
  obtain ⟨hletters, hne, -⟩ := columnNumber_eq_some h
  cases letters with
  | nil => exact absurd rfl hne
  | cons c letters =>
    have hc := hletters c mem_cons_self
    refine ⟨c, rfl, hc, ?_⟩
    rintro rfl
    exact absurd hc (by decide)

theorem head?_digits (next : List Char) (h : parseU32 digits = some row) :
    ∃ c, (digits ++ next).head? = some c ∧ isAsciiDigit c := by
  obtain ⟨hdigits, hne, -⟩ := parseU32_eq_some h
  cases digits with
  | nil => exact absurd rfl hne
  | cons c digits => exact ⟨c, rfl, hdigits c mem_cons_self⟩

/-- The letters of a column are found, before something that is no letter. -/
theorem takeWhile_letters {col : ℕ} (h : columnNumber letters = some col)
    (hnext : ∀ c ∈ next.head?, isAsciiAlphabetic c = false) :
    ((letters ++ next).take 4).takeWhile isAsciiAlphabetic = letters := by
  obtain ⟨hletters, -⟩ := columnNumber_eq_some h
  have hlen := length_of_columnNumber h
  rw [take_append, take_of_length_le (by omega)]
  refine (takeWhile_append_stop hletters ?_).1
  intro c hc
  refine hnext c ?_
  rw [head?_take, if_neg (by omega)] at hc
  exact hc

/-- **A corner is read** in front of what ends it. -/
theorem parsePart_append (h : ReadsPart text part) (hnext : Ends next) :
    parsePart (text ++ next) = some (part, next) := by
  obtain ⟨kind, colAbs, col, rowAbs, row⟩ := part
  cases kind with
  | cell =>
    obtain ⟨letters, digits, rfl, hcol, hrow, hpos, hle⟩ := h
    obtain ⟨l, hl, halpha, hdollar⟩ := head?_letters (dollar rowAbs ++ (digits ++ next)) hcol
    obtain ⟨d, hd, hdigit⟩ := head?_digits next hrow
    have hd' : (digits ++ next).head? ≠ some '$' := by
      rw [hd]
      rintro hc
      rw [Option.some.inj hc] at hdigit
      exact absurd hdigit (by decide)
    have hl' : (letters ++ (dollar rowAbs ++ (digits ++ next))).head? ≠ some '$' := by
      rw [hl]
      exact fun hc => hdollar (Option.some.inj hc)
    have hstop : ∀ c ∈ (dollar rowAbs ++ (digits ++ next)).head?, isAsciiAlphabetic c = false := by
      intro c hc
      cases rowAbs with
      | true =>
        obtain rfl := Option.some.inj hc
        rfl
      | false =>
        obtain rfl := Option.some.inj (hd.symm.trans hc)
        exact not_alphabetic_of_digit hdigit
    obtain ⟨hcolAbs, hskip⟩ := skipDollar_dollar colAbs hl'
    obtain ⟨hrowAbs, hskip'⟩ := skipDollar_dollar rowAbs hd'
    have hletters := takeWhile_letters hcol hstop
    have hne : letters.isEmpty = false := by
      obtain ⟨-, hne, -⟩ := columnNumber_eq_some hcol
      simpa using hne
    simp only [append_assoc]
    rw [parsePart]
    simp only [hcolAbs, hskip, hletters, hne, hcol, drop_left, Option.bind_some, hrowAbs,
      hskip', hd, Option.any_some, hdigit, if_true]
    rw [parseRow_append hrow hpos hle fun c hc => (hnext c hc).2.1]
    rfl
  | column =>
    obtain ⟨letters, rfl, hcol, hrowAbs, hrow⟩ := h
    obtain ⟨l, hl, halpha, hdollar⟩ := head?_letters next hcol
    have hl' : (letters ++ next).head? ≠ some '$' := by
      rw [hl]
      exact fun hc => hdollar (Option.some.inj hc)
    have hnext' : next.head? ≠ some '$' := fun hc => (hnext _ hc).2.2.1 rfl
    obtain ⟨hcolAbs, hskip⟩ := skipDollar_dollar colAbs hl'
    obtain ⟨hnextAbs, hskip'⟩ := skipDollar_dollar false hnext'
    have hletters := takeWhile_letters hcol fun c hc => (hnext c hc).1
    have hne : letters.isEmpty = false := by
      obtain ⟨-, hne, -⟩ := columnNumber_eq_some hcol
      simpa using hne
    have hdigit : next.head?.any isAsciiDigit = false := by
      cases hhead : next.head? with
      | none => rfl
      | some c => exact (hnext c hhead).2.1
    rw [dollar, if_neg (by decide), nil_append] at hnextAbs hskip'
    simp only at hrowAbs hrow
    rw [append_assoc, parsePart]
    simp only [hcolAbs, hskip, hletters, hne, hcol, drop_left, Option.bind_some, hnextAbs,
      hskip', hdigit, hrowAbs, hrow]
    rfl
  | row =>
    obtain ⟨digits, rfl, hrow, hpos, hle, hcolAbs, hcol⟩ := h
    obtain ⟨d, hd, hdigit⟩ := head?_digits next hrow
    have hd' : (digits ++ next).head? ≠ some '$' := by
      rw [hd]
      rintro hc
      rw [Option.some.inj hc] at hdigit
      exact absurd hdigit (by decide)
    obtain ⟨hrowAbs, hskip⟩ := skipDollar_dollar rowAbs hd'
    have hletters : ((digits ++ next).take 4).takeWhile isAsciiAlphabetic = [] := by
      cases hsplit : digits ++ next with
      | nil => rfl
      | cons c rest =>
        rw [hsplit] at hd
        obtain rfl := Option.some.inj hd
        rw [take_succ_cons, takeWhile_cons, not_alphabetic_of_digit hdigit]
        rfl
    have hdot : next.head? ≠ some '.' := fun hc => (hnext _ hc).2.2.2 rfl
    simp only at hcolAbs hcol
    rw [append_assoc, parsePart]
    simp only [hrowAbs, hskip, hletters, isEmpty_nil, if_true]
    rw [parseRow_append hrow hpos hle fun c hc => (hnext c hc).2.1, Option.bind_some,
      if_neg hdot, hcolAbs, hcol]

/-- **What is read as a corner** is the text of that corner in front of the rest. -/
theorem parsePart_eq_some (h : parsePart chars = some (part, next)) :
    ∃ text, chars = text ++ next ∧ ReadsPart text part := by
  have hchars := dollar_append_skipDollar chars
  rw [parsePart] at h
  generalize (chars.head? == some '$') = isAbs at h hchars
  generalize skipDollar chars = rest at h hchars
  have htake : rest.take 4 <+: rest := take_prefix 4 rest
  have hletters : (rest.take 4).takeWhile isAsciiAlphabetic <+: rest :=
    List.IsPrefix.trans ( takeWhile_prefix _) htake
  generalize (rest.take 4).takeWhile isAsciiAlphabetic = letters at h hletters
  obtain ⟨tail, rfl⟩ := hletters
  simp only [drop_left] at h
  by_cases hempty : letters.isEmpty = true
  · -- A row.
    rw [if_pos hempty] at h
    rw [isEmpty_iff.mp hempty, nil_append] at h hchars
    obtain ⟨⟨n, rest⟩, hrow, hpart⟩ := Option.bind_eq_some_iff.mp h
    obtain ⟨digits, rfl, hn, hpos, hle⟩ := parseRow_eq_some hrow
    by_cases hdot : rest.head? = some '.'
    · rw [if_pos hdot] at hpart
      cases hpart
    · rw [if_neg hdot] at hpart
      obtain ⟨rfl, rfl⟩ := Prod.mk.inj (Option.some.inj hpart)
      refine ⟨dollar isAbs ++ digits, by rw [← hchars, append_assoc], digits, rfl, hn, hpos,
        hle, rfl, rfl⟩
  rw [if_neg hempty] at h
  obtain ⟨col, hcol, h⟩ := Option.bind_eq_some_iff.mp h
  have htail := dollar_append_skipDollar tail
  generalize (tail.head? == some '$') = rowAbs at h htail
  by_cases hdigit : (skipDollar tail).head?.any isAsciiDigit = true
  · -- A cell.
    rw [if_pos hdigit] at h
    generalize skipDollar tail = rest at h htail
    obtain ⟨⟨n, rest'⟩, hrow, hpart⟩ := Option.map_eq_some_iff.mp h
    obtain ⟨digits, rfl, hn, hpos, hle⟩ := parseRow_eq_some hrow
    obtain ⟨rfl, rfl⟩ := Prod.mk.inj hpart
    refine ⟨dollar isAbs ++ (letters ++ (dollar rowAbs ++ digits)), ?_, letters, digits, rfl,
      hcol, hn, hpos, hle⟩
    rw [← hchars, ← htail]
    simp only [append_assoc]
  · rw [if_neg hdigit] at h
    cases rowAbs with
    | true => cases h
    | false =>
      -- A column.
      obtain ⟨rfl, rfl⟩ := Prod.mk.inj (Option.some.inj h)
      exact ⟨dollar isAbs ++ letters, by rw [← hchars, append_assoc], letters, rfl, hcol, rfl,
        rfl⟩

/-- The coordinates of a corner are on the sheet. -/
def Part.Valid (part : Part) : Prop :=
  match part.kind with
  | .cell => 1 ≤ part.col ∧ part.col ≤ maxColumns ∧ 1 ≤ part.row ∧ part.row ≤ maxRows
  | .column => 1 ≤ part.col ∧ part.col ≤ maxColumns ∧ part.rowAbs = false ∧ part.row = 0
  | .row => 1 ≤ part.row ∧ part.row ≤ maxRows ∧ part.colAbs = false ∧ part.col = 0

theorem ReadsPart.valid (h : ReadsPart text part) : part.Valid := by
  obtain ⟨kind, colAbs, col, rowAbs, row⟩ := part
  cases kind with
  | cell =>
    obtain ⟨letters, digits, -, hcol, -, hpos, hle⟩ := h
    obtain ⟨-, -, -, hpos', hle'⟩ := columnNumber_eq_some hcol
    exact ⟨hpos', hle', hpos, hle⟩
  | column =>
    obtain ⟨letters, -, hcol, hrowAbs, hrow⟩ := h
    obtain ⟨-, -, -, hpos, hle⟩ := columnNumber_eq_some hcol
    exact ⟨hpos, hle, hrowAbs, hrow⟩
  | row =>
    obtain ⟨digits, -, -, hpos, hle, hcolAbs, hcol⟩ := h
    exact ⟨hpos, hle, hcolAbs, hcol⟩

theorem parseU32_row (h : row ≤ maxRows) : parseU32 (Nat.toDigits 10 row) = some row := by
  have hmax : maxRows = 1048576 := rfl
  exact parseU32_toDigits (by omega)

/-- **A corner that is written is the text of that corner.** -/
theorem readsPart_render (h : part.Valid) : ReadsPart part.render part := by
  obtain ⟨kind, colAbs, col, rowAbs, row⟩ := part
  cases kind with
  | cell =>
    obtain ⟨hpos, hle, hpos', hle'⟩ := h
    refine ⟨columnLetters col, Nat.toDigits 10 row, ?_, columnNumber_columnLetters hpos hle,
      parseU32_row hle', hpos', hle'⟩
    simp only [Part.render, append_assoc]
  | column =>
    obtain ⟨hpos, hle, hrowAbs, hrow⟩ := h
    exact ⟨columnLetters col, rfl, columnNumber_columnLetters hpos hle, hrowAbs, hrow⟩
  | row =>
    obtain ⟨hpos, hle, hcolAbs, hcol⟩ := h
    exact ⟨Nat.toDigits 10 row, rfl, parseU32_row hle, hpos, hle, hcolAbs, hcol⟩

/-! ## References -/

/-- What can follow a reference: nothing that continues a name, no parenthesis, and behind a single
corner no second one. -/
structure Follows (unicode : Unicode) (first : Part) (second : Option Part) (next : List Char) :
    Prop where
  stops : ∀ c ∈ next.head?, continues unicode c = false
  single : second = none → parseSecond first.kind next = none

/-- The text is that of one corner, or of two corners of one kind. -/
def CornerTexts (text : List Char) (first : Part) : Option Part → Prop
  | none => ReadsPart text first
  | some second => ∃ front back, text = front ++ ':' :: back ∧ ReadsPart front first ∧
      ReadsPart back second ∧ second.kind = first.kind

/-- The text is that of the corners of a reference; whole rows and columns come as ranges. -/
structure ReadsCorners (text : List Char) (first : Part) (second : Option Part) : Prop where
  ranged : first.kind ≠ .cell → second.isSome
  corners : CornerTexts text first second

/-- **What is read as corners** is their text in front of the rest. -/
theorem parseCorners_eq_some (h : parseCorners unicode chars = some (first, second, next)) :
    ∃ text, chars = text ++ next ∧ ReadsCorners text first second ∧
      Follows unicode first second next := by
  obtain ⟨⟨part, rest⟩, hfirst, hbody⟩ := Option.bind_eq_some_iff.mp h
  obtain ⟨front, rfl, hfront⟩ := parsePart_eq_some hfirst
  by_cases hbad : (part.kind ≠ .cell ∧ (parseSecond part.kind rest).isNone) ∨
      ((parseSecond part.kind rest).elim rest Prod.snd).head?.any (continues unicode)
  · have hnone := hbody.symm.trans (if_pos hbad)
    cases hnone
  have hsome := hbody.symm.trans (if_neg hbad)
  obtain ⟨hranged, hstops⟩ := not_or.mp hbad
  have hstops' : ∀ c ∈ ((parseSecond part.kind rest).elim rest Prod.snd).head?,
      continues unicode c = false := by
    intro c hc
    rw [hc] at hstops
    simpa using hstops
  obtain ⟨rfl, hrest⟩ := Prod.mk.inj (Option.some.inj hsome)
  obtain ⟨rfl, rfl⟩ := Prod.mk.inj hrest
  cases hsecond : parseSecond first.kind rest with
  | none =>
    rw [hsecond] at hranged hstops'
    refine ⟨front, rfl, ⟨fun hne => absurd ⟨hne, rfl⟩ hranged, hfront⟩, hstops', fun _ => hsecond⟩
  | some found =>
    obtain ⟨second, next⟩ := found
    rw [hsecond] at hstops'
    cases rest with
    | nil => cases hsecond
    | cons c rest =>
      by_cases hcolon : c = ':'
      · subst hcolon
        obtain ⟨⟨second', next'⟩, hpart, hkind⟩ := Option.bind_eq_some_iff.mp hsecond
        by_cases hk : second'.kind = first.kind
        · rw [if_pos hk] at hkind
          obtain ⟨rfl, rfl⟩ := Prod.mk.inj (Option.some.inj hkind)
          obtain ⟨back, rfl, hback⟩ := parsePart_eq_some hpart
          refine ⟨front ++ ':' :: back, ?_, ⟨fun _ => rfl, front, back, rfl, hfront, hback, hk⟩,
            hstops', fun hnone => by cases hnone⟩
          simp
        · rw [if_neg hk] at hkind
          cases hkind
      · rw [parseSecond] at hsecond
        · cases hsecond
        · exact fun _ heq => hcolon (List.cons.inj heq).1

theorem readQuoted_close {quote : Char} (h : next.head? ≠ some quote) :
    readQuoted quote (quote :: next) = some ([], next) := by
  cases next with
  | nil => rw [readQuoted, if_pos rfl]
  | cons d next =>
    have hd : ¬d = quote := fun heq => h (congrArg some heq)
    rw [readQuoted, if_pos rfl, if_neg hd]

/-- Another character is part of the text. -/
theorem readQuoted_cons {quote : Char} (h : ¬c = quote) (chars : List Char) :
    readQuoted quote (c :: chars) =
      (readQuoted quote chars).map fun read => (c :: read.1, read.2) := by
  cases chars with
  | nil =>
    rw [readQuoted, readQuoted, if_neg h]
    rfl
  | cons d chars => rw [readQuoted, if_neg h]

/-- A quoted name is read up to its closing quote, whatever follows that is no quote. -/
theorem readQuoted_eq_some {quote : Char} {name : List Char}
    (h : readQuoted quote chars = some (name, next)) : ∃ body, chars = body ++ next ∧
      ∀ next', next'.head? ≠ some quote →
        readQuoted quote (body ++ next') = some (name, next') := by
  induction chars using readQuoted.induct quote generalizing name with
  | case1 => cases h
  | case2 =>
    rw [readQuoted, if_pos rfl] at h
    obtain ⟨rfl, rfl⟩ := Prod.mk.inj (Option.some.inj h)
    exact ⟨[quote], rfl, fun next' hnext' => readQuoted_close hnext'⟩
  | case3 c hc =>
    rw [readQuoted, if_neg hc] at h
    cases h
  | case4 rest ih =>
    rw [readQuoted, if_pos rfl, if_pos rfl] at h
    obtain ⟨⟨name', rest'⟩, hread, heq⟩ := Option.map_eq_some_iff.mp h
    obtain ⟨rfl, rfl⟩ := Prod.mk.inj heq
    obtain ⟨body, rfl, hbody⟩ := ih hread
    refine ⟨quote :: quote :: body, rfl, fun next' hnext' => ?_⟩
    rw [cons_append, cons_append, readQuoted, if_pos rfl, if_pos rfl, hbody next' hnext']
    rfl
  | case5 d rest hd =>
    rw [readQuoted, if_pos rfl, if_neg hd] at h
    obtain ⟨rfl, rfl⟩ := Prod.mk.inj (Option.some.inj h)
    exact ⟨[quote], rfl, fun next' hnext' => readQuoted_close hnext'⟩
  | case6 c d rest hc ih =>
    rw [readQuoted_cons hc] at h
    obtain ⟨⟨name', rest'⟩, hread, heq⟩ := Option.map_eq_some_iff.mp h
    obtain ⟨rfl, rfl⟩ := Prod.mk.inj heq
    obtain ⟨body, hbody, hread'⟩ := ih hread
    refine ⟨c :: body, by rw [hbody, cons_append], fun next' hnext' => ?_⟩
    rw [cons_append, readQuoted_cons hc, hread' next' hnext']
    rfl

/-- The text is the prefix of a sheet, in front of anything. -/
def ReadsPrefix (unicode : Unicode) (raw name : List Char) : Prop :=
  ∀ next, parseSheetPrefix unicode (raw ++ next) = some (raw, name, next)

/-- A quoted name with its exclamation mark is a prefix. -/
theorem readsPrefix_quoted {body name : List Char}
    (h : ∀ next, next.head? ≠ some '\'' → readQuoted '\'' (body ++ next) = some (name, next)) :
    ReadsPrefix unicode ('\'' :: (body ++ ['!'])) name := by
  intro next
  have hbang : (body ++ ['!']) ++ next = body ++ '!' :: next := by simp
  have hlen : ('\'' :: (body ++ '!' :: next)).length - next.length =
      ('\'' :: (body ++ ['!'])).length := by
    simp only [length_cons, length_append, length_nil]
    omega
  have hhead : ('!' :: next).head? ≠ some '\'' := by
    rw [head?_cons]
    decide
  have hsplit : '\'' :: (body ++ '!' :: next) = '\'' :: (body ++ ['!']) ++ next := by simp
  rw [cons_append, parseSheetPrefix, hbang, h _ hhead, Option.bind_some]
  simp only [hlen]
  rw [hsplit, take_left]

/-- A bare name with its exclamation mark is a prefix. -/
theorem readsPrefix_bare {name : List Char} (hne : name ≠ [])
    (h : ∀ c ∈ name, isBareName unicode c) : ReadsPrefix unicode (name ++ ['!']) name := by
  intro next
  have hbang : isBareName unicode '!' = false := by
    rw [isBareName, unicode.alphanumeric_ascii '!' (by decide)]
    decide
  have hquote : isBareName unicode '\'' = false := by
    rw [isBareName, unicode.alphanumeric_ascii '\'' (by decide)]
    decide
  have hstop : ∀ c ∈ ('!' :: next).head?, isBareName unicode c = false := by
    intro c hc
    rw [← Option.some.inj hc]
    exact hbang
  obtain ⟨htake, hdrop⟩ := takeWhile_append_stop h hstop
  have happend : name ++ ['!'] ++ next = name ++ '!' :: next := by simp
  rw [happend, parseSheetPrefix]
  · cases name with
    | nil => exact absurd rfl hne
    | cons c name =>
      rw [htake, hdrop]
      rfl
  · rintro rest hrest
    cases name with
    | nil => exact absurd rfl hne
    | cons c name =>
      have hc := h c mem_cons_self
      rw [(List.cons.inj hrest).1, hquote] at hc
      cases hc

/-- **What is read as a prefix** is its text in front of the rest. -/
theorem parseSheetPrefix_eq_some {raw name : List Char}
    (h : parseSheetPrefix unicode chars = some (raw, name, next)) :
    chars = raw ++ next ∧ ReadsPrefix unicode raw name := by
  rw [parseSheetPrefix.eq_def] at h
  split at h
  · rename_i rest
    obtain ⟨⟨name', rest'⟩, hread, hbang⟩ := Option.bind_eq_some_iff.mp h
    obtain ⟨body, rfl, hbody⟩ := readQuoted_eq_some hread
    cases rest' with
    | nil => cases hbang
    | cons c rest' =>
      by_cases hc : c = '!'
      · subst hc
        have hbegin : ReadsPrefix unicode ('\'' :: (body ++ ['!'])) name' :=
          readsPrefix_quoted hbody
        have happend : '\'' :: (body ++ '!' :: rest') = '\'' :: (body ++ ['!']) ++ rest' := by simp
        have hraw := hbegin rest'
        rw [← happend, parseSheetPrefix.eq_def] at hraw
        obtain ⟨rfl, hrest⟩ := Prod.mk.inj (Option.some.inj (hraw.symm.trans h))
        obtain ⟨rfl, rfl⟩ := Prod.mk.inj hrest
        exact ⟨happend, hbegin⟩
      · simp only at hbang
        split at hbang
        · rename_i heq
          exact absurd (List.cons.inj heq).1 hc
        · cases hbang
  · rename_i hquote
    have hsplit := takeWhile_append_dropWhile (p := isBareName unicode) (l := chars)
    have hall : ∀ c ∈ chars.takeWhile (isBareName unicode), isBareName unicode c :=
      fun c hc => mem_takeWhile_imp hc
    simp only at h
    generalize chars.takeWhile (isBareName unicode) = name' at h hsplit hall
    generalize chars.dropWhile (isBareName unicode) = rest at h hsplit
    split at h
    · rename_i c name'' rest'
      obtain ⟨rfl, hrest⟩ := Prod.mk.inj (Option.some.inj h)
      obtain ⟨rfl, rfl⟩ := Prod.mk.inj hrest
      refine ⟨?_, readsPrefix_bare (cons_ne_nil _ _) hall⟩
      rw [← hsplit]
      simp
    · cases h

/-- The characters of corners. -/
def isCornerChar (c : Char) : Bool := isAsciiAlphabetic c || isAsciiDigit c || c = '$' || c = ':'

theorem isCornerChar_dollar (isAbs : Bool) : ∀ c ∈ dollar isAbs, isCornerChar c := by
  cases isAbs with
  | false => exact forall_mem_nil _
  | true => exact forall_mem_singleton.mpr rfl

theorem isCornerChar_of_columnNumber (h : columnNumber letters = some row) :
    ∀ c ∈ letters, isCornerChar c := by
  obtain ⟨hletters, -⟩ := columnNumber_eq_some h
  intro c hc
  rw [isCornerChar, hletters c hc]
  rfl

theorem isCornerChar_of_parseU32 (h : parseU32 digits = some row) :
    ∀ c ∈ digits, isCornerChar c := by
  obtain ⟨hdigits, -⟩ := parseU32_eq_some h
  intro c hc
  rw [isCornerChar, hdigits c hc, Bool.or_true]
  rfl

theorem ReadsPart.isCornerChar (h : ReadsPart text part) : ∀ c ∈ text, isCornerChar c := by
  obtain ⟨kind, colAbs, col, rowAbs, row⟩ := part
  cases kind with
  | cell =>
    obtain ⟨letters, digits, rfl, hcol, hrow, -⟩ := h
    simp only [mem_append]
    rintro c (hc | hc | hc | hc)
    · exact isCornerChar_dollar colAbs c hc
    · exact isCornerChar_of_columnNumber hcol c hc
    · exact isCornerChar_dollar rowAbs c hc
    · exact isCornerChar_of_parseU32 hrow c hc
  | column =>
    obtain ⟨letters, rfl, hcol, -⟩ := h
    simp only [mem_append]
    rintro c (hc | hc)
    · exact isCornerChar_dollar colAbs c hc
    · exact isCornerChar_of_columnNumber hcol c hc
  | row =>
    obtain ⟨digits, rfl, hrow, -⟩ := h
    simp only [mem_append]
    rintro c (hc | hc)
    · exact isCornerChar_dollar rowAbs c hc
    · exact isCornerChar_of_parseU32 hrow c hc

theorem ReadsCorners.isCornerChar (h : ReadsCorners text first second) :
    ∀ c ∈ text, isCornerChar c := by
  obtain ⟨-, hcorners⟩ := h
  cases second with
  | none => exact ReadsPart.isCornerChar hcorners
  | some second =>
    obtain ⟨front, back, rfl, hfront, hback, -⟩ := hcorners
    simp only [mem_append, mem_cons]
    rintro c (hc | rfl | hc)
    · exact hfront.isCornerChar c hc
    · decide
    · exact hback.isCornerChar c hc

theorem ReadsCorners.ne_nil (h : ReadsCorners text first second) : text ≠ [] := by
  obtain ⟨-, hcorners⟩ := h
  cases second with
  | none =>
    rintro rfl
    have hread : parsePart ([] ++ []) = some (first, []) :=
      parsePart_append hcorners fun c hc => by cases hc
    cases hread
  | some second =>
    obtain ⟨front, back, rfl, -⟩ := hcorners
    simp

/-- The text is that of a reference: its prefix, if it has one, and its corners. -/
def ReadsReference (unicode : Unicode) (raw : List Char) (reference : Reference) : Prop :=
  ∃ text, raw = reference.sheetPrefix.getD [] ++ text ∧
    ReadsCorners text reference.first reference.second ∧
    match reference.sheetPrefix, reference.sheet with
    | none, none => True
    | some start, some name => ReadsPrefix unicode start name
    | _, _ => False

/-- **What is read as a reference** is its text in front of the rest. -/
theorem parseReference_eq_some (h : parseReference unicode chars = some (reference, next)) :
    ∃ raw, chars = raw ++ next ∧ ReadsReference unicode raw reference ∧
      Follows unicode reference.first reference.second next := by
  rw [parseReference] at h
  cases hbegin : parseSheetPrefix unicode chars with
  | none =>
    rw [hbegin] at h
    obtain ⟨⟨first, second, rest⟩, hread, heq⟩ := Option.map_eq_some_iff.mp h
    obtain ⟨rfl, rfl⟩ := Prod.mk.inj heq
    obtain ⟨text, rfl, hcorners, hfollows⟩ := parseCorners_eq_some hread
    exact ⟨text, rfl, ⟨text, rfl, hcorners, trivial⟩, hfollows⟩
  | some found =>
    obtain ⟨start, name, rest⟩ := found
    rw [hbegin] at h
    obtain ⟨⟨first, second, rest'⟩, hread, heq⟩ := Option.map_eq_some_iff.mp h
    obtain ⟨rfl, rfl⟩ := Prod.mk.inj heq
    obtain ⟨rfl, hstart⟩ := parseSheetPrefix_eq_some hbegin
    obtain ⟨text, rfl, hcorners, hfollows⟩ := parseCorners_eq_some hread
    exact ⟨start ++ text, by rw [append_assoc], ⟨text, rfl, hcorners, hstart⟩, hfollows⟩

/-! ## Pieces -/

/-- A piece of a formula: its text and what the scanner takes it for. -/
structure Piece where
  raw : List Char
  token : Token

variable (unicode) in
/-- The pieces of a formula, from a place on: string literals, references, and other characters one
by one. This is `tokenizeFrom` without the collection of text. -/
def piecesFrom : (length : ℕ) → (before : Option Char) → (chars : List Char) → List Piece
  | _, _, [] => []
  | 0, _, _ :: _ => []
  | length + 1, before, c :: rest =>
    if c = '"' then
      let literal := readLiteral rest
      ⟨c :: literal.1, .text (c :: literal.1)⟩ ::
        piecesFrom length ((c :: literal.1).getLast?) literal.2
    else
      match if boundary unicode before then parseReference unicode (c :: rest) else none with
      | some (reference, next) =>
        let raw := (c :: rest).take ((c :: rest).length - next.length)
        ⟨raw, .ref reference⟩ :: piecesFrom length raw.getLast? next
      | none => ⟨[c], .text [c]⟩ :: piecesFrom length (some c) rest

variable (unicode) in
/-- The pieces of a formula. -/
def pieces (formula : List Char) : List Piece := piecesFrom unicode formula.length none formula

/-- The text of pieces. -/
def rawText (pieces : List Piece) : List Char := pieces.flatMap Piece.raw

variable (unicode) in
/-- The pieces are read where they stand: text is itself, and a reference is the text of that
reference, not in the middle of a name, and before something that does not continue it. -/
def Reads : (before : Option Char) → List Piece → Prop
  | _, [] => True
  | before, piece :: rest =>
    (match piece.token with
      | .text text => piece.raw = text
      | .ref reference => ReadsReference unicode piece.raw reference ∧ boundary unicode before ∧
          Follows unicode reference.first reference.second (rawText rest)) ∧
    Reads piece.raw.getLast? rest

/-- A string literal and what follows are the rest of the text. -/
theorem readLiteral_append (chars : List Char) :
    (readLiteral chars).1 ++ (readLiteral chars).2 = chars := by
  induction chars using readLiteral.induct with
  | case1 => rfl
  | case2 c => rfl
  | case3 rest ih =>
    rw [readLiteral, if_pos rfl, if_pos rfl]
    simpa using ih
  | case4 d rest hd =>
    rw [readLiteral, if_pos rfl, if_neg hd]
    rfl
  | case5 c d rest hc ih =>
    rw [readLiteral, if_neg hc]
    simpa using ih

theorem ReadsReference.ne_nil {raw : List Char} (h : ReadsReference unicode raw reference) :
    raw ≠ [] := by
  obtain ⟨text, rfl, hcorners, -⟩ := h
  simp [hcorners.ne_nil]

/-- One step of the scanner: what it takes from the text, and how it goes on. -/
theorem scan_cases (unicode : Unicode) (before : Option Char) (c : Char) (rest : List Char) :
    ∃ piece next, c :: rest = piece.raw ++ next ∧ piece.raw ≠ [] ∧
      (match piece.token with
        | .text text => piece.raw = text
        | .ref reference => ReadsReference unicode piece.raw reference ∧ boundary unicode before ∧
            Follows unicode reference.first reference.second next) ∧
      (∀ length, piecesFrom unicode (length + 1) before (c :: rest) =
        piece :: piecesFrom unicode length piece.raw.getLast? next) ∧
      ∀ length text, tokenizeFrom unicode (length + 1) before text (c :: rest) =
        match piece.token with
        | .text text' => tokenizeFrom unicode length piece.raw.getLast? (text ++ text') next
        | .ref reference =>
          flushText text ++
            .ref reference :: tokenizeFrom unicode length piece.raw.getLast? [] next := by
  by_cases hquote : c = '"'
  · refine ⟨⟨c :: (readLiteral rest).1, .text (c :: (readLiteral rest).1)⟩, (readLiteral rest).2,
      ?_, cons_ne_nil _ _, rfl, fun length => ?_, fun length text => ?_⟩
    · rw [cons_append, readLiteral_append]
    · rw [piecesFrom, if_pos hquote]
    · rw [tokenizeFrom, if_pos hquote]
  cases hread : if boundary unicode before then parseReference unicode (c :: rest) else none with
  | none =>
    refine ⟨⟨[c], .text [c]⟩, rest, rfl, cons_ne_nil _ _, rfl, fun length => ?_,
      fun length text => ?_⟩
    · rw [piecesFrom, if_neg hquote, hread]
      rfl
    · rw [tokenizeFrom, if_neg hquote, hread]
      rfl
  | some found =>
    obtain ⟨reference, next⟩ := found
    have hboundary : boundary unicode before = true := by
      by_contra hno
      rw [if_neg hno] at hread
      cases hread
    have hparse := hread
    rw [if_pos hboundary] at hparse
    obtain ⟨raw, hraw, hreads, hfollows⟩ := parseReference_eq_some hparse
    have htake : (c :: rest).take ((c :: rest).length - next.length) = raw := by
      rw [hraw, length_append, Nat.add_sub_cancel, take_left]
    refine ⟨⟨raw, .ref reference⟩, next, hraw, hreads.ne_nil, ⟨hreads, hboundary, hfollows⟩,
      fun length => ?_, fun length text => ?_⟩
    · rw [piecesFrom, if_neg hquote, hread]
      simp only [htake]
    · rw [tokenizeFrom, if_neg hquote, hread]
      simp only [htake]

variable (unicode) in
/-- **The pieces are the formula**, and each is read where it stands. -/
theorem piecesFrom_spec (length : ℕ) (before : Option Char) (chars : List Char)
    (h : chars.length ≤ length) :
    rawText (piecesFrom unicode length before chars) = chars ∧
      Reads unicode before (piecesFrom unicode length before chars) := by
  induction length generalizing before chars with
  | zero =>
    obtain rfl := length_eq_zero_iff.mp (Nat.le_zero.mp h)
    exact ⟨rfl, trivial⟩
  | succ length ih =>
    cases chars with
    | nil => exact ⟨rfl, trivial⟩
    | cons c rest =>
      obtain ⟨piece, next, hsplit, hne, hpiece, hpieces, -⟩ :=
        scan_cases unicode before c rest
      have hshort : next.length ≤ length := by
        have hlen := congrArg List.length hsplit
        have hpos := length_pos_iff.mpr hne
        simp only [length_cons, length_append] at hlen h
        omega
      obtain ⟨hraw, hreads⟩ := ih piece.raw.getLast? next hshort
      rw [hpieces]
      refine ⟨?_, ?_, hreads⟩
      · rw [rawText, flatMap_cons, hsplit]
        exact congrArg (piece.raw ++ ·) hraw
      · rw [hraw]
        exact hpiece

/-- What is made of the tokens, text being copied, is made of the pieces. -/
theorem flatMap_tokenizeFrom {f : Token → List Char} (hf : ∀ text, f (.text text) = text)
    (length : ℕ) (before : Option Char) (text chars : List Char) (h : chars.length ≤ length) :
    (tokenizeFrom unicode length before text chars).flatMap f =
      text ++ (piecesFrom unicode length before chars).flatMap fun piece => f piece.token := by
  have hflush : ∀ text, (flushText text).flatMap f = text := by
    intro text
    rw [flushText]
    by_cases hempty : text.isEmpty = true
    · rw [if_pos hempty, isEmpty_iff.mp hempty]
      rfl
    · rw [if_neg hempty, flatMap_singleton, hf]
  induction length generalizing before text chars with
  | zero =>
    obtain rfl := length_eq_zero_iff.mp (Nat.le_zero.mp h)
    simpa [tokenizeFrom, piecesFrom] using hflush text
  | succ length ih =>
    cases chars with
    | nil => simpa [tokenizeFrom, piecesFrom] using hflush text
    | cons c rest =>
      obtain ⟨piece, next, hsplit, hne, -, hpieces, htokens⟩ :=
        scan_cases unicode before c rest
      have hshort : next.length ≤ length := by
        have hlen := congrArg List.length hsplit
        have hpos := length_pos_iff.mpr hne
        simp only [length_cons, length_append] at hlen h
        omega
      rw [hpieces, htokens, flatMap_cons]
      obtain ⟨raw, token⟩ := piece
      cases token with
      | text text' =>
        simp only [hf]
        rw [ih _ _ _ hshort, append_assoc]
      | ref reference =>
        simp only
        rw [flatMap_append, hflush, flatMap_cons, ih _ _ _ hshort, nil_append]

end Formula

end Xlsx

end OpenBitFun
