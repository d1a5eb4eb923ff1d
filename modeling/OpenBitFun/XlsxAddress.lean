import Mathlib

/-!
# Addresses of cells

Rows and columns are counted from one; columns are written with letters (`address.rs`).
-/

namespace OpenBitFun

open List

namespace Xlsx

/-- `MAX_ROWS`. -/
def maxRows : ℕ := 1048576

/-- `MAX_COLUMNS`. -/
def maxColumns : ℕ := 16384

/-- `CellRef`: row and column. -/
structure CellRef where
  row : ℕ
  col : ℕ
  deriving DecidableEq

/-- Cells are ordered by their rows, and by their columns in a row. -/
instance : LT CellRef := ⟨fun a b => a.row < b.row ∨ a.row = b.row ∧ a.col < b.col⟩

instance (a b : CellRef) : Decidable (a < b) :=
  inferInstanceAs (Decidable (a.row < b.row ∨ a.row = b.row ∧ a.col < b.col))

/-- `char::is_ascii_alphabetic`. -/
def isAsciiAlphabetic (c : Char) : Bool := ('a' ≤ c && c ≤ 'z') || ('A' ≤ c && c ≤ 'Z')

/-- `char::is_ascii_digit`. -/
def isAsciiDigit (c : Char) : Bool := '0' ≤ c && c ≤ '9'

/-- `char::to_ascii_uppercase`. -/
def toAsciiUppercase (c : Char) : Char :=
  if 'a' ≤ c && c ≤ 'z' then Char.ofNat (c.toNat - 32) else c

/-- `str::eq_ignore_ascii_case`. -/
def eqIgnoreAsciiCase (a b : List Char) : Bool := a.map toAsciiUppercase == b.map toAsciiUppercase

/-- The number that a column's letters write, from the first to the last. -/
def lettersValue (letters : List Char) : ℕ :=
  letters.foldl (fun value c => value * 26 + ((toAsciiUppercase c).toNat - 'A'.toNat + 1)) 0

/-- `column_number`. -/
def columnNumber (letters : List Char) : Option ℕ :=
  if letters.isEmpty || decide (3 < letters.length) || !letters.all isAsciiAlphabetic then none
  else if lettersValue letters ≤ maxColumns then some (lettersValue letters) else none

/-- The letters of a column before some others, last one first; every round divides by 26. -/
def columnLettersFrom : (rounds : ℕ) → (col : ℕ) → List Char → List Char
  | 0, _, letters => letters
  | rounds + 1, col, letters =>
    if col = 0 then letters
    else
      columnLettersFrom rounds ((col - 1) / 26)
        (Char.ofNat ('A'.toNat + (col - 1) % 26) :: letters)

/-- `column_letters`. -/
def columnLetters (col : ℕ) : List Char := columnLettersFrom col col []

/-- The number that digits write, for `str::parse::<u32>` on digits. -/
def parseU32 (digits : List Char) : Option ℕ :=
  if digits.isEmpty || !digits.all isAsciiDigit then none
  else
    let value := Nat.ofDigitChars 10 digits 0
    if value < 2 ^ 32 then some value else none

/-! ## Digits -/

variable {c : Char} {letters digits : List Char} {col row : ℕ}

theorem isAsciiDigit_iff : isAsciiDigit c ↔ 48 ≤ c.toNat ∧ c.toNat ≤ 57 := by
  simp only [isAsciiDigit, Bool.and_eq_true, decide_eq_true_eq]
  rfl

theorem isAsciiDigit_of_mem_toDigits (h : c ∈ Nat.toDigits 10 row) : isAsciiDigit c :=
  Nat.isDigit_of_mem_toDigits (by decide) (by decide) h

theorem parseU32_toDigits (h : row < 2 ^ 32) : parseU32 (Nat.toDigits 10 row) = some row := by
  have hempty : (Nat.toDigits 10 row).isEmpty = false := by simp
  have hall : (Nat.toDigits 10 row).all isAsciiDigit = true :=
    all_eq_true.mpr fun c hc => isAsciiDigit_of_mem_toDigits hc
  rw [parseU32, hempty, hall, if_neg (by decide), Nat.ofDigitChars_ten_toDigits, if_pos h]

theorem parseU32_eq_some (h : parseU32 digits = some row) :
    (∀ c ∈ digits, isAsciiDigit c) ∧ digits ≠ [] ∧ row = Nat.ofDigitChars 10 digits 0 := by
  rw [parseU32] at h
  by_cases hbad : (digits.isEmpty || !digits.all isAsciiDigit) = true
  · rw [if_pos hbad] at h
    cases h
  · rw [if_neg hbad] at h
    simp only [Bool.or_eq_true, Bool.not_eq_true', not_or, Bool.not_eq_false,
      List.isEmpty_iff, List.all_eq_true] at hbad
    by_cases hlt : Nat.ofDigitChars 10 digits 0 < 2 ^ 32
    · rw [if_pos hlt] at h
      exact ⟨hbad.2, hbad.1, (Option.some.inj h).symm⟩
    · rw [if_neg hlt] at h
      cases h

theorem toDigits_digit (h : isAsciiDigit c) : Nat.toDigits 10 (c.toNat - '0'.toNat) = [c] := by
  obtain ⟨hlow, hhigh⟩ := isAsciiDigit_iff.mp h
  have hzero : '0'.toNat = 48 := rfl
  have hlt : c.toNat - '0'.toNat < 10 := by omega
  rw [Nat.toDigits_of_lt_base hlt]
  have hval : (c.toNat - '0'.toNat).digitChar.toNat = c.toNat := by
    rw [Nat.toNat_digitChar_of_lt_ten hlt]
    omega
  rw [Char.toNat_inj.mp hval]

theorem zeros_of_ofDigitChars (h : ∀ c ∈ digits, isAsciiDigit c)
    (hzero : Nat.ofDigitChars 10 digits 0 = 0) : ∀ c ∈ digits, (c == '0') = true := by
  induction digits with
  | nil => exact fun c hc => by cases hc
  | cons d digits ih =>
    obtain ⟨hd, hdigits⟩ := forall_mem_cons.mp h
    rw [Nat.ofDigitChars_cons, Nat.ofDigitChars_eq_ofDigitChars_zero] at hzero
    have hvalue : d.toNat - '0'.toNat = 0 := by
      have hprod := Nat.eq_zero_of_add_eq_zero_right hzero
      have hpow : 0 < 10 ^ digits.length := Nat.pow_pos (by decide)
      have hsum : 10 * 0 + (d.toNat - '0'.toNat) = 0 :=
        (Nat.mul_eq_zero.mp hprod).resolve_left (by omega)
      omega
    refine forall_mem_cons.mpr ⟨?_, ih hdigits (Nat.eq_zero_of_add_eq_zero_left hzero)⟩
    obtain ⟨hlow, -⟩ := isAsciiDigit_iff.mp hd
    have hzero' : '0'.toNat = 48 := rfl
    have heq : d.toNat = '0'.toNat := by omega
    rw [Char.toNat_inj.mp heq]
    rfl

/-- A number that is written from its digits has them again, without the zeros in front. -/
theorem toDigits_ofDigitChars (h : ∀ c ∈ digits, isAsciiDigit c)
    (hpos : Nat.ofDigitChars 10 digits 0 ≠ 0) :
    Nat.toDigits 10 (Nat.ofDigitChars 10 digits 0) = digits.dropWhile (· == '0') := by
  induction digits using List.reverseRecOn with
  | nil => exact absurd rfl hpos
  | append_singleton digits c ih =>
    have hc : isAsciiDigit c := h c (by simp)
    have hdigits : ∀ d ∈ digits, isAsciiDigit d := fun d hd => h d (by simp [hd])
    have hlt : c.toNat - '0'.toNat < 10 := by
      obtain ⟨-, hhigh⟩ := isAsciiDigit_iff.mp hc
      have hzero : '0'.toNat = 48 := rfl
      omega
    have hvalue : Nat.ofDigitChars 10 (digits ++ [c]) 0 =
        10 * Nat.ofDigitChars 10 digits 0 + (c.toNat - '0'.toNat) := by
      rw [Nat.ofDigitChars_append, Nat.ofDigitChars_cons, Nat.ofDigitChars_nil]
    rw [hvalue] at hpos ⊢
    by_cases hzero : Nat.ofDigitChars 10 digits 0 = 0
    · -- Only zeros come before the last digit.
      have hzeros := zeros_of_ofDigitChars hdigits hzero
      rw [hzero, Nat.mul_zero, Nat.zero_add] at hpos ⊢
      have hne : (c == '0') = false := by
        refine beq_eq_false_iff_ne.mpr fun heq => hpos ?_
        rw [heq]
        rfl
      rw [toDigits_digit hc, dropWhile_append_of_pos hzeros, dropWhile_cons, hne]
      rfl
    · have hdrop : digits.dropWhile (· == '0') ≠ [] := by
        rw [← ih hdigits hzero]
        exact Nat.toDigits_ne_nil
      rw [← Nat.toDigits_append_toDigits (by decide) (Nat.pos_of_ne_zero hzero) hlt,
        ih hdigits hzero, toDigits_digit hc, dropWhile_append, if_neg (by simpa using hdrop)]

/-! ## Letters -/

/-- What a letter counts for, from 1 to 26. -/
def letterValue (c : Char) : ℕ := (toAsciiUppercase c).toNat - 'A'.toNat + 1

theorem isAsciiAlphabetic_iff : isAsciiAlphabetic c ↔
    97 ≤ c.toNat ∧ c.toNat ≤ 122 ∨ 65 ≤ c.toNat ∧ c.toNat ≤ 90 := by
  simp only [isAsciiAlphabetic, Bool.or_eq_true, Bool.and_eq_true, decide_eq_true_eq]
  rfl

theorem toNat_ofNat {n : ℕ} (h : n < 128) : (Char.ofNat n).toNat = n := by
  rw [Char.ofNat, dif_pos (Or.inl (by omega : n < 0xd800))]
  rfl

/-- An upper case letter is the character of its value. -/
theorem toAsciiUppercase_eq (h : isAsciiAlphabetic c) :
    toAsciiUppercase c = Char.ofNat ('A'.toNat + (letterValue c - 1)) ∧
      1 ≤ letterValue c ∧ letterValue c ≤ 26 := by
  have hA : 'A'.toNat = 65 := rfl
  have hup : (toAsciiUppercase c).toNat = c.toNat - 32 ∧ 97 ≤ c.toNat ∧ c.toNat ≤ 122 ∨
      (toAsciiUppercase c).toNat = c.toNat ∧ 65 ≤ c.toNat ∧ c.toNat ≤ 90 := by
    rw [toAsciiUppercase]
    by_cases hlow : (decide ('a' ≤ c) && decide (c ≤ 'z')) = true
    · rw [if_pos hlow]
      simp only [Bool.and_eq_true, decide_eq_true_eq] at hlow
      have hrange : 97 ≤ c.toNat ∧ c.toNat ≤ 122 := hlow
      exact .inl ⟨toNat_ofNat (by omega), hrange⟩
    · rw [if_neg hlow]
      simp only [Bool.and_eq_true, decide_eq_true_eq] at hlow
      have hrange : ¬(97 ≤ c.toNat ∧ c.toNat ≤ 122) := hlow
      exact .inr ⟨rfl, (isAsciiAlphabetic_iff.mp h).resolve_left hrange⟩
  have hvalue : letterValue c = (toAsciiUppercase c).toNat - 65 + 1 := rfl
  refine ⟨Char.toNat_inj.mp ?_, by omega, by omega⟩
  rw [toNat_ofNat (by omega)]
  omega

theorem lettersValue_concat (letters : List Char) (c : Char) :
    lettersValue (letters ++ [c]) = lettersValue letters * 26 + letterValue c := by
  rw [lettersValue, foldl_append]
  rfl

theorem columnLettersFrom_append (rounds col : ℕ) (letters : List Char) :
    columnLettersFrom rounds col letters = columnLettersFrom rounds col [] ++ letters := by
  induction rounds generalizing col letters with
  | zero => rfl
  | succ rounds ih =>
    rw [columnLettersFrom, columnLettersFrom]
    by_cases h : col = 0
    · rw [if_pos h, if_pos h]
      rfl
    · rw [if_neg h, if_neg h, ih, ih _ [_], append_assoc]
      rfl

/-- More rounds than the column change nothing. -/
theorem columnLettersFrom_eq {rounds : ℕ} (h : col ≤ rounds) :
    columnLettersFrom rounds col [] = columnLetters col := by
  rw [columnLetters]
  induction col using Nat.strongRecOn generalizing rounds with
  | ind col ih =>
    cases rounds with
    | zero =>
      obtain rfl := Nat.le_zero.mp h
      rfl
    | succ rounds =>
      cases col with
      | zero => rfl
      | succ col =>
        rw [columnLettersFrom, columnLettersFrom, if_neg (Nat.succ_ne_zero col),
          if_neg (Nat.succ_ne_zero col), columnLettersFrom_append, columnLettersFrom_append col]
        have hlt : (col + 1 - 1) / 26 ≤ col := by
          rw [Nat.add_sub_cancel]
          exact Nat.div_le_self col 26
        rw [ih _ (Nat.lt_succ_of_le hlt) (by omega : _ ≤ rounds), ih _ (Nat.lt_succ_of_le hlt) hlt]

/-- The last letter of a column, and the letters before. -/
theorem columnLetters_digit {n d : ℕ} (hpos : 1 ≤ d) (hle : d ≤ 26) :
    columnLetters (n * 26 + d) = columnLetters n ++ [Char.ofNat ('A'.toNat + (d - 1))] := by
  obtain ⟨k, hk⟩ : ∃ k, n * 26 + d = k + 1 := ⟨n * 26 + d - 1, by omega⟩
  have hdiv : k / 26 = n := by omega
  have hmod : k % 26 = d - 1 := by omega
  rw [columnLetters, hk, columnLettersFrom, if_neg (Nat.succ_ne_zero k), Nat.add_sub_cancel, hdiv,
    hmod, columnLettersFrom_append, columnLettersFrom_eq (by omega)]

/-- **Letters that are read are written again** in upper case. -/
theorem columnLetters_lettersValue (h : ∀ c ∈ letters, isAsciiAlphabetic c) :
    columnLetters (lettersValue letters) = letters.map toAsciiUppercase := by
  induction letters using List.reverseRecOn with
  | nil => rfl
  | append_singleton letters c ih =>
    obtain ⟨hc, hpos, hle⟩ := toAsciiUppercase_eq (h c (by simp))
    rw [lettersValue_concat, columnLetters_digit hpos hle, ih fun d hd => h d (by simp [hd]),
      map_append, map_singleton, hc]

/-- Every column but zero has a last letter. -/
theorem exists_digit (h : col ≠ 0) : ∃ n d, col = n * 26 + d ∧ 1 ≤ d ∧ d ≤ 26 ∧ n < col :=
  ⟨(col - 1) / 26, (col - 1) % 26 + 1, by omega, by omega, by omega, by omega⟩

/-- The letters of a column are upper case letters, and write it. -/
theorem columnLetters_spec (col : ℕ) : (∀ c ∈ columnLetters col, isAsciiAlphabetic c) ∧
    lettersValue (columnLetters col) = col := by
  induction col using Nat.strongRecOn with
  | ind col ih =>
    by_cases hzero : col = 0
    · subst hzero
      exact ⟨fun c hc => absurd hc not_mem_nil, rfl⟩
    obtain ⟨n, d, hcol, hpos, hle, hlt⟩ := exists_digit hzero
    obtain ⟨hletters, hvalue⟩ := ih n hlt
    have hA : 'A'.toNat = 65 := rfl
    have hchar : (Char.ofNat ('A'.toNat + (d - 1))).toNat = 'A'.toNat + (d - 1) :=
      toNat_ofNat (by omega)
    have halpha : isAsciiAlphabetic (Char.ofNat ('A'.toNat + (d - 1))) :=
      isAsciiAlphabetic_iff.mpr (.inr (by omega))
    have hdigit : letterValue (Char.ofNat ('A'.toNat + (d - 1))) = d := by
      have hlow : ¬(decide ('a' ≤ Char.ofNat ('A'.toNat + (d - 1))) &&
          decide (Char.ofNat ('A'.toNat + (d - 1)) ≤ 'z')) = true := by
        simp only [Bool.and_eq_true, decide_eq_true_eq]
        rintro ⟨h, -⟩
        have h' : 97 ≤ (Char.ofNat ('A'.toNat + (d - 1))).toNat := h
        omega
      rw [letterValue, toAsciiUppercase, if_neg hlow]
      omega
    rw [hcol, columnLetters_digit hpos hle]
    refine ⟨fun c hc => ?_, by rw [lettersValue_concat, hvalue, hdigit]⟩
    obtain hc | hc := mem_append.mp hc
    · exact hletters c hc
    · rw [mem_singleton.mp hc]
      exact halpha

/-- A column of a sheet has one to three letters. -/
theorem length_columnLetters (hpos : 1 ≤ col) (hle : col ≤ maxColumns) :
    1 ≤ (columnLetters col).length ∧ (columnLetters col).length ≤ 3 := by
  have hmax : maxColumns = 16384 := rfl
  obtain ⟨n, d, hcol, hd, hd', hlt⟩ := exists_digit (by omega : col ≠ 0)
  rw [hcol, columnLetters_digit hd hd', length_append, length_singleton]
  by_cases hn : n = 0
  · rw [hn]
    exact ⟨by simp [columnLetters, columnLettersFrom], by simp [columnLetters, columnLettersFrom]⟩
  obtain ⟨m, e, hn', he, he', hlt'⟩ := exists_digit hn
  rw [hn', columnLetters_digit he he', length_append, length_singleton]
  by_cases hm : m = 0
  · rw [hm]
    exact ⟨by simp [columnLetters, columnLettersFrom], by simp [columnLetters, columnLettersFrom]⟩
  obtain ⟨k, f, hm', hf, hf', -⟩ := exists_digit hm
  have hk : k = 0 := by omega
  rw [hm', columnLetters_digit hf hf', hk]
  exact ⟨by simp, by simp [columnLetters, columnLettersFrom]⟩

/-- **A written column is read back.** -/
theorem columnNumber_columnLetters (hpos : 1 ≤ col) (hle : col ≤ maxColumns) :
    columnNumber (columnLetters col) = some col := by
  obtain ⟨hletters, hvalue⟩ := columnLetters_spec col
  obtain ⟨hlow, hhigh⟩ := length_columnLetters hpos hle
  have hgood : ¬((columnLetters col).isEmpty || decide (3 < (columnLetters col).length) ||
      !(columnLetters col).all isAsciiAlphabetic) = true := by
    have hne : columnLetters col ≠ [] := length_pos_iff.mp hlow
    have hall : (columnLetters col).all isAsciiAlphabetic = true := all_eq_true.mpr hletters
    simp [hne, hall]
    omega
  rw [columnNumber, if_neg hgood, hvalue, if_pos hle]

theorem columnNumber_eq_some (h : columnNumber letters = some col) :
    (∀ c ∈ letters, isAsciiAlphabetic c) ∧ letters ≠ [] ∧ col = lettersValue letters ∧
      1 ≤ col ∧ col ≤ maxColumns := by
  rw [columnNumber] at h
  by_cases hbad : (letters.isEmpty || decide (3 < letters.length) ||
      !letters.all isAsciiAlphabetic) = true
  · rw [if_pos hbad] at h
    cases h
  · rw [if_neg hbad] at h
    simp only [Bool.or_eq_true, Bool.not_eq_true', not_or, Bool.not_eq_false,
      List.isEmpty_iff, List.all_eq_true] at hbad
    by_cases hle : lettersValue letters ≤ maxColumns
    · rw [if_pos hle] at h
      obtain rfl := Option.some.inj h
      refine ⟨hbad.2, hbad.1.1, rfl, ?_, hle⟩
      obtain hnil | ⟨front, c, hsplit⟩ := List.eq_nil_or_concat letters
      · exact absurd hnil hbad.1.1
      · rw [hsplit, List.concat_eq_append, lettersValue_concat, letterValue]
        omega
    · rw [if_neg hle] at h
      cases h

theorem length_of_columnNumber (h : columnNumber letters = some col) : letters.length ≤ 3 := by
  by_contra hlong
  have hbad : (letters.isEmpty || decide (3 < letters.length) ||
      !letters.all isAsciiAlphabetic) = true := by
    simp
    omega
  rw [columnNumber, if_pos hbad] at h
  cases h

end Xlsx

end OpenBitFun
