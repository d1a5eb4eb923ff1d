import Mathlib
import OpenBitFun.Occurrences

/-!
# Text

The string operations of Rust's standard library that Lean's own do not match: Unicode white space
and `trim`, lines, and positions counted in bytes of UTF-8. The functions work on lists of
characters; a byte position is the number of bytes in front of a character.
-/

namespace OpenBitFun

open List

namespace Text

/-! ## White space -/

/-- `char::is_whitespace`: the Unicode property `White_Space`. -/
def isWhitespace (c : Char) : Bool :=
  let n := c.toNat
  (9 ≤ n && n ≤ 13) || n == 0x20 || n == 0x85 || n == 0xA0 || n == 0x1680 ||
    (0x2000 ≤ n && n ≤ 0x200A) || n == 0x2028 || n == 0x2029 || n == 0x202F || n == 0x205F ||
    n == 0x3000

/-- `str::trim_start`. -/
def trimStart (s : List Char) : List Char := s.dropWhile isWhitespace

/-- `str::trim_end`. -/
def trimEnd (s : List Char) : List Char := s.rdropWhile isWhitespace

/-- `str::trim`. -/
def trim (s : List Char) : List Char := trimEnd (trimStart s)

/-! ## Bytes -/

/-- `str::len`: the length in bytes of UTF-8. -/
def byteLength (s : List Char) : ℕ := (s.map Char.utf8Size).sum

@[simp] theorem byteLength_nil : byteLength [] = 0 := rfl

@[simp] theorem byteLength_cons (c : Char) (s : List Char) :
    byteLength (c :: s) = c.utf8Size + byteLength s := rfl

@[simp] theorem byteLength_append (s t : List Char) :
    byteLength (s ++ t) = byteLength s + byteLength t := by
  simp [byteLength]

/-- The longest prefix of at most `n` bytes: the text before the last character boundary at or
before byte `n`. -/
def takeBytes (n : ℕ) : List Char → List Char
  | [] => []
  | c :: s => if c.utf8Size ≤ n then c :: takeBytes (n - c.utf8Size) s else []

/-- The longest suffix of at most `n` bytes. -/
def takeBytesEnd (n : ℕ) (s : List Char) : List Char := (takeBytes n s.reverse).reverse

/-! ## Lines -/

/-- `split_inclusive('\\n')`: the lines, each with its line feed. -/
def splitInclusive : List Char → List (List Char)
  | [] => []
  | c :: s =>
    if c = '\n' then [c] :: splitInclusive s
    else match splitInclusive s with
      | [] => [[c]]
      | line :: lines => (c :: line) :: lines

/-- Drops one line feed at the end, and then one carriage return. -/
def stripLineEnd (line : List Char) : List Char :=
  if line.getLast? = some '\n' then
    let line := line.dropLast
    if line.getLast? = some '\r' then line.dropLast else line
  else line

/-- `str::lines`. -/
def lines (s : List Char) : List (List Char) := (splitInclusive s).map stripLineEnd

section Lines

variable {w : List Char}

/-- Up to the first line feed there is one line. -/
theorem splitInclusive_append (h : '\n' ∉ w) (rest : List Char) :
    splitInclusive (w ++ '\n' :: rest) = (w ++ ['\n']) :: splitInclusive rest := by
  induction w with
  | nil =>
    rw [nil_append, splitInclusive, if_pos rfl]
    rfl
  | cons c w ih =>
    have hc := ne_of_not_mem_cons h
    have hw := not_mem_of_not_mem_cons h
    rw [cons_append, splitInclusive, if_neg (Ne.symm hc), ih hw]
    rfl

/-- A text without line feeds is one line. -/
theorem splitInclusive_of_not_mem (h : '\n' ∉ w) (hne : w ≠ []) : splitInclusive w = [w] := by
  induction w with
  | nil => exact absurd rfl hne
  | cons c w ih =>
    have hc := ne_of_not_mem_cons h
    have hw := not_mem_of_not_mem_cons h
    rw [splitInclusive, if_neg (Ne.symm hc)]
    cases w with
    | nil => rfl
    | cons d w => rw [ih hw (cons_ne_nil _ _)]

theorem lines_append (h : '\n' ∉ w) (rest : List Char) :
    lines (w ++ '\n' :: rest) =
      (if w.getLast? = some '\r' then w.dropLast else w) :: lines rest := by
  rw [lines, splitInclusive_append h, map_cons, stripLineEnd, getLast?_concat,
    if_pos rfl, dropLast_concat]
  rfl

theorem lines_of_not_mem (h : '\n' ∉ w) (hne : w ≠ []) : lines w = [w] := by
  have hlast : w.getLast? ≠ some '\n' := fun hc => h (mem_of_getLast? hc)
  rw [lines, splitInclusive_of_not_mem h hne, map_singleton, stripLineEnd, if_neg hlast]

end Lines

/-- `str::to_ascii_lowercase`. -/
def toAsciiLowercase (s : List Char) : List Char :=
  s.map fun c => if 'A' ≤ c && c ≤ 'Z' then Char.ofNat (c.toNat + 32) else c

/-- `str::starts_with` for a string pattern. -/
def startsWith (s : List Char) (pattern : String) : Bool := pattern.toList.isPrefixOf s

/-- `str::ends_with` for a string pattern. -/
def endsWith (s : List Char) (pattern : String) : Bool := pattern.toList.isSuffixOf s

/-- `str::strip_suffix`. -/
def stripSuffix (pattern s : List Char) : Option (List Char) :=
  if pattern.isSuffixOf s then some (s.take (s.length - pattern.length)) else none

theorem stripSuffix_eq_some {pattern s stem : List Char} :
    stripSuffix pattern s = some stem ↔ s = stem ++ pattern := by
  rw [stripSuffix]
  split
  · rename_i h
    obtain ⟨t, rfl⟩ := isSuffixOf_iff_suffix.mp h
    rw [Option.some_inj, length_append, Nat.add_sub_cancel, take_left,
      append_left_inj]
  · rename_i h
    refine ⟨fun hnone => (nomatch hnone), fun hs => absurd ?_ h⟩
    exact isSuffixOf_iff_suffix.mpr ⟨stem, hs.symm⟩

/-- `str::trim_matches` for a character test. -/
def trimMatches (s : List Char) (test : Char → Bool) : List Char :=
  (s.dropWhile test).rdropWhile test

/-- `str::contains` for a string pattern. -/
def contains (s pattern : List Char) : Bool := decide (pattern <:+: s)

/-! ## Patterns -/

/-- `str::find`, as a number of characters. -/
def find (s pattern : List Char) : Option ℕ :=
  if pattern.isPrefixOf s then some 0
  else match s with
    | [] => none
    | _ :: s => (find s pattern).map (· + 1)

/-- The position of a pattern that is found: it starts there, and nowhere before. -/
theorem find_eq_some {s pattern : List Char} {n : ℕ} (h : find s pattern = some n) :
    pattern <+: s.drop n ∧ ∀ k < n, ¬pattern <+: s.drop k := by
  induction s generalizing n with
  | nil =>
    rw [find] at h
    split at h
    · next hpre =>
      cases h
      exact ⟨by simpa using hpre, by simp⟩
    · simp at h
  | cons c s ih =>
    rw [find] at h
    split at h
    · next hpre =>
      cases h
      exact ⟨List.isPrefixOf_iff_prefix.1 hpre, by simp⟩
    · next hpre =>
      obtain ⟨m, hm, rfl⟩ := Option.map_eq_some_iff.1 h
      obtain ⟨hstart, hfirst⟩ := ih hm
      refine ⟨hstart, fun k hk => ?_⟩
      cases k with
      | zero => exact fun hzero => hpre (List.isPrefixOf_iff_prefix.2 hzero)
      | succ k => exact hfirst k (by omega)

/-- A pattern that is not found starts nowhere. -/
theorem find_eq_none {s pattern : List Char} (h : find s pattern = none) (n : ℕ) :
    ¬pattern <+: s.drop n := by
  induction s generalizing n with
  | nil =>
    rw [find] at h
    split at h
    · simp at h
    · next hpre =>
      rw [drop_nil]
      exact fun hstart => hpre (List.isPrefixOf_iff_prefix.2 hstart)
  | cons c s ih =>
    rw [find] at h
    split at h
    · simp at h
    · next hpre =>
      cases n with
      | zero => exact fun hstart => hpre (List.isPrefixOf_iff_prefix.2 hstart)
      | succ n => exact ih (Option.map_eq_none_iff.1 h) n

/-- Behind a text in which no pattern starts. -/
theorem find_append {front rest pattern : List Char}
    (h : ∀ k < front.length, ¬pattern <+: (front ++ rest).drop k) :
    find (front ++ rest) pattern = (find rest pattern).map (front.length + ·) := by
  induction front with
  | nil => simp
  | cons c front ih =>
    have hstart : ¬pattern.isPrefixOf (c :: (front ++ rest)) := fun hpre =>
      h 0 (Nat.zero_lt_succ _) (List.isPrefixOf_iff_prefix.1 hpre)
    rw [cons_append, find, if_neg hstart,
      ih fun k hk => h (k + 1) (Nat.succ_lt_succ hk)]
    cases find rest pattern with
    | none => rfl
    | some n => simp [Nat.add_right_comm]

section Starts

variable {pattern future : List Char} {k : ℕ}

/-- A pattern that starts in a longer text and ends in the text. -/
theorem prefix_of_append {s : List Char} (h : pattern <+: (s ++ future).drop k)
    (hlen : k + pattern.length ≤ s.length) : pattern <+: s.drop k := by
  rw [drop_append_of_le_length (by omega)] at h
  refine prefix_of_prefix_length_le h (prefix_append _ _) ?_
  rw [length_drop]
  omega

/-- A pattern that starts in a text and ends behind it. -/
theorem drop_start {s : List Char} (h : pattern <+: (s ++ future).drop k) (hk : k ≤ s.length)
    (hlen : s.length ≤ k + pattern.length) : s.drop k <+: pattern := by
  rw [drop_append_of_le_length hk] at h
  refine prefix_of_prefix_length_le (prefix_append _ _) h ?_
  rw [length_drop]
  omega

/-- Cutting a text where a pattern starts. -/
theorem eq_append_of_prefix {s : List Char} (h : pattern <+: s.drop k) :
    s = s.take k ++ (pattern ++ s.drop (k + pattern.length)) := by
  obtain ⟨rest, hrest⟩ := h
  have hdrop : s.drop (k + pattern.length) = rest := by
    rw [← drop_drop, ← hrest, drop_left]
  rw [hdrop, hrest, take_append_drop]

theorem drop_lt {s : List Char} (h : pattern <+: s.drop k) (hne : pattern ≠ []) :
    (s.drop (k + pattern.length)).length < s.length := by
  have hle := h.length_le
  have hpos := length_pos_of_ne_nil hne
  simp only [length_drop] at hle ⊢
  omega

end Starts

/-- The byte positions of the ends of all gaps but the last, where `position` bytes are in front of
the first. -/
def offsets (pattern : List Char) : (position : ℕ) → List (List Char) → List ℕ
  | position, g :: g' :: gs =>
    (position + byteLength g) ::
      offsets pattern (position + byteLength g + byteLength pattern) (g' :: gs)
  | _, _ => []

/-- The positions of `str::match_indices`, in bytes; the pattern is not empty. -/
def matchIndices (s pattern : List Char) : List ℕ := offsets pattern 0 (gaps id pattern s)

/-- `str::replace`; the pattern is not empty. -/
def replace (s pattern new : List Char) : List Char := new.intercalate (gaps id pattern s)

/-- Joins gaps: the first `count` times with `new`, then with the pattern. -/
def joinFirst (pattern new : List Char) : (count : ℕ) → List (List Char) → List Char
  | _, [] => []
  | _, [g] => g
  | 0, g :: gs => g ++ pattern ++ joinFirst pattern new 0 gs
  | count + 1, g :: gs => g ++ new ++ joinFirst pattern new count gs

/-- `str::replacen`; the pattern is not empty. -/
def replacen (s pattern new : List Char) (count : ℕ) : List Char :=
  joinFirst pattern new count (gaps id pattern s)

/-- `[T]::join` with line feeds. -/
def joinLines (lines : List (List Char)) : List Char := ['\n'].intercalate lines

/-- `str::parse::<usize>`. -/
def parseUsize (s : List Char) : Option ℕ :=
  let digits := if s.head? = some '+' then s.tail else s
  if digits.isEmpty || !digits.all Char.isDigit then none
  else
    let n := digits.foldl (fun n c => 10 * n + (c.toNat - 48)) 0
    if n < 2 ^ 64 then some n else none

end Text

end OpenBitFun
