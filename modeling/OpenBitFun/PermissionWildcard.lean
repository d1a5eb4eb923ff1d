import Mathlib
import OpenBitFun.Glob
import OpenBitFun.Text

/-!
# Permission wildcards

The wildcard matcher of tool permission rules (`tool_permissions.rs`). A pattern is matched by a
table with one row for each of its characters: entry `k` of the row says whether the first `k`
characters of the input match the pattern read so far. In front of the table stands a rule of its
own for patterns that end in a blank and a star, whose argument may be left out.

The table computes the language of the glob (`globMatches_iff`). The rule in front of it compares
the input with the rest of the pattern character by character, so it is the documented rule only
where that rest has no wildcard (`wildcardMatches_documented_iff`).

The functions take the lower-casing of texts (`str::to_lowercase`) as a parameter: nothing here
depends on which function it is.
-/

namespace OpenBitFun

open List

namespace ToolPermissions

/-- `PermissionResourceCaseSensitivity`. -/
inductive PermissionResourceCaseSensitivity where
  | sensitive
  | insensitive
  deriving DecidableEq, Repr

section Definitions

variable (toLowercase : List Char → List Char)

/-- `normalize_wildcard_value`. -/
def normalizeWildcardValue (value : String) (caseSensitivity : PermissionResourceCaseSensitivity) :
    List Char :=
  let normalized := value.toList.map fun c => if c = '\\' then '/' else c
  match caseSensitivity with
  | .sensitive => normalized
  | .insensitive => toLowercase normalized

/-- One entry of the table, from the row above it and the entries to its left. -/
def globEntry (previous current : List Bool) (patternChar inputChar : Char) (index : ℕ) : Bool :=
  match patternChar with
  | '*' => previous.getD (index + 1) false || current.getD index false
  | '?' => previous.getD index false
  | literal => previous.getD index false && literal == inputChar

/-- One row of the table: the body of the loop over the pattern. -/
def globRow (input : List Char) (previous : List Bool) (patternChar : Char) : List Bool :=
  let first := if patternChar = '*' then previous.getD 0 false else false
  input.zipIdx.foldl (fun current (inputChar, index) =>
    current ++ [globEntry previous current patternChar inputChar index]) [first]

/-- `glob_matches`. -/
def globMatches (input pattern : List Char) : Bool :=
  let first := true :: List.replicate input.length false
  (pattern.foldl (globRow input) first).getD input.length false

/-- `wildcard_matches`. -/
def wildcardMatches (input pattern : String)
    (caseSensitivity : PermissionResourceCaseSensitivity) : Bool :=
  let input := normalizeWildcardValue toLowercase input caseSensitivity
  let pattern := normalizeWildcardValue toLowercase pattern caseSensitivity
  if (Text.stripSuffix [' ', '*'] pattern).any fun stem => input == stem then true
  else globMatches input pattern

end Definitions

/-! ## The table is the language of the glob -/

/-- The symbol a character of a pattern stands for. -/
def symbol (c : Char) : Glob.Symbol Char :=
  match c with
  | '*' => .anyText
  | '?' => .anyOne
  | literal => .letter literal

/-- The texts of a pattern. -/
def globLanguage (pattern : List Char) : Language Char := Glob.language (pattern.map symbol)

theorem symbol_cases (c : Char) :
    (c = '*' ∧ symbol c = .anyText) ∨ (c = '?' ∧ symbol c = .anyOne) ∨
      (c ≠ '*' ∧ c ≠ '?' ∧ symbol c = .letter c) := by
  by_cases hstar : c = '*'
  · exact .inl ⟨hstar, by rw [hstar]; rfl⟩
  by_cases hone : c = '?'
  · exact .inr (.inl ⟨hone, by rw [hone]; rfl⟩)
  refine .inr (.inr ⟨hstar, hone, ?_⟩)
  unfold symbol
  split
  · exact absurd rfl hstar
  · exact absurd rfl hone
  · rfl

/-- What a row says: which of the first prefixes of the input are in a language. -/
def Describes (input : List Char) (L : Language Char) (n : ℕ) (row : List Bool) : Prop :=
  row.length = n + 1 ∧ ∀ k ≤ n, row.getD k false = true ↔ input.take k ∈ L

variable {input : List Char} {L : Language Char} {previous current : List Bool} {k : ℕ}

theorem describes_first (hprevious : Describes input L input.length previous) (c : Char) :
    Describes input (L * (symbol c).language) 0
      [if c = '*' then previous.getD 0 false else false] := by
  refine ⟨rfl, fun k hk => ?_⟩
  obtain rfl := Nat.le_zero.mp hk
  rw [take_zero, getD_cons_zero]
  rcases symbol_cases c with ⟨rfl, hsymbol⟩ | ⟨rfl, hsymbol⟩ | ⟨hstar, -, hsymbol⟩
  · rw [hsymbol, if_pos rfl, hprevious.2 0 (Nat.zero_le _), Glob.nil_mem_mul_anyText,
      take_zero]
  · rw [hsymbol, if_neg (by decide)]
    have hnil := Glob.nil_notMem_mul L (M := Glob.Symbol.anyOne.language)
      fun ⟨a, ha⟩ => nomatch ha
    exact ⟨fun h => (nomatch h), fun h => absurd h hnil⟩
  · rw [hsymbol, if_neg hstar]
    have hnil := Glob.nil_notMem_mul L (M := (Glob.Symbol.letter c).language)
      fun h => nomatch h
    exact ⟨fun h => (nomatch h), fun h => absurd h hnil⟩

/-- The next entry of a row, from the row above it and the entry to its left. -/
theorem globEntry_iff (hprevious : Describes input L input.length previous) {c : Char}
    (hcurrent : Describes input (L * (symbol c).language) k current) (hk : k < input.length) :
    globEntry previous current c input[k] k = true ↔
      input.take (k + 1) ∈ L * (symbol c).language := by
  have hleft := hprevious.2 k hk.le
  rcases symbol_cases c with ⟨rfl, hsymbol⟩ | ⟨rfl, hsymbol⟩ | ⟨hstar, hone, hsymbol⟩
  · have habove := hprevious.2 (k + 1) hk
    have hbefore := hcurrent.2 k le_rfl
    rw [hsymbol] at hbefore ⊢
    rw [take_succ_eq_append_getElem hk] at habove ⊢
    rw [Glob.concat_mem_mul_anyText, ← habove, ← hbefore]
    exact Bool.or_eq_true_iff
  · rw [hsymbol, take_succ_eq_append_getElem hk, Glob.concat_mem_mul_anyOne, ← hleft]
    exact Iff.rfl
  · have hentry : globEntry previous current c input[k] k =
        (previous.getD k false && c == input[k]) := by
      unfold globEntry
      split
      · exact absurd rfl hstar
      · exact absurd rfl hone
      · rfl
    rw [hentry, hsymbol, take_succ_eq_append_getElem hk, Glob.concat_mem_mul_letter, ← hleft,
      Bool.and_eq_true, beq_iff_eq]

/-- The entries of a row after `k` characters of the input. -/
theorem describes_entries (hprevious : Describes input L input.length previous) (c : Char)
    (hk : k ≤ input.length) :
    Describes input (L * (symbol c).language) k ((input.zipIdx.take k).foldl
      (fun current (inputChar, index) =>
        current ++ [globEntry previous current c inputChar index])
      [if c = '*' then previous.getD 0 false else false]) := by
  induction k with
  | zero => exact describes_first hprevious c
  | succ k ih =>
    have hzip : k < input.zipIdx.length := by rwa [length_zipIdx]
    obtain ⟨hlength, hentries⟩ := ih (Nat.le_of_succ_le hk)
    rw [take_succ_eq_append_getElem hzip, foldl_concat, getElem_zipIdx]
    generalize (input.zipIdx.take k).foldl _ _ = current at hlength hentries ⊢
    refine ⟨by rw [length_append, hlength, length_singleton], fun i hi => ?_⟩
    rcases Nat.lt_or_ge i (k + 1) with hlt | hge
    · rw [getD_append _ _ _ _ (by rwa [hlength])]
      exact hentries i (Nat.le_of_lt_succ hlt)
    · obtain rfl : i = k + 1 := le_antisymm hi hge
      rw [getD_append_right _ _ _ _ (by rw [hlength]), hlength, Nat.sub_self,
        getD_cons_zero]
      simpa using globEntry_iff hprevious ⟨hlength, hentries⟩ hk

/-- **One row**: the body of the loop extends the language by one symbol. -/
theorem describes_globRow (hprevious : Describes input L input.length previous) (c : Char) :
    Describes input (L * (symbol c).language) input.length (globRow input previous c) := by
  have h := describes_entries hprevious c le_rfl
  rwa [take_of_length_le (by rw [length_zipIdx])] at h

/-- The row in front of the pattern: only the empty prefix matches the empty pattern. -/
theorem describes_start (input : List Char) :
    Describes input 1 input.length (true :: List.replicate input.length false) := by
  refine ⟨by simp, fun k hk => ?_⟩
  rw [Language.mem_one]
  cases k with
  | zero => simp
  | succ k =>
    have hne : input ≠ [] := ne_nil_of_length_pos (Nat.zero_lt_of_lt hk)
    simp [hne]

theorem describes_rows (input pattern : List Char) :
    Describes input (globLanguage pattern) input.length
      (pattern.foldl (globRow input) (true :: List.replicate input.length false)) := by
  induction pattern using List.reverseRecOn with
  | nil => exact describes_start input
  | append_singleton pattern c ih =>
    rw [foldl_concat, globLanguage, map_append, map_singleton,
      Glob.language_concat]
    exact describes_globRow ih c

/-- **The table computes the glob**: an input is accepted if and only if it is one of the texts of
the pattern. -/
theorem globMatches_iff (input pattern : List Char) :
    globMatches input pattern = true ↔ input ∈ globLanguage pattern := by
  have h := (describes_rows input pattern).2 input.length le_rfl
  rwa [take_length] at h

/-! ## The trailing argument -/

theorem mem_language_symbol (c : Char) : [c] ∈ (symbol c).language := by
  rcases symbol_cases c with ⟨-, hsymbol⟩ | ⟨-, hsymbol⟩ | ⟨-, -, hsymbol⟩
  · exact hsymbol ▸ trivial
  · exact hsymbol ▸ ⟨c, rfl⟩
  · exact hsymbol ▸ rfl

theorem self_mem_globLanguage (pattern : List Char) : pattern ∈ globLanguage pattern := by
  induction pattern with
  | nil => exact rfl
  | cons c pattern ih =>
    rw [globLanguage, map_cons, ← singleton_append, Glob.language_append,
      Glob.language_singleton, Language.mem_mul]
    exact ⟨[c], mem_language_symbol c, pattern, ih, rfl⟩

/-- The documented meaning of a pattern: its glob, and where it ends in a blank and a star also
the glob in front of these. -/
def Documented (input pattern : List Char) : Prop :=
  input ∈ globLanguage pattern ∨
    ∃ stem, pattern = stem ++ [' ', '*'] ∧ input ∈ globLanguage stem

/-- The inputs a pattern with an optional argument misses: those that match the part in front of
the argument through a wildcard of it, and do not match the pattern with an argument. -/
def MissesOptionalArgument (input pattern : List Char) : Prop :=
  ∃ stem, pattern = stem ++ [' ', '*'] ∧ input ∈ globLanguage stem ∧ input ≠ stem ∧
    input ∉ globLanguage pattern

section

variable (toLowercase : List Char → List Char)

theorem wildcardMatches_iff (input pattern : String)
    (caseSensitivity : PermissionResourceCaseSensitivity) :
    wildcardMatches toLowercase input pattern caseSensitivity = true ↔
      normalizeWildcardValue toLowercase pattern caseSensitivity =
        normalizeWildcardValue toLowercase input caseSensitivity ++ [' ', '*'] ∨
      normalizeWildcardValue toLowercase input caseSensitivity ∈
        globLanguage (normalizeWildcardValue toLowercase pattern caseSensitivity) := by
  rw [wildcardMatches]
  generalize normalizeWildcardValue toLowercase input caseSensitivity = i
  generalize normalizeWildcardValue toLowercase pattern caseSensitivity = p
  have hstem : (Text.stripSuffix [' ', '*'] p).any (fun stem => i == stem) = true ↔
      p = i ++ [' ', '*'] := by
    rw [Option.any_eq_true]
    refine ⟨?_, fun h => ⟨i, Text.stripSuffix_eq_some.mpr h, beq_self_eq_true i⟩⟩
    rintro ⟨stem, hstem, hi⟩
    rw [beq_iff_eq.mp hi]
    exact Text.stripSuffix_eq_some.mp hstem
  rw [← globMatches_iff, ← hstem]
  split
  · rename_i h
    exact iff_of_true rfl (.inl h)
  · rename_i h
    exact (or_iff_right h).symm

/-- **Wildcard matching is the documented glob, except for a trailing argument behind a wildcard**:
the matcher and the documentation agree on an input and a pattern if and only if the input is not
one of those that the pattern should match with its argument left out, through a wildcard in front
of that argument. -/
theorem wildcardMatches_documented_iff (input pattern : String)
    (caseSensitivity : PermissionResourceCaseSensitivity) :
    (wildcardMatches toLowercase input pattern caseSensitivity = true ↔
      Documented (normalizeWildcardValue toLowercase input caseSensitivity)
        (normalizeWildcardValue toLowercase pattern caseSensitivity)) ↔
    ¬MissesOptionalArgument (normalizeWildcardValue toLowercase input caseSensitivity)
      (normalizeWildcardValue toLowercase pattern caseSensitivity) := by
  rw [wildcardMatches_iff]
  generalize normalizeWildcardValue toLowercase input caseSensitivity = i
  generalize normalizeWildcardValue toLowercase pattern caseSensitivity = p
  refine ⟨?_, fun hmiss => ⟨?_, ?_⟩⟩
  · rintro hagree ⟨stem, hp, hi, hne, hnot⟩
    rcases hagree.mpr (.inr ⟨stem, hp, hi⟩) with h | h
    · exact hne (append_cancel_right (h.symm.trans hp))
    · exact hnot h
  · rintro (h | h)
    · exact .inr ⟨i, h, self_mem_globLanguage i⟩
    · exact .inl h
  · rintro (h | ⟨stem, hp, hi⟩)
    · exact .inr h
    · by_cases hne : i = stem
      · exact .inl (hne ▸ hp)
      by_cases hin : i ∈ globLanguage p
      · exact .inr hin
      exact absurd ⟨stem, hp, hi, hne, hin⟩ hmiss

/-- `git` matches `g*`, but not `g* *`, whose argument is documented to be optional. -/
theorem wildcardMatches_optional_argument_missed :
    ¬(wildcardMatches Text.toAsciiLowercase "git" "g* *" .sensitive = true ↔
      Documented (normalizeWildcardValue Text.toAsciiLowercase "git" .sensitive)
        (normalizeWildcardValue Text.toAsciiLowercase "g* *" .sensitive)) ∧
    wildcardMatches Text.toAsciiLowercase "git" "g*" .sensitive = true ∧
    wildcardMatches Text.toAsciiLowercase "git" "g* *" .sensitive = false := by
  refine ⟨fun hagree => ?_, by decide +kernel, by decide +kernel⟩
  have hmiss : wildcardMatches Text.toAsciiLowercase "git" "g* *" .sensitive = false := by
    decide +kernel
  have hdocumented : Documented (normalizeWildcardValue Text.toAsciiLowercase "git" .sensitive)
      (normalizeWildcardValue Text.toAsciiLowercase "g* *" .sensitive) :=
    .inr ⟨['g', '*'], by decide +kernel, (globMatches_iff _ _).mp (by decide +kernel)⟩
  rw [hagree.mpr hdocumented] at hmiss
  cases hmiss

end

end ToolPermissions

end OpenBitFun
