import OpenBitFun.Text

/-!
# Slices of strings

A string is sliced at byte positions, and slicing inside a character fails. `slice?` follows
`&s[from..to]`; a slice that does not fail is a part of the string (`slice?_append`). The positions
where `match_indices` finds a pattern are boundaries, apart from each other, and there are some
where the pattern occurs.
-/

namespace OpenBitFun

open List

namespace Text

variable {s t x y z pattern : List Char} {m n : ℕ}

/-! ## Boundaries -/

/-- Cuts a string after some bytes; there must be a character boundary. -/
def splitAt? : List Char → ℕ → Option (List Char × List Char)
  | s, 0 => some ([], s)
  | [], _ + 1 => none
  | c :: s, n =>
    if c.utf8Size ≤ n then (splitAt? s (n - c.utf8Size)).map fun cut => (c :: cut.1, cut.2)
    else none

/-- `&s[from..to]`, which fails inside a character, behind the end and backwards. -/
def slice? (s : List Char) (start stop : ℕ) : Option (List Char) :=
  if stop < start then none
  else (splitAt? s start).bind fun cut => (splitAt? cut.2 (stop - start)).map Prod.fst

/-- `char_indices`, in a longer string from a position on. -/
def charIndices : (position : ℕ) → List Char → List (ℕ × Char)
  | _, [] => []
  | position, c :: s => (position, c) :: charIndices (position + c.utf8Size) s

/-- A position between two characters, or at an end. -/
def Boundary (s : List Char) (n : ℕ) : Prop := ∃ x z, s = x ++ z ∧ byteLength x = n

theorem splitAt?_append (x z : List Char) : splitAt? (x ++ z) (byteLength x) = some (x, z) := by
  induction x with
  | nil => cases z <;> rfl
  | cons c x ih =>
    have hpos := Char.utf8Size_pos c
    obtain ⟨n, hn⟩ : ∃ n, byteLength (c :: x) = n + 1 := by
      rw [byteLength_cons]
      exact ⟨c.utf8Size + byteLength x - 1, by omega⟩
    rw [hn, cons_append, splitAt?, ← hn]
    · have hle : c.utf8Size ≤ byteLength (c :: x) := by simp
      have hsub : byteLength (c :: x) - c.utf8Size = byteLength x := by simp
      rw [if_pos hle, hsub, ih]
      rfl
    · omega

theorem slice?_append (x y z : List Char) :
    slice? (x ++ (y ++ z)) (byteLength x) (byteLength x + byteLength y) = some y := by
  have hsub : byteLength x + byteLength y - byteLength x = byteLength y := by omega
  rw [slice?, if_neg (by omega), splitAt?_append, Option.bind_some, hsub, splitAt?_append]
  rfl

theorem charIndices_append (x y : List Char) : ∀ position : ℕ, charIndices position (x ++ y) =
    charIndices position x ++ charIndices (position + byteLength x) y := by
  induction x with
  | nil => exact fun _ => rfl
  | cons c x ih =>
    intro position
    simp [charIndices, ih, Nat.add_assoc]

/-- The positions of the characters of a part. -/
theorem mem_charIndices {position : ℕ} {c : Char} (h : (n, c) ∈ charIndices position s) :
    position ≤ n ∧ n < position + byteLength s := by
  induction s generalizing position with
  | nil => simp [charIndices] at h
  | cons c' s ih =>
    have hpos := Char.utf8Size_pos c'
    rw [byteLength_cons]
    rcases mem_cons.1 h with heq | h
    · cases heq
      omega
    · have := ih h
      omega

theorem map_snd_charIndices (s : List Char) : ∀ position : ℕ,
    (charIndices position s).map Prod.snd = s := by
  induction s with
  | nil => exact fun _ => rfl
  | cons c s ih => simp [charIndices, ih]

theorem byteLength_pos (h : s ≠ []) : 0 < byteLength s := by
  cases s with
  | nil => exact absurd rfl h
  | cons c s =>
    have := Char.utf8Size_pos c
    rw [byteLength_cons]
    omega

/-- Of two ways of cutting a string the shorter start is a start of the longer. -/
theorem exists_append_of_le (h : x ++ z = y ++ t) (hle : byteLength x ≤ byteLength y) :
    ∃ m, y = x ++ m ∧ z = m ++ t := by
  rcases append_eq_append_iff.1 h with ⟨m, hy, hz⟩ | ⟨m, hx, ht⟩
  · exact ⟨m, hy, hz⟩
  · -- the other way around the rest is empty
    have hm : m = [] := by
      by_contra hne
      have hpos := byteLength_pos hne
      rw [hx, byteLength_append] at hle
      omega
    subst hm
    exact ⟨[], by simpa using hx.symm, by simpa using ht.symm⟩

/-- Cutting what comes after a part at a boundary behind it. -/
theorem Boundary.split (h : Boundary (x ++ z) n) (hle : byteLength x ≤ n) :
    ∃ y t, z = y ++ t ∧ byteLength x + byteLength y = n := by
  obtain ⟨x', t, heq, hlen⟩ := h
  obtain ⟨m, hx', hz⟩ := exists_append_of_le heq (by omega)
  refine ⟨m, t, hz, ?_⟩
  rw [← hlen, hx', byteLength_append]

theorem Boundary.split_part (h : Boundary (x ++ (y ++ z)) n) (hle : byteLength x ≤ n)
    (hle' : n ≤ byteLength x + byteLength y) :
    ∃ y₁ y₂, y = y₁ ++ y₂ ∧ byteLength x + byteLength y₁ = n := by
  obtain ⟨y₁, t, heq, hlen⟩ := h.split hle
  obtain ⟨y₂, hy, -⟩ := exists_append_of_le heq.symm (by omega)
  exact ⟨y₁, y₂, hy, hlen⟩

theorem append_inj_of_byteLength (h : x ++ z = y ++ t) (hlen : byteLength x = byteLength y) :
    x = y ∧ z = t := by
  obtain ⟨m, hy, hz⟩ := exists_append_of_le h (by omega)
  have hm : m = [] := by
    by_contra hne
    have hpos := byteLength_pos hne
    rw [hy, byteLength_append] at hlen
    omega
  subst hm
  exact ⟨by simpa using hy.symm, by simpa using hz⟩

/-! ## Matches -/

/-- The positions of a pattern that `match_indices` finds, in a longer string from a position on:
the first occurrence, and those behind it. -/
inductive MatchesAt (pattern : List Char) : (position : ℕ) → List Char → List ℕ → Prop
  | none {position : ℕ} {s : List Char} (h : ¬Occurs id pattern s) : MatchesAt pattern position s []
  | first {position : ℕ} {g s : List Char} {ps : List ℕ}
      (hleft : Leftmost id pattern g pattern s)
      (h : MatchesAt pattern (position + byteLength g + byteLength pattern) s ps) :
      MatchesAt pattern position (g ++ pattern ++ s) ((position + byteLength g) :: ps)

theorem matchesAt_offsets (hpattern : pattern ≠ []) (s : List Char) : ∀ position : ℕ,
    MatchesAt pattern position s (offsets pattern position (gaps id pattern s)) := by
  -- by the length of the string: each occurrence takes something away
  induction hlen : s.length using Nat.strongRecOn generalizing s with
  | ind n ih =>
    intro position
    by_cases hocc : Occurs id pattern s
    · obtain ⟨g, w, rest, rfl, hw, hleft⟩ := exists_leftmost hocc
      rw [map_id] at hw
      subst hw
      have hwlen := length_pos_of_ne_nil hpattern
      have hne := gaps_ne_nil id w rest
      rw [gaps_of_leftmost hpattern (map_id _) hleft]
      obtain ⟨g', gs, hgs⟩ := exists_cons_of_ne_nil hne
      have hrest := ih rest.length (by simp only [length_append] at hlen; omega) rest rfl
        (position + byteLength g + byteLength w)
      rw [hgs] at hrest ⊢
      exact .first hleft hrest
    · rw [gaps_of_not_occurs hocc]
      exact .none hocc

/-- The positions that `match_indices` finds. -/
theorem matchesAt_matchIndices (hpattern : pattern ≠ []) (s : List Char) :
    MatchesAt pattern 0 s (matchIndices s pattern) :=
  matchesAt_offsets hpattern s 0

variable {position : ℕ} {ps : List ℕ}

/-- Where a match is found the pattern stands. -/
theorem MatchesAt.exists_append (h : MatchesAt pattern position s ps) {p : ℕ} (hp : p ∈ ps) :
    ∃ x z, s = x ++ (pattern ++ z) ∧ position + byteLength x = p := by
  induction h with
  | none => simp at hp
  | @first position g s ps hleft h ih =>
    rcases mem_cons.1 hp with rfl | hp
    · exact ⟨g, s, by simp, rfl⟩
    · obtain ⟨x, z, rfl, hlen⟩ := ih hp
      refine ⟨g ++ (pattern ++ x), z, by simp, ?_⟩
      simp only [byteLength_append]
      omega

/-- Matches are found in order and do not overlap. -/
theorem MatchesAt.pairwise (h : MatchesAt pattern position s ps) :
    ps.Pairwise fun p q => p + byteLength pattern ≤ q := by
  induction h with
  | none => exact List.Pairwise.nil
  | first hleft h ih =>
    refine pairwise_cons.2 ⟨fun q hq => ?_, ih⟩
    obtain ⟨x, z, -, hlen⟩ := h.exists_append hq
    omega

theorem MatchesAt.ne_nil (h : MatchesAt pattern position s ps) (hocc : Occurs id pattern s) :
    ps ≠ [] := by
  cases h with
  | none hnone => exact absurd hocc hnone
  | first => exact cons_ne_nil _ _

theorem occurs_of_infix (h : pattern <:+: s) : Occurs id pattern s := by
  obtain ⟨x, z, rfl⟩ := h
  exact ⟨x, pattern, z, rfl, map_id _⟩

end Text

end OpenBitFun
