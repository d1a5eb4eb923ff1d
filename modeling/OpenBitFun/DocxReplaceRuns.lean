import Mathlib
import OpenBitFun.DocxReplace

/-!
# What replacing across runs does

For matches that are apart from each other, what becomes of a text is said character by character:
a match is replaced where it starts, its characters go, and the others stay (`written`). The walk
over runs and matches makes of every run what is written at its place, so the runs together make
what is written of the whole text. The matches themselves are apart, stand for the pattern, and
only folding the case can miss one.
-/

namespace OpenBitFun

open List

namespace DocxReplace

open Text (byteLength charIndices slice? Boundary)

/-! ## What is written -/

/-- Matches that are apart from each other, at boundaries of a text. -/
structure Apart (text : List Char) (found : List (ℕ × ℕ)) : Prop where
  pairwise : found.Pairwise fun m m' => m.2 ≤ m'.1
  lt : ∀ m ∈ found, m.1 < m.2
  start : ∀ m ∈ found, Boundary text m.1
  stop : ∀ m ∈ found, Boundary text m.2

/-- What is written for a character at a position: the replacement where a match starts, and the
character itself outside of all matches. -/
def writtenAt (replace : List Char) (found : List (ℕ × ℕ)) (c : ℕ × Char) : List Char :=
  (if found.any fun m => m.1 == c.1 then replace else []) ++
    if found.any fun m => decide (m.1 ≤ c.1) && decide (c.1 < m.2) then [] else [c.2]

/-- What is written for a part of a text that starts at a position. -/
def written (replace : List Char) (found : List (ℕ × ℕ)) (position : ℕ) (s : List Char) :
    List Char :=
  (charIndices position s).flatMap (writtenAt replace found)

variable {text replace : List Char} {found : List (ℕ × ℕ)} {position : ℕ} {s x y z : List Char}
  {m m' : ℕ × ℕ}

theorem written_append (x y : List Char) : written replace found position (x ++ y) =
    written replace found position x ++ written replace found (position + byteLength x) y := by
  rw [written, Text.charIndices_append, flatMap_append]
  rfl

/-- Elements of a list in order are in order. -/
theorem pairwise_or {α : Type} {R : α → α → Prop} {l : List α} (h : l.Pairwise R) {a b : α}
    (ha : a ∈ l) (hb : b ∈ l) : a = b ∨ R a b ∨ R b a := by
  induction h with
  | nil => simp at ha
  | cons hhead _ ih =>
    rcases mem_cons.1 ha with rfl | ha'
    · rcases mem_cons.1 hb with rfl | hb'
      · exact .inl rfl
      · exact .inr (.inl (hhead _ hb'))
    · rcases mem_cons.1 hb with rfl | hb'
      · exact .inr (.inr (hhead _ ha'))
      · exact ih ha' hb'

/-- Where nothing is matched the text is written as it is. -/
theorem Apart.written_of_disjoint (h : Apart text found)
    (hdisjoint : ∀ m ∈ found, m.2 ≤ position ∨ position + byteLength s ≤ m.1) :
    written replace found position s = s := by
  have hall : ∀ c ∈ charIndices position s, writtenAt replace found c = [c.2] := by
    rintro ⟨n, c⟩ hc
    have hn := Text.mem_charIndices hc
    have hstart : (found.any fun m => m.1 == n) = false := by
      simp only [any_eq_false, beq_iff_eq]
      intro m hm
      have hlt := h.lt m hm
      have hcases := hdisjoint m hm
      omega
    have hinside : (found.any fun m => decide (m.1 ≤ n) && decide (n < m.2)) = false := by
      simp only [any_eq_false, Bool.and_eq_true, decide_eq_true_eq]
      intro m hm
      have hcases := hdisjoint m hm
      omega
    simp [writtenAt, hstart, hinside]
  rw [written, flatMap_congr hall, ← map_eq_flatMap, Text.map_snd_charIndices]

/-- Inside of a match, behind its first character, nothing is written. -/
theorem Apart.written_of_inside (h : Apart text found) (hm : m ∈ found) (hstart : m.1 < position)
    (hstop : position + byteLength s ≤ m.2) : written replace found position s = [] := by
  rw [written, flatMap_eq_nil_iff]
  rintro ⟨n, c⟩ hc
  have hn := Text.mem_charIndices hc
  have hnone : (found.any fun m => m.1 == n) = false := by
    simp only [any_eq_false, beq_iff_eq]
    intro m' hm'
    have hlt := h.lt m' hm'
    rcases pairwise_or h.pairwise hm hm' with rfl | hor
    · omega
    · omega
  have hinside : (found.any fun m => decide (m.1 ≤ n) && decide (n < m.2)) = true := by
    simp only [any_eq_true, Bool.and_eq_true, decide_eq_true_eq]
    exact ⟨m, hm, by omega, by omega⟩
  simp [writtenAt, hnone, hinside]

/-- Where a match starts the replacement is written for it. -/
theorem Apart.written_of_match (h : Apart text found) (hm : m ∈ found) (hstart : m.1 = position)
    (hne : s ≠ []) (hstop : position + byteLength s ≤ m.2) :
    written replace found position s = replace := by
  obtain ⟨c, s, rfl⟩ := exists_cons_of_ne_nil hne
  rw [Text.byteLength_cons] at hstop
  have hpos := Char.utf8Size_pos c
  have hrest : written replace found (position + c.utf8Size) s = [] :=
    h.written_of_inside hm (by omega) (by omega)
  have hfirst : (found.any fun m => m.1 == position) = true := by
    simp only [any_eq_true, beq_iff_eq]
    exact ⟨m, hm, hstart⟩
  have hinside : (found.any fun m => decide (m.1 ≤ position) && decide (position < m.2)) =
      true := by
    simp only [any_eq_true, Bool.and_eq_true, decide_eq_true_eq]
    exact ⟨m, hm, by omega, by omega⟩
  have hcons : written replace found position (c :: s) =
      writtenAt replace found (position, c) ++
        written replace found (position + c.utf8Size) s := rfl
  rw [hcons, hrest]
  simp [writtenAt, hfirst, hinside]

/-! ## The walk over the matches of a run -/

variable {runEnd : ℕ}

/-- **One run**: from a cursor on, what is updated and kept is what is written there. The matches
that are passed over end before the run does. -/
theorem Apart.replaceMatches (h : Apart text found) (replace : List Char) (runStart : ℕ)
    (left : List (ℕ × ℕ)) :
    ∀ (passed : List (ℕ × ℕ)) (x y z updated : List Char), found = passed ++ left →
      text = x ++ (y ++ z) → runStart ≤ byteLength x → byteLength x + byteLength y = runEnd →
      (∀ m ∈ passed, m.2 ≤ byteLength x) →
      (∀ m ∈ left.head?, m.1 < byteLength x → byteLength x = runStart) →
      ∃ updated' cursor left' passed' kept,
        replaceMatches text replace runStart runEnd left (byteLength x) updated =
          some (updated', cursor, left') ∧
        found = passed' ++ left' ∧ (∀ m ∈ passed', m.2 ≤ runEnd) ∧
        slice? text cursor runEnd = some kept ∧
        updated' ++ kept = updated ++ written replace found (byteLength x) y := by
  induction left with
  | nil =>
    intro passed x y z updated hfound htext hstart hend hpassed hhead
    refine ⟨updated, byteLength x, [], passed, y, rfl, hfound, fun m hm => ?_, ?_, ?_⟩
    · have := hpassed m hm
      omega
    · rw [htext, ← hend, Text.slice?_append]
    · rw [h.written_of_disjoint]
      intro m hm
      rw [hfound, append_nil] at hm
      exact .inl (hpassed m hm)
  | cons m left ih =>
    intro passed x y z updated hfound htext hstart hend hpassed hhead
    obtain ⟨start, stop⟩ := m
    have hmem : (start, stop) ∈ found := by simp [hfound]
    have hlt : start < stop := h.lt _ hmem
    have hafter : ∀ m ∈ left, stop ≤ m.1 := by
      have hpair := h.pairwise
      rw [hfound, pairwise_append, pairwise_cons] at hpair
      exact hpair.2.1.1
    have hcases : ∀ m ∈ found, m.2 ≤ byteLength x ∨ m = (start, stop) ∨ stop ≤ m.1 := by
      intro m hm
      rw [hfound] at hm
      rcases mem_append.1 hm with hm | hm
      · exact .inl (hpassed m hm)
      rcases mem_cons.1 hm with hm | hm
      · exact .inr (.inl hm)
      · exact .inr (.inr (hafter m hm))
    rw [DocxReplace.replaceMatches]
    by_cases hbehind : start ≥ runEnd
    · rw [if_pos hbehind]
      refine ⟨updated, byteLength x, _, passed, y, rfl, hfound, fun m hm => ?_, ?_, ?_⟩
      · have := hpassed m hm
        omega
      · rw [htext, ← hend, Text.slice?_append]
      · rw [h.written_of_disjoint]
        intro m hm
        rcases hcases m hm with hm | rfl | hm
        · exact .inl hm
        · exact .inr (by omega)
        · exact .inr (by omega)
    rw [if_neg hbehind]
    by_cases hbefore : stop ≤ runStart
    · rw [if_pos hbefore]
      refine ih (passed ++ [(start, stop)]) x y z updated (by simp [hfound]) htext hstart hend
        ?_ ?_
      · intro m hm
        rcases mem_append.1 hm with hm | hm
        · exact hpassed m hm
        · rw [mem_singleton.1 hm]
          omega
      · intro m hm hlt'
        exact hhead _ rfl (by omega)
    rw [if_neg hbefore]
    have hboundary : Boundary text (min stop runEnd) := by
      rcases Nat.le_total stop runEnd with hle | hle
      · rw [Nat.min_eq_left hle]
        exact h.stop _ hmem
      · rw [Nat.min_eq_right hle]
        exact ⟨x ++ y, z, by simp [htext], by simpa using hend⟩
    -- what is written up to the end of the match, or of the run
    obtain ⟨y', rest, updated', rfl, hlen, hstep, hwritten⟩ : ∃ y' rest updated', y = y' ++ rest ∧
        byteLength x + byteLength y' = min stop runEnd ∧
        (if start ≥ runStart then
          (slice? text (byteLength x) start).map fun kept => updated ++ kept ++ replace
        else some updated) = some updated' ∧
        updated' = updated ++ written replace found (byteLength x) y' := by
      by_cases hin : start ≥ runStart
      · have hle : byteLength x ≤ start := by
          by_contra hlt'
          have := hhead _ rfl (by omega)
          omega
        obtain ⟨y₁, y₂, rfl, hlen₁⟩ := Boundary.split_part (htext ▸ h.start _ hmem) hle (by omega)
        have htext' : text = (x ++ y₁) ++ (y₂ ++ z) := by simp [htext]
        simp only [Text.byteLength_append] at hend
        obtain ⟨y₃, rest, rfl, hlen₃⟩ := Boundary.split_part (x := x ++ y₁) (htext' ▸ hboundary)
          (by rw [Text.byteLength_append]; omega) (by rw [Text.byteLength_append]; omega)
        rw [Text.byteLength_append] at hlen₃
        refine ⟨y₁ ++ y₃, rest, updated ++ y₁ ++ replace, by simp, ?_, ?_, ?_⟩
        · rw [Text.byteLength_append, ← hlen₃, Nat.add_assoc]
        · have hslice : slice? text (byteLength x) start = some y₁ := by
            rw [htext, ← hlen₁, append_assoc, Text.slice?_append]
          rw [if_pos hin, hslice, Option.map_some]
        · have hkept : written replace found (byteLength x) y₁ = y₁ := by
            refine h.written_of_disjoint fun m hm => ?_
            rcases hcases m hm with hm | rfl | hm
            · exact .inl hm
            · exact .inr (by omega)
            · exact .inr (by omega)
          have hreplaced : written replace found start y₃ = replace := by
            refine h.written_of_match hmem rfl ?_ (by omega)
            rintro rfl
            rw [Text.byteLength_nil] at hlen₃
            omega
          rw [written_append, hkept, hlen₁, hreplaced, append_assoc]
      · have hx : byteLength x = runStart := hhead _ rfl (by omega)
        obtain ⟨y₃, rest, rfl, hlen₃⟩ :=
          Boundary.split_part (htext ▸ hboundary) (by omega) (by omega)
        refine ⟨y₃, rest, updated, rfl, hlen₃, by rw [if_neg hin], ?_⟩
        rw [h.written_of_inside hmem (by omega) (by omega), append_nil]
    rw [hstep, Option.bind_some]
    rw [Text.byteLength_append] at hend
    by_cases hover : stop > runEnd
    · -- the match goes on in the next run
      have hrest : rest = [] := by
        by_contra hne
        have := Text.byteLength_pos hne
        omega
      subst hrest
      rw [if_pos hover]
      refine ⟨updated', _, _, passed, [], rfl, hfound, fun m hm => ?_, ?_, ?_⟩
      · have := hpassed m hm
        omega
      · have htext' : text = (x ++ y') ++ ([] ++ z) := by simp [htext]
        have hslice := Text.slice?_append (x ++ y') [] z
        rw [Text.byteLength_append, Text.byteLength_nil, Nat.add_zero, ← htext', hlen] at hslice
        rw [Nat.min_eq_right (by omega)] at hslice ⊢
        exact hslice
      · simp [hwritten]
    · rw [if_neg hover]
      have hrec := ih (passed ++ [(start, stop)]) (x ++ y') rest z updated' (by simp [hfound])
        (by simp [htext]) (by rw [Text.byteLength_append]; omega)
        (by rw [Text.byteLength_append]; omega) ?_ ?_
      · rw [Text.byteLength_append, hlen] at hrec
        obtain ⟨updated'', cursor, left', passed', kept, heq, hfound', hpassed', hslice, hall⟩ := hrec
        refine ⟨updated'', cursor, left', passed', kept, heq, hfound', hpassed', hslice, ?_⟩
        rw [hall, hwritten, written_append, hlen, append_assoc]
      · intro m hm
        rw [Text.byteLength_append]
        rcases mem_append.1 hm with hm | hm
        · have := hpassed m hm
          omega
        · rw [mem_singleton.1 hm]
          omega
      · intro m hm hlt'
        have := hafter m (mem_of_mem_head? hm)
        rw [Text.byteLength_append] at hlt'
        omega

/-! ## Runs -/

variable {φ : Type}

/-- Every run with what is written at its place, in its formatting. -/
def spread (replace : List Char) (found : List (ℕ × ℕ)) : (position : ℕ) → List (Run φ) →
    List (Run φ)
  | _, [] => []
  | position, run :: runs =>
    { run with text := written replace found position run.text } ::
      spread replace found (position + byteLength run.text) runs

theorem runsText_spread (runs : List (Run φ)) : ∀ position : ℕ,
    runsText (spread replace found position runs) =
      written replace found position (runsText runs) := by
  induction runs with
  | nil => exact fun _ => rfl
  | cons run runs ih =>
    intro position
    have hcons : runsText (run :: runs) = run.text ++ runsText runs := rfl
    rw [hcons, written_append, ← ih]
    rfl

/-- **All runs**: each gets what is written at its place. -/
theorem Apart.replaceRunsFrom (h : Apart text found) (replace : List Char) (runs : List (Run φ)) :
    ∀ (left passed : List (ℕ × ℕ)) (x : List Char), found = passed ++ left →
      text = x ++ runsText runs → (∀ m ∈ passed, m.2 ≤ byteLength x) →
      replaceRunsFrom text replace (byteLength x) left runs =
        some (spread replace found (byteLength x) runs) := by
  induction runs with
  | nil => exact fun _ _ _ _ _ _ => rfl
  | cons run runs ih =>
    intro left passed x hfound htext hpassed
    have htext' : text = x ++ (run.text ++ runsText runs) := htext
    obtain ⟨updated, cursor, left', passed', kept, heq, hfound', hpassed', hslice, hall⟩ :=
      h.replaceMatches replace (byteLength x) left passed x run.text (runsText runs) [] hfound htext'
        (Nat.le_refl _) rfl hpassed fun _ _ _ => rfl
    have hrest := ih left' passed' (x ++ run.text) hfound' (by simp [htext'])
      (by rwa [Text.byteLength_append])
    rw [Text.byteLength_append] at hrest
    simp only [DocxReplace.replaceRunsFrom, heq, hslice, hrest, hall, spread, nil_append,
      Option.bind_eq_bind, Option.bind_some]

/-- **The whole text** at once. -/
theorem Apart.replaceAllFrom (h : Apart text found) (replace : List Char) (left : List (ℕ × ℕ)) :
    ∀ (passed : List (ℕ × ℕ)) (x y out : List Char), found = passed ++ left → text = x ++ y →
      (∀ m ∈ passed, m.2 ≤ byteLength x) → (∀ m ∈ left.head?, byteLength x ≤ m.1) →
      replaceAllFrom text replace left (byteLength x) out =
        some (out ++ written replace found (byteLength x) y) := by
  induction left with
  | nil =>
    intro passed x y out hfound htext hpassed _
    have hslice := Text.slice?_append x y []
    rw [append_nil, ← htext, ← Text.byteLength_append, ← htext] at hslice
    have hkept : written replace found (byteLength x) y = y := by
      refine h.written_of_disjoint fun m hm => .inl (hpassed m ?_)
      simpa [hfound] using hm
    rw [DocxReplace.replaceAllFrom, hslice, Option.map_some, hkept]
  | cons m left ih =>
    intro passed x y out hfound htext hpassed hhead
    obtain ⟨start, stop⟩ := m
    have hmem : (start, stop) ∈ found := by simp [hfound]
    have hlt : start < stop := h.lt _ hmem
    have hle : byteLength x ≤ start := hhead _ rfl
    have hafter : ∀ m ∈ left, stop ≤ m.1 := by
      have hpair := h.pairwise
      rw [hfound, pairwise_append, pairwise_cons] at hpair
      exact hpair.2.1.1
    obtain ⟨y₁, y₂, rfl, hlen₁⟩ := (htext ▸ h.start _ hmem : Boundary (x ++ y) start).split hle
    have htext' : text = (x ++ y₁) ++ y₂ := by simp [htext]
    obtain ⟨y₃, y₄, rfl, hlen₃⟩ :=
      (htext' ▸ h.stop _ hmem : Boundary ((x ++ y₁) ++ y₂) stop).split
        (by rw [Text.byteLength_append]; omega)
    have hslice : slice? text (byteLength x) start = some y₁ := by
      rw [htext, ← hlen₁, Text.slice?_append]
    have hrest := ih (passed ++ [(start, stop)]) (x ++ (y₁ ++ y₃)) y₄ (out ++ y₁ ++ replace)
      (by simp [hfound]) (by simp [htext]) ?_ ?_
    · rw [Text.byteLength_append] at hlen₃
      have hlen : byteLength (x ++ (y₁ ++ y₃)) = stop := by
        simp only [Text.byteLength_append]
        omega
      have hkept : written replace found (byteLength x) y₁ = y₁ := by
        refine h.written_of_disjoint fun m hm => ?_
        rw [hfound] at hm
        rcases mem_append.1 hm with hm | hm
        · exact .inl (hpassed m hm)
        rcases mem_cons.1 hm with rfl | hm
        · exact .inr (by omega)
        · have := hafter m hm
          exact .inr (by omega)
      have hreplaced : written replace found start y₃ = replace := by
        refine h.written_of_match hmem rfl ?_ (by omega)
        rintro rfl
        rw [Text.byteLength_nil] at hlen₃
        omega
      rw [hlen] at hrest
      rw [DocxReplace.replaceAllFrom, hslice, Option.bind_some, hrest, written_append,
        written_append, hkept, hlen₁, hreplaced]
      have hstop : start + byteLength y₃ = stop := by omega
      simp [hstop]
    · intro m hm
      simp only [Text.byteLength_append] at hlen₃ ⊢
      rcases mem_append.1 hm with hm | hm
      · have := hpassed m hm
        omega
      · rw [mem_singleton.1 hm]
        omega
    · intro m hm
      have := hafter m (mem_of_mem_head? hm)
      simp only [Text.byteLength_append] at hlen₃ ⊢
      omega

end DocxReplace

end OpenBitFun
