import Mathlib

/-!
# Occurrences of a pattern in a list

The occurrences of a pattern that do not overlap, searched from the left, cut a list into gaps
(`gaps`). The elements may be of another type than the pattern's: an element stands for the value
of `f`. `Replaced` says that a text is the list with the occurrences replaced and every gap as it
was; `replaced_iff` computes it from the gaps.
-/

namespace OpenBitFun

open List

universe u v w

variable {α : Type u} {β : Type v} {γ : Type w}

/-! ## Gaps -/

section Gaps

variable [DecidableEq β] (f : α → β) (pattern : List β)

/-- The gaps between the occurrences; the first `skip` elements belong to an occurrence. -/
def gapsFrom : (skip : ℕ) → List α → List (List α)
  | _, [] => [[]]
  | skip + 1, _ :: l => gapsFrom skip l
  | 0, a :: l =>
    if ((a :: l).take pattern.length).map f = pattern then
      [] :: gapsFrom (pattern.length - 1) l
    else (gapsFrom 0 l).modifyHead (a :: ·)

/-- The gaps between the occurrences of a pattern that is not empty. -/
def gaps (l : List α) : List (List α) := gapsFrom f pattern 0 l

variable {f pattern}

theorem gapsFrom_ne_nil (f : α → β) (pattern : List β) (skip : ℕ) (l : List α) :
    gapsFrom f pattern skip l ≠ [] := by
  fun_induction gapsFrom f pattern skip l with
  | case1 => exact cons_ne_nil _ _
  | case2 skip a l ih => exact ih
  | case3 => exact cons_ne_nil _ _
  | case4 a l h ih =>
    obtain ⟨g, rest, hg⟩ := exists_cons_of_ne_nil ih
    rw [hg]
    exact cons_ne_nil _ _

theorem gaps_ne_nil (f : α → β) (pattern : List β) (l : List α) : gaps f pattern l ≠ [] :=
  gapsFrom_ne_nil f pattern 0 l

theorem gapsFrom_append (w l : List α) :
    gapsFrom f pattern w.length (w ++ l) = gapsFrom f pattern 0 l := by
  induction w with
  | nil => rfl
  | cons a w ih => simpa [gapsFrom] using ih

theorem gapsFrom_map (skip : ℕ) (l : List α) :
    gapsFrom id pattern skip (l.map f) = (gapsFrom f pattern skip l).map (List.map f) := by
  fun_induction gapsFrom f pattern skip l with
  | case1 => rfl
  | case2 skip a l ih => simpa [gapsFrom] using ih
  | case3 a l h ih =>
    rw [map_cons, gapsFrom, if_pos, ih]
    · rfl
    · rw [map_id, ← map_cons, ← map_take, h]
  | case4 a l h ih =>
    rw [map_cons, gapsFrom, if_neg, ih]
    · cases gapsFrom f pattern 0 l <;> rfl
    · rw [map_id, ← map_cons, ← map_take]
      exact h

theorem gaps_map (l : List α) : gaps id pattern (l.map f) = (gaps f pattern l).map (List.map f) :=
  gapsFrom_map 0 l

theorem mem_of_mem_gapsFrom {skip : ℕ} {l g : List α} {a : α}
    (hg : g ∈ gapsFrom f pattern skip l) (ha : a ∈ g) : a ∈ l := by
  fun_induction gapsFrom f pattern skip l generalizing g with
  | case1 =>
    obtain rfl : g = [] := by simpa using hg
    exact ha
  | case2 skip x l ih => exact mem_cons_of_mem x (ih hg ha)
  | case3 x l h ih =>
    obtain rfl | hg := mem_cons.1 hg
    · cases ha
    · exact mem_cons_of_mem x (ih hg ha)
  | case4 x l h ih =>
    obtain ⟨g', rest, heq⟩ := exists_cons_of_ne_nil (gapsFrom_ne_nil f pattern 0 l)
    rw [heq] at hg ih
    obtain rfl | hg := mem_cons.1 hg
    · obtain rfl | ha := mem_cons.1 ha
      · exact mem_cons_self
      · exact mem_cons_of_mem x (ih mem_cons_self ha)
    · exact mem_cons_of_mem x (ih (mem_cons_of_mem _ hg) ha)

/-- A gap is made of elements of the list. -/
theorem mem_of_mem_gaps {l g : List α} {a : α} (hg : g ∈ gaps f pattern l) (ha : a ∈ g) : a ∈ l :=
  mem_of_mem_gapsFrom hg ha

end Gaps

/-! ## Occurrences -/

section Occurrences

variable {f : α → β} {pattern : List β} {g w l : List α}

/-- No occurrence in `g ++ w ++ l` starts before `w`. -/
def Leftmost (f : α → β) (pattern : List β) (g w l : List α) : Prop :=
  ∀ a b c, g ++ w ++ l = a ++ b ++ c → b.map f = pattern → g.length ≤ a.length

/-- The pattern occurs. -/
def Occurs (f : α → β) (pattern : List β) (l : List α) : Prop :=
  ∃ a b c, l = a ++ b ++ c ∧ b.map f = pattern

theorem Leftmost.tail {x : α} (h : Leftmost f pattern (x :: g) w l) : Leftmost f pattern g w l := by
  intro a b c heq hb
  have := h (x :: a) b c (by simpa using heq) hb
  simpa using this

/-- The occurrence at the head of a list. -/
theorem map_take_eq_iff {x : α} :
    ((x :: l).take pattern.length).map f = pattern ↔ ∃ b c, x :: l = b ++ c ∧ b.map f = pattern := by
  refine ⟨fun h => ⟨_, _, (take_append_drop pattern.length (x :: l)).symm, h⟩, ?_⟩
  rintro ⟨b, c, heq, hb⟩
  have hlen : pattern.length = b.length := by rw [← hb, length_map]
  rw [heq, hlen, take_left', hb]
  rfl

/-- If the pattern occurs, there is a first occurrence. -/
theorem exists_leftmost (h : Occurs f pattern l) :
    ∃ g w rest, l = g ++ w ++ rest ∧ w.map f = pattern ∧ Leftmost f pattern g w rest := by
  induction l with
  | nil =>
    obtain ⟨a, b, c, heq, hb⟩ := h
    refine ⟨a, b, c, heq, hb, fun a' b' c' heq' _ => ?_⟩
    have : a = [] := by
      have := heq.symm
      simp only [append_eq_nil_iff] at this
      exact this.1.1
    simp [this]
  | cons x l ih =>
    by_cases hhead : ∃ b c, x :: l = b ++ c ∧ b.map f = pattern
    · obtain ⟨b, c, heq, hb⟩ := hhead
      exact ⟨[], b, c, heq, hb, fun _ _ _ _ _ => Nat.zero_le _⟩
    · obtain ⟨a, b, c, heq, hb⟩ := h
      obtain _ | ⟨y, a⟩ := a
      · exact absurd ⟨b, c, heq, hb⟩ hhead
      obtain ⟨rfl, rfl⟩ : x = y ∧ l = a ++ b ++ c := by simpa using heq
      obtain ⟨g, w, rest, heq', hw, hleft⟩ := ih ⟨a, b, c, rfl, hb⟩
      refine ⟨x :: g, w, rest, by simp [heq'], hw, fun a' b' c' heq'' hb' => ?_⟩
      obtain _ | ⟨z, a'⟩ := a'
      · refine absurd ⟨b', c', ?_, hb'⟩ hhead
        rw [heq']
        simpa using heq''
      · have := hleft a' b' c' (by simpa using (cons_eq_cons.1 heq'').2) hb'
        simpa using this

variable [DecidableEq β]

/-- Without an occurrence there is one gap. -/
theorem gaps_of_not_occurs (h : ¬Occurs f pattern l) : gaps f pattern l = [l] := by
  induction l with
  | nil => rfl
  | cons x l ih =>
    rw [gaps, gapsFrom, if_neg, ← gaps, ih]
    · rfl
    · rintro ⟨a, b, c, rfl, hb⟩
      exact h ⟨x :: a, b, c, by simp, hb⟩
    · rw [map_take_eq_iff]
      rintro ⟨b, c, heq, hb⟩
      exact h ⟨[], b, c, heq, hb⟩

/-- The first occurrence ends the first gap. -/
theorem gaps_of_leftmost (hpattern : pattern ≠ []) (hw : w.map f = pattern)
    (hleft : Leftmost f pattern g w l) : gaps f pattern (g ++ w ++ l) = g :: gaps f pattern l := by
  induction g with
  | nil =>
    obtain ⟨x, w, rfl⟩ : ∃ x w', w = x :: w' := by
      cases w with
      | nil => exact absurd hw.symm hpattern
      | cons x w => exact ⟨x, w, rfl⟩
    have hlen : pattern.length - 1 = w.length := by
      rw [← hw]
      simp
    rw [nil_append, cons_append, gaps, gapsFrom, if_pos, hlen, gapsFrom_append, gaps]
    exact map_take_eq_iff.2 ⟨x :: w, l, rfl, hw⟩
  | cons x g ih =>
    rw [cons_append, cons_append, gaps, gapsFrom, if_neg, ← gaps, ih hleft.tail]
    · rfl
    · rw [map_take_eq_iff]
      rintro ⟨b, c, heq, hb⟩
      have := hleft [] b c (by simpa using heq) hb
      simp at this

/-! ## Replacing -/

/-- `Replaced f pattern emit m l out count`: `out` is `l` with its `count` occurrences of the
pattern that do not overlap, taken from the left, replaced by `m`, and the rest as `emit` writes
it. -/
inductive Replaced (f : α → β) (pattern : List β) (emit : List α → List γ) (m : List γ) :
    List α → List γ → ℕ → Prop
  | none {l : List α} (h : ¬Occurs f pattern l) : Replaced f pattern emit m l (emit l) 0
  | first {g w l : List α} {out : List γ} {count : ℕ} (hw : w.map f = pattern) (hleft : Leftmost f pattern g w l)
    (h : Replaced f pattern emit m l out count) :
    Replaced f pattern emit m (g ++ w ++ l) (emit g ++ m ++ out) (count + 1)

theorem intercalate_cons_gaps (m x : List γ) {rest : List (List γ)} (h : rest ≠ []) :
    m.intercalate (x :: rest) = x ++ m ++ m.intercalate rest := by
  cases rest with
  | nil => exact absurd rfl h
  | cons y rest => simp [List.intercalate]

/-- **The result of replacing** is made of the gaps. -/
theorem replaced_iff {emit : List α → List γ} {m out : List γ} {count : ℕ}
    (hpattern : pattern ≠ []) :
    Replaced f pattern emit m l out count ↔
      out = m.intercalate ((gaps f pattern l).map emit) ∧
        count + 1 = (gaps f pattern l).length := by
  refine ⟨fun h => ?_, ?_⟩
  · induction h with
    | none h => simp [gaps_of_not_occurs h, List.intercalate]
    | first hw hleft h ih =>
      rw [gaps_of_leftmost hpattern hw hleft, map_cons, intercalate_cons_gaps, ← ih.1,
        length_cons, ← ih.2]
      · exact ⟨rfl, rfl⟩
      · simpa using gaps_ne_nil _ _ _
  · -- by the length of the list: each occurrence takes something away
    induction hlen : l.length using Nat.strongRecOn generalizing l out count with
    | ind n ih =>
      rintro ⟨rfl, hcount⟩
      by_cases hocc : Occurs f pattern l
      · obtain ⟨g, w, rest, rfl, hw, hleft⟩ := exists_leftmost hocc
        rw [gaps_of_leftmost hpattern hw hleft] at hcount ⊢
        have hwne : 0 < w.length := by
          rw [← length_map f, hw]
          exact length_pos_of_ne_nil hpattern
        obtain ⟨k, rfl⟩ : ∃ k, count = k + 1 := by
          have := length_pos_of_ne_nil (gaps_ne_nil f pattern rest)
          rw [length_cons] at hcount
          exact ⟨count - 1, by omega⟩
        rw [map_cons, intercalate_cons_gaps]
        · refine .first hw hleft (ih rest.length ?_ rfl ⟨rfl, by simpa using hcount⟩)
          simp only [length_append] at hlen
          omega
        · simpa using gaps_ne_nil _ _ _
      · rw [gaps_of_not_occurs hocc] at hcount ⊢
        obtain rfl : count = 0 := by simpa using hcount
        simpa [List.intercalate] using Replaced.none hocc

end Occurrences

/-- Texts whose gaps are written longer are longer. -/
theorem length_intercalate_map_le {m : List γ} {emit emit' : List α → List γ}
    {gs : List (List α)} (h : ∀ g ∈ gs, (emit g).length ≤ (emit' g).length) :
    (m.intercalate (gs.map emit)).length ≤ (m.intercalate (gs.map emit')).length := by
  induction gs with
  | nil => exact Nat.le_refl _
  | cons g gs ih =>
    obtain ⟨hg, hgs⟩ := forall_mem_cons.1 h
    by_cases hnil : gs = []
    · subst hnil
      simpa [List.intercalate] using hg
    · rw [map_cons, map_cons, intercalate_cons_gaps _ _ (by simpa using hnil),
        intercalate_cons_gaps _ _ (by simpa using hnil)]
      have := ih hgs
      simp only [length_append]
      omega

/-- Two texts with gaps, each written at least as long in the second: the texts are equal exactly
if all gaps are written the same. -/
theorem intercalate_map_eq_iff {m : List γ} {emit emit' : List α → List γ} {gs : List (List α)}
    (h : ∀ g ∈ gs, (emit g).length ≤ (emit' g).length) :
    m.intercalate (gs.map emit) = m.intercalate (gs.map emit') ↔
      ∀ g ∈ gs, emit g = emit' g := by
  refine ⟨fun heq => ?_, fun heq => by rw [map_congr_left heq]⟩
  induction gs with
  | nil => simp
  | cons g gs ih =>
    obtain ⟨hg, hgs⟩ := forall_mem_cons.1 h
    by_cases hnil : gs = []
    · subst hnil
      simpa [List.intercalate] using heq
    · rw [map_cons, map_cons, intercalate_cons_gaps _ _ (by simpa using hnil),
        intercalate_cons_gaps _ _ (by simpa using hnil)] at heq
      have hlen := congrArg List.length heq
      have hrest := length_intercalate_map_le (m := m) hgs
      simp only [length_append] at hlen
      -- the heads have the same length, so they split off
      rw [append_assoc, append_assoc] at heq
      obtain ⟨hhead, htail⟩ := append_inj heq (by omega)
      exact forall_mem_cons.2 ⟨hhead, ih hgs (append_cancel_left htail)⟩

end OpenBitFun
