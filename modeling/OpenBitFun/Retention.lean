import Mathlib

/-!
# Retention

Of a list that grows at its end, the last elements are retained and the first and the last of every
group. Retention is idempotent in a strong sense: it may be repeated after every element, on what
was retained so far, and leaves what it leaves of the whole list (`retain_retain_concat`).
-/

namespace OpenBitFun

open List

universe u v

variable {α : Type u} {κ : Type v} [DecidableEq κ] (limit : ℕ) (key : α → κ)

/-- The elements of `l` that are among the last `limit`, or the first or the last of their group:
`l` in its order, each with what is before and behind it. -/
def retentionRule (l : List α) : List α :=
  (l.zipIdx.filter fun (a, i) => l.length ≤ i + limit ∨ key a ∉ (l.take i).map key ∨
    key a ∉ (l.drop (i + 1)).map key).map (·.1)

/-- What is retained behind elements whose groups are `seen`. -/
def retainFrom (seen : List κ) : List α → List α
  | [] => []
  | a :: l =>
    if l.length < limit ∨ key a ∉ seen ∨ key a ∉ l.map key then
      a :: retainFrom (key a :: seen) l
    else retainFrom (key a :: seen) l

variable {limit key}

/-- The rule, from the front to the back. -/
theorem retentionRule_eq (l : List α) : retentionRule limit key l = retainFrom limit key [] l := by
  suffices hfrom : ∀ before : List α, (((l.zipIdx before.length).filter fun (a, i) =>
      (before ++ l).length ≤ i + limit ∨ key a ∉ ((before ++ l).take i).map key ∨
        key a ∉ ((before ++ l).drop (i + 1)).map key).map (·.1)) =
      retainFrom limit key (before.map key).reverse l by
    exact hfrom []
  induction l with
  | nil => exact fun before => rfl
  | cons a l ih =>
    intro before
    have hrest := ih (before ++ [a])
    have hlength : (before ++ [a]).length = before.length + 1 := length_append
    rw [append_assoc, singleton_append, hlength, map_append,
      reverse_append] at hrest
    have htake : (before ++ a :: l).take before.length = before := take_left' rfl
    have hdrop : (before ++ a :: l).drop (before.length + 1) = l := by
      rw [drop_append, drop_of_length_le (Nat.le_succ _), Nat.add_sub_cancel_left]
      rfl
    have hrecent : (before ++ a :: l).length ≤ before.length + limit ↔ l.length < limit := by
      rw [length_append, length_cons]
      omega
    rw [zipIdx_cons, filter_cons, retainFrom]
    simp only [htake, hdrop, hrecent, mem_reverse, decide_eq_true_eq]
    split
    · rw [map_cons]
      exact congrArg (a :: ·) hrest
    · exact hrest

theorem retainFrom_congr {seen seen' : List κ} (h : ∀ k, k ∈ seen ↔ k ∈ seen') (l : List α) :
    retainFrom limit key seen l = retainFrom limit key seen' l := by
  induction l generalizing seen seen' with
  | nil => rfl
  | cons a l ih =>
    have hnext : ∀ k, k ∈ key a :: seen ↔ k ∈ key a :: seen' := by
      intro k
      rw [mem_cons, mem_cons, h]
    simp only [retainFrom, ih hnext, h]

theorem retainFrom_of_length_le {seen : List κ} {l : List α} (h : l.length ≤ limit) :
    retainFrom limit key seen l = l := by
  induction l generalizing seen with
  | nil => rfl
  | cons a l ih =>
    rw [length_cons] at h
    rw [retainFrom, if_pos (.inl h), ih (Nat.le_of_succ_le h)]

theorem mem_map_retainFrom {seen : List κ} {l : List α} {k : κ} :
    k ∈ (retainFrom limit key seen l).map key ↔ k ∈ l.map key := by
  induction l generalizing seen with
  | nil => rfl
  | cons a l ih =>
    rw [retainFrom]
    split
    · rw [map_cons, mem_cons, ih, map_cons, mem_cons]
    · rename_i hdropped
      rw [not_or, not_or, not_not, not_not] at hdropped
      rw [ih, map_cons, mem_cons]
      refine (or_iff_right_of_imp ?_).symm
      rintro rfl
      exact hdropped.2.2

theorem le_length_retainFrom {seen : List κ} {l : List α} (h : limit ≤ l.length) :
    limit ≤ (retainFrom limit key seen l).length := by
  induction l generalizing seen with
  | nil => exact h
  | cons a l ih =>
    rw [length_cons] at h
    rw [retainFrom]
    rcases Nat.lt_or_ge l.length limit with hlt | hge
    · rw [if_pos (.inl hlt), retainFrom_of_length_le (Nat.le_of_lt hlt), length_cons]
      exact h
    · have hrest := @ih (key a :: seen) hge
      split
      · exact Nat.le_succ_of_le hrest
      · exact hrest

/-- Retention after one more element can start from what was retained before. -/
theorem retainFrom_retainFrom_concat (seen : List κ) (l : List α) (x : α) :
    retainFrom limit key seen (retainFrom limit key seen l ++ [x]) =
      retainFrom limit key seen (l ++ [x]) := by
  induction l generalizing seen with
  | nil => rfl
  | cons a l ih =>
    have hkeys : key a ∈ (retainFrom limit key (key a :: seen) l ++ [x]).map key ↔
        key a ∈ (l ++ [x]).map key := by
      rw [map_append, mem_append, mem_map_retainFrom, ← mem_append,
        ← map_append]
    rw [retainFrom]
    split
    · have hlength : (retainFrom limit key (key a :: seen) l ++ [x]).length < limit ↔
          (l ++ [x]).length < limit := by
        rw [length_append, length_append, length_singleton]
        rcases Nat.lt_or_ge l.length limit with hlt | hge
        · rw [retainFrom_of_length_le (Nat.le_of_lt hlt)]
        · have := @le_length_retainFrom _ _ _ _ key (key a :: seen) _ hge
          omega
      simp only [cons_append, retainFrom, hkeys, hlength, ih]
    · -- an element that is dropped is dropped again, and its group was seen before
      rename_i hdropped
      rw [not_or, not_or, not_not, not_not] at hdropped
      obtain ⟨hlong, hseen, hbehind⟩ := hdropped
      have hsame : ∀ k, k ∈ key a :: seen ↔ k ∈ seen := by
        intro k
        rw [mem_cons]
        refine or_iff_right_of_imp ?_
        rintro rfl
        exact hseen
      have hagain : ¬((l ++ [x]).length < limit ∨ key a ∉ seen ∨ key a ∉ (l ++ [x]).map key) := by
        rw [not_or, not_or, not_not, not_not, length_append, map_append]
        exact ⟨by omega, hseen, mem_append_left _ hbehind⟩
      rw [cons_append, retainFrom, if_neg hagain, ← ih, retainFrom_congr hsame]
      exact (retainFrom_congr hsame _).symm

/-- Retention after one more element can start from what was retained before. -/
theorem retain_retain_concat (l : List α) (x : α) :
    retentionRule limit key (retentionRule limit key l ++ [x]) =
      retentionRule limit key (l ++ [x]) := by
  rw [retentionRule_eq, retentionRule_eq, retentionRule_eq, retainFrom_retainFrom_concat]

/-- Retention of elements that stand for others. -/
theorem retentionRule_map {β : Type*} (f : β → α) (l : List β) :
    retentionRule limit key (l.map f) = (retentionRule limit (key ∘ f) l).map f := by
  rw [retentionRule_eq, retentionRule_eq]
  suffices hfrom : ∀ seen, retainFrom limit key seen (l.map f) =
      (retainFrom limit (key ∘ f) seen l).map f from hfrom []
  induction l with
  | nil => exact fun seen => rfl
  | cons b l ih =>
    intro seen
    simp only [map_cons, retainFrom, length_map, map_map, ih, Function.comp_apply]
    split
    · rfl
    · rfl

end OpenBitFun
