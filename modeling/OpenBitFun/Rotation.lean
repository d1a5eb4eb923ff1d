import Mathlib

/-!
# Going round a list

The elements of a list visited in a circle, a given number of them from a given position on. In a
list without repetition no element is visited more than one time more often than another.
-/

namespace OpenBitFun

open List

variable {α : Type*}

/-- The first `k` elements of the circle, from position `start` on. -/
def cyclic (l : List α) (start k : ℕ) : List α :=
  (List.range k).filterMap fun i => l[(start + i) % l.length]?

theorem cyclic_succ (l : List α) (start k : ℕ) :
    cyclic l start (k + 1) = cyclic l start k ++ (l[(start + k) % l.length]?).toList := by
  rw [cyclic, range_succ, filterMap_append, ← cyclic]
  cases h : l[(start + k) % l.length]? <;> simp [h]

/-- The places of the circle that are congruent to a position. -/
theorem getElem?_cyclic_iff [DecidableEq α] {l : List α} (hnodup : l.Nodup) {a : α} (ha : a ∈ l)
    (start i : ℕ) :
    l[(start + i) % l.length]? = some a ↔
      i ≡ l.idxOf a + (l.length - start % l.length) [MOD l.length] := by
  have hpos : 0 < l.length := length_pos_of_mem ha
  have hidx : l.idxOf a < l.length := idxOf_lt_length_of_mem ha
  have hshift : start + (l.idxOf a + (l.length - start % l.length)) ≡ l.idxOf a
      [MOD l.length] := by
    have hmod := Nat.mod_add_div start l.length
    have hlt := Nat.mod_lt start hpos
    have hsum : start + (l.idxOf a + (l.length - start % l.length)) =
        l.idxOf a + l.length * (start / l.length + 1) := by
      rw [Nat.mul_add, Nat.mul_one]
      omega
    rw [hsum, Nat.ModEq, Nat.add_mul_mod_self_left]
  have hget : l[(start + i) % l.length]? = some a ↔ (start + i) % l.length = l.idxOf a := by
    have hlt : (start + i) % l.length < l.length := Nat.mod_lt _ hpos
    rw [getElem?_eq_getElem hlt, Option.some_inj]
    refine ⟨fun h => ?_, fun h => ?_⟩
    · rw [← h, List.Nodup.idxOf_getElem hnodup]
    · simp only [h, getElem_idxOf]
  rw [hget]
  refine ⟨fun h => ?_, fun h => ?_⟩
  · have hsame : start + i ≡ start + (l.idxOf a + (l.length - start % l.length))
        [MOD l.length] := by
      refine Nat.ModEq.trans ?_ hshift.symm
      rw [Nat.ModEq, h, Nat.mod_eq_of_lt hidx]
    exact Nat.ModEq.add_left_cancel' start hsame
  · have hsame := (Nat.ModEq.add_left start h).trans hshift
    rwa [Nat.ModEq, Nat.mod_eq_of_lt hidx] at hsame

theorem count_cyclic [DecidableEq α] {l : List α} (hnodup : l.Nodup) {a : α} (ha : a ∈ l)
    (start k : ℕ) :
    (cyclic l start k).count a =
      k.count (· ≡ l.idxOf a + (l.length - start % l.length) [MOD l.length]) := by
  induction k with
  | zero => rfl
  | succ k ih =>
    rw [cyclic_succ, count_append, ih, Nat.count_succ]
    congr 1
    split
    · rename_i h
      rw [(getElem?_cyclic_iff hnodup ha start k).mpr h]
      simp
    · rename_i h
      rw [← getElem?_cyclic_iff hnodup ha] at h
      rw [count_eq_zero]
      intro hmem
      rw [Option.mem_toList] at hmem
      exact h hmem

/-- **Going round is fair**: two elements are visited equally often, up to one. -/
theorem count_cyclic_le [DecidableEq α] {l : List α} (hnodup : l.Nodup) {a b : α} (ha : a ∈ l)
    (hb : b ∈ l) (start k : ℕ) :
    (cyclic l start k).count a ≤ (cyclic l start k).count b + 1 := by
  have hpos : 0 < l.length := length_pos_of_mem ha
  rw [count_cyclic hnodup ha, count_cyclic hnodup hb, Nat.count_modEq_card _ hpos,
    Nat.count_modEq_card _ hpos]
  split <;> split <;> omega

end OpenBitFun
