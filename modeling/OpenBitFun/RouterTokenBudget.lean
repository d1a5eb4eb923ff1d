import OpenBitFun.RouterProjection
import OpenBitFun.Saturating

/-!
# The Router's estimate of tokens

Where no tokenizer is installed the Router estimates: three ASCII characters are a token, any other
character is two. The estimate is rounded up and saturates, so it is not additive, but it is
sub-additive: text that is put into a text costs at most its own estimate (`estimate_insert`).
-/

namespace OpenBitFun

namespace Router

/-- `usize::MAX`. -/
def usizeMax : ℕ := 2 ^ 64 - 1

/-- `char::is_ascii`. -/
def isAscii (c : Char) : Bool := c.toNat < 128

/-- The estimate of `EstimatedRouterTokens`: a third of the ASCII characters, rounded up, and twice
the others. -/
def estimate (text : List Char) : ℕ :=
  let ascii := text.countP isAscii
  let other := text.countP fun c => !isAscii c
  Saturating.add usizeMax ((ascii + 2) / 3) (Saturating.mul usizeMax other 2)

/-- `EstimatedRouterTokens`. -/
def EstimatedRouterTokens : RouterTokenCounter where
  count text := estimate text.toList
  name := "estimated_tokens"
  cachedProjection _ _ := none

theorem estimate_le_usizeMax (text : List Char) : estimate text ≤ usizeMax := Saturating.add_le

/-- The estimate, without the saturation in between. -/
theorem estimate_eq (text : List Char) :
    estimate text = min ((text.countP isAscii + 2) / 3 + text.countP (!isAscii ·) * 2)
      usizeMax :=
  Saturating.add_min

/-- A text put into another costs at most its own estimate. -/
theorem estimate_insert (before text after : List Char) :
    estimate (before ++ text ++ after) ≤
      Saturating.add usizeMax (estimate (before ++ after)) (estimate text) := by
  apply Saturating.le_add (estimate_le_usizeMax _)
  simp only [estimate_eq, List.countP_append]
  omega

/-- A text of ASCII characters may be replaced by a longer one. -/
theorem estimate_replace_le {text text' : List Char} (hascii : text.all isAscii)
    (hascii' : text'.all isAscii) (hlength : text.length ≤ text'.length)
    (before after : List Char) :
    estimate (before ++ text ++ after) ≤ estimate (before ++ text' ++ after) := by
  have hcount : ∀ {t : List Char}, t.all isAscii →
      t.countP isAscii = t.length ∧ t.countP (!isAscii ·) = 0 := by
    intro t ht
    rw [List.all_eq_true] at ht
    refine ⟨List.countP_eq_length.2 ht, List.countP_eq_zero.2 fun c hc => ?_⟩
    rw [ht c hc]
    decide
  obtain ⟨h, hnone⟩ := hcount hascii
  obtain ⟨h', hnone'⟩ := hcount hascii'
  simp only [estimate_eq, List.countP_append, h, hnone, h', hnone']
  omega

/-- A number may be replaced by a larger one. -/
theorem estimate_toString_le {n m : ℕ} (h : n ≤ m) (before after : List Char) :
    estimate (before ++ (toString n).toList ++ after) ≤
      estimate (before ++ (toString m).toList ++ after) := by
  have hdigits : ∀ k : ℕ, (toString k).toList = Nat.toDigits 10 k := by
    intro k
    rw [Nat.toString_eq_ofList_toDigits, String.toList_ofList]
  have hascii : ∀ k : ℕ, ((toString k).toList).all isAscii := by
    intro k
    rw [hdigits, List.all_eq_true]
    intro c hc
    have hdigit := Nat.isDigit_of_mem_toDigits (by decide) (by decide) hc
    rw [Char.isDigit, Bool.and_eq_true, decide_eq_true_eq, decide_eq_true_eq] at hdigit
    exact decide_eq_true (Nat.lt_of_le_of_lt (UInt32.le_iff_toNat_le.1 hdigit.2) (by decide))
  apply estimate_replace_le (hascii n) (hascii m)
  rw [hdigits, hdigits, Nat.length_toDigits_le_iff (by decide) Nat.length_toDigits_pos]
  exact Nat.lt_of_le_of_lt h
    ((Nat.length_toDigits_le_iff (by decide) Nat.length_toDigits_pos).1 (Nat.le_refl _))

/-- A single ASCII character is at most one token. -/
theorem estimate_singleton {c : Char} (h : isAscii c) : estimate [c] = 1 := by
  rw [estimate_eq, List.countP_singleton, List.countP_singleton, h]
  decide

end Router

end OpenBitFun
