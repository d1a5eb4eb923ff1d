import Mathlib

/-!
# Globs

The language of a glob: a sequence of symbols, each of which is a letter, any one letter, or any
text at all. The language of a pattern is the product of the languages of its symbols, so a
pattern that is read from left to right extends the language at its right end. A matcher that
fills in one row of a table for each symbol needs three facts, one for each kind of symbol: which
prefixes of the input are in the product.
-/

namespace OpenBitFun

open List

namespace Glob

variable {α : Type*}

/-- One symbol of a pattern. -/
inductive Symbol (α : Type*) where
  /-- any text, the empty one too -/
  | anyText
  /-- any one letter -/
  | anyOne
  /-- a letter -/
  | letter (a : α)

/-- The texts a symbol stands for. -/
def Symbol.language : Symbol α → Language α
  | .anyText => ⊤
  | .anyOne => {s | ∃ a, s = [a]}
  | .letter a => {[a]}

/-- The texts that match a pattern. -/
def language (pattern : List (Symbol α)) : Language α := (pattern.map Symbol.language).prod

@[simp] theorem language_nil : language ([] : List (Symbol α)) = 1 := rfl

theorem language_append (p q : List (Symbol α)) : language (p ++ q) = language p * language q := by
  simp [language]

theorem language_singleton (x : Symbol α) : language [x] = x.language := by
  simp [language]

theorem language_concat (p : List (Symbol α)) (x : Symbol α) :
    language (p ++ [x]) = language p * x.language := by
  rw [language_append, language_singleton]

/-! ## Prefixes of the input -/

variable (L : Language α) (s : List α)

/-- The empty text is in a product with "any text" when it is in the language. -/
theorem nil_mem_mul_anyText : [] ∈ L * Symbol.anyText.language ↔ [] ∈ L := by
  rw [Language.mem_mul]
  refine ⟨?_, fun h => ⟨[], h, [], trivial, rfl⟩⟩
  rintro ⟨u, hu, v, -, huv⟩
  obtain ⟨rfl, -⟩ := append_eq_nil_iff.mp huv
  exact hu

/-- One more letter of the input: "any text" is over before it, or takes it in. -/
theorem concat_mem_mul_anyText (a : α) :
    s ++ [a] ∈ L * Symbol.anyText.language ↔
      s ++ [a] ∈ L ∨ s ∈ L * Symbol.anyText.language := by
  rw [Language.mem_mul, Language.mem_mul]
  refine ⟨?_, ?_⟩
  · rintro ⟨u, hu, v, -, huv⟩
    rcases eq_nil_or_concat v with rfl | ⟨v, b, rfl⟩
    · rw [append_nil] at huv
      exact .inl (huv ▸ hu)
    · rw [concat_eq_append, ← append_assoc] at huv
      exact .inr ⟨u, hu, v, trivial, (append_inj' huv rfl).1⟩
  · rintro (h | ⟨u, hu, v, -, rfl⟩)
    · exact ⟨s ++ [a], h, [], trivial, append_nil _⟩
    · exact ⟨u, hu, v ++ [a], trivial, (append_assoc u v [a]).symm⟩

/-- No text ends in a letter that is not there. -/
theorem nil_notMem_mul {M : Language α} (hM : [] ∉ M) : [] ∉ L * M := by
  rintro ⟨u, -, v, hv, huv⟩
  obtain ⟨-, rfl⟩ := append_eq_nil_iff.mp huv
  exact hM hv

theorem concat_mem_mul_anyOne (a : α) :
    s ++ [a] ∈ L * Symbol.anyOne.language ↔ s ∈ L := by
  rw [Language.mem_mul]
  refine ⟨?_, fun h => ⟨s, h, [a], ⟨a, rfl⟩, rfl⟩⟩
  rintro ⟨u, hu, v, ⟨b, rfl⟩, huv⟩
  exact (append_inj' huv rfl).1 ▸ hu

theorem concat_mem_mul_letter (a b : α) :
    s ++ [a] ∈ L * (Symbol.letter b).language ↔ s ∈ L ∧ b = a := by
  rw [Language.mem_mul]
  refine ⟨?_, ?_⟩
  · rintro ⟨u, hu, v, rfl, huv⟩
    obtain ⟨rfl, hb⟩ := append_inj' huv rfl
    exact ⟨hu, by simpa using hb⟩
  · rintro ⟨h, rfl⟩
    exact ⟨s, h, [b], rfl, rfl⟩

end Glob

end OpenBitFun
