import Mathlib

/-!
# Bounded loops

A `while` loop of a program that may fail in its body is `loop`: the body goes on with a new state,
stops with a result, or fails. The number of iterations is bounded by a fuel, and `none` says that
the fuel ran out. It does not where every iteration makes a measure smaller and the fuel exceeds
the measure (`loop_yields`).
-/

namespace OpenBitFun

universe u

variable {σ ε β : Type u}

/-- At most `fuel` iterations of `body` from a state. -/
def loop (body : σ → Except ε (σ ⊕ β)) : ℕ → σ → Option (Except ε β)
  | 0, _ => none
  | fuel + 1, s =>
    match body s with
    | .error e => some (.error e)
    | .ok (.inr b) => some (.ok b)
    | .ok (.inl s) => loop body fuel s

/-! ## Outcomes -/

/-- A computation fails with an error that satisfies `Q` or returns a value that satisfies `P`. -/
def Yields (Q : ε → Prop) (P : β → Prop) : Except ε β → Prop
  | .error e => Q e
  | .ok b => P b

section

variable {Q : ε → Prop} {P P' : β → Prop} {x : Except ε β}

theorem Yields.mono (h : Yields Q P x) (himp : ∀ b, P b → P' b) : Yields Q P' x := by
  cases x with
  | error e => exact h
  | ok b => exact himp b h

/-- The outcome of a sequence of two computations. -/
theorem Yields.bind {γ : Type u} {f : β → Except ε γ} {R : γ → Prop} (h : Yields Q P x)
    (hf : ∀ b, P b → Yields Q R (f b)) : Yields Q R (x >>= f) := by
  cases x with
  | error e => exact h
  | ok b => exact hf b h

end

/-! ## Loops that end -/

variable {body : σ → Except ε (σ ⊕ β)} {s : σ}

/-- What an iteration must do: keep the invariant and make the measure smaller, or stop well. -/
def Progress (inv : σ → Prop) (measure : σ → ℕ) (P : β → Prop) (s : σ) : σ ⊕ β → Prop
  | .inl s' => inv s' ∧ measure s' < measure s
  | .inr b => P b

/-- **Enough fuel**: a loop whose iterations keep an invariant and make a measure smaller ends
within its fuel, and ends well. -/
theorem loop_yields {Q : ε → Prop} {P : β → Prop} (inv : σ → Prop) (measure : σ → ℕ)
    (hbody : ∀ s, inv s → Yields Q (Progress inv measure P s) (body s)) {fuel : ℕ} (hs : inv s)
    (hfuel : measure s < fuel) : ∃ x, loop body fuel s = some x ∧ Yields Q P x := by
  induction fuel generalizing s with
  | zero => cases hfuel
  | succ fuel ih =>
    rw [loop]
    have hnext := hbody s hs
    cases h : body s with
    | error e =>
      rw [h] at hnext
      exact ⟨_, rfl, hnext⟩
    | ok next =>
      rw [h] at hnext
      cases next with
      | inr b => exact ⟨_, rfl, hnext⟩
      | inl s' =>
        obtain ⟨hinv, hlt⟩ := hnext
        exact ih hinv (by omega)

end OpenBitFun
