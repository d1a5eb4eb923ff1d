import Mathlib

/-!
# Runs of labelled transition relations

A component whose operations arrive in any order is a transition relation `R s a t` between its
states, labelled by what happened (the operation and its answer). `Run R s tr t` is a finite run
from `s` to `t` with the labels `tr` in order. Everything proved about runs elsewhere goes through
the rules of this file: an invariant of every step is an invariant of every run
(`Run.invariant`), also when it talks about the labels seen so far (`Run.history`), runs compose
(`Run.trans`) and can be cut anywhere (`Run.split`).
-/

namespace OpenBitFun

universe u v

variable {σ : Type u} {α : Type v} {R R' : σ → α → σ → Prop} {s t : σ} {a : α} {tr tr' : List α}

/-- A run of the labelled transition relation `R`: the states in between are forgotten, the labels
are kept in order. -/
inductive Run (R : σ → α → σ → Prop) (s : σ) : List α → σ → Prop
  /-- The empty run. -/
  | refl : Run R s [] s
  /-- A run followed by one more step. -/
  | step {tr : List α} {t : σ} {a : α} {t' : σ} :
      Run R s tr t → R t a t' → Run R s (tr ++ [a]) t'

theorem Run.single (h : R s a t) : Run R s [a] t := by
  rw [← List.nil_append [a]]
  exact Run.refl.step h

theorem Run.trans {t' : σ} (h : Run R s tr t) (h' : Run R t tr' t') : Run R s (tr ++ tr') t' := by
  induction h' with
  | refl => simpa using h
  | step _ hstep ih =>
    rw [← List.append_assoc]
    exact ih.step hstep

theorem Run.cons {m : σ} (hstep : R s a m) (h : Run R m tr t) : Run R s (a :: tr) t := by
  simpa using (Run.single hstep).trans h

@[simp] theorem run_nil : Run R s [] t ↔ s = t := by
  constructor
  · intro h
    generalize hn : ([] : List α) = tr at h
    cases h with
    | refl => rfl
    | step _ _ => simp at hn
  · rintro rfl
    exact Run.refl

theorem run_concat : Run R s (tr ++ [a]) t ↔ ∃ m, Run R s tr m ∧ R m a t := by
  constructor
  · intro h
    generalize hn : tr ++ [a] = tr' at h
    cases h with
    | refl => simp at hn
    | step h hstep =>
      obtain ⟨rfl, ha⟩ := List.append_inj' hn rfl
      cases ha
      exact ⟨_, h, hstep⟩
  · rintro ⟨m, h, hstep⟩
    exact h.step hstep

/-- **Cutting a run**: a run over `tr ++ tr'` passes through a state after `tr`. -/
theorem Run.split (h : Run R s (tr ++ tr') t) : ∃ m, Run R s tr m ∧ Run R m tr' t := by
  induction tr' using List.reverseRecOn generalizing t with
  | nil => exact ⟨t, by simpa using h, Run.refl⟩
  | append_singleton tr' a ih =>
    rw [← List.append_assoc, run_concat] at h
    obtain ⟨m, h, hstep⟩ := h
    obtain ⟨m', h₁, h₂⟩ := ih h
    exact ⟨m', h₁, h₂.step hstep⟩

theorem run_cons : Run R s (a :: tr) t ↔ ∃ m, R s a m ∧ Run R m tr t := by
  constructor
  · intro h
    obtain ⟨m, h₁, h₂⟩ := Run.split (show Run R s ([a] ++ tr) t from h)
    obtain ⟨s', hs, hstep⟩ := run_concat.1 (by simpa using h₁ : Run R s ([] ++ [a]) m)
    rw [run_nil] at hs
    subst hs
    exact ⟨m, hstep, h₂⟩
  · rintro ⟨m, hstep, h⟩
    exact h.cons hstep

/-- **The invariant rule**: what holds at the start and is kept by every step holds at the end of
every run. -/
theorem Run.invariant {P : σ → Prop} (h : Run R s tr t) (hinit : P s)
    (hstep : ∀ s a t, P s → R s a t → P t) : P t := by
  induction h with
  | refl => exact hinit
  | step _ hs ih => exact hstep _ _ _ ih hs

/-- **The history rule**: an invariant that relates the state to the labels seen so far. -/
theorem Run.history {P : List α → σ → Prop} (h : Run R s tr t) (hinit : P [] s)
    (hstep : ∀ tr s a t, P tr s → R s a t → P (tr ++ [a]) t) : P tr t := by
  induction h with
  | refl => exact hinit
  | step _ hs ih => exact hstep _ _ _ _ ih hs

end OpenBitFun
