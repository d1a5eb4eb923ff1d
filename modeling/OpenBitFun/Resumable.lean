import Mathlib

/-!
# Resumable reads

A future that reads from a stream runs until it needs more, and may be dropped while it waits. What
it has put into its state by then stays there. A process is the tree of its reads, and a run of it
is one choice of what each read brings, up to the end or up to where it is dropped.
-/

namespace OpenBitFun

universe u v w

/-- A process with a state, over a stream of items. -/
inductive Resumable (σ : Type u) (β : Type v) (α : Type w) where
  /-- It returns. -/
  | done (s : σ) (a : α)
  /-- It waits for some items, but not for more than `limit`; no items are the end of the stream. -/
  | read (s : σ) (limit : ℕ) (next : List β → Resumable σ β α)

namespace Resumable

variable {σ : Type u} {β : Type v} {α γ : Type w}

/-- One process after another. -/
def bind : Resumable σ β α → (σ → α → Resumable σ β γ) → Resumable σ β γ
  | done s a, f => f s a
  | read s limit next, f => read s limit fun items => (next items).bind f

/-- A run of a process over a stream: what it returns, unless it is dropped, with the state and the
rest of the stream. -/
inductive Exec : Resumable σ β α → List β → Option α → σ → List β → Prop
  | done (s : σ) (a : α) (stream : List β) : Exec (.done s a) stream (some a) s stream
  | drop (s : σ) (limit : ℕ) (next : List β → Resumable σ β α) (stream : List β) :
    Exec (.read s limit next) stream none s stream
  | read {s s' : σ} {limit : ℕ} {next : List β → Resumable σ β α} {items stream rest : List β}
    {result : Option α} : items ≠ [] → items.length ≤ limit →
      Exec (next items) stream result s' rest →
        Exec (.read s limit next) (items ++ stream) result s' rest
  | finish {s s' : σ} {limit : ℕ} {next : List β → Resumable σ β α} {rest : List β}
    {result : Option α} : Exec (next []) [] result s' rest →
      Exec (.read s limit next) [] result s' rest

/-- A run of two processes is dropped in the first, or is a run of each. -/
theorem exec_bind {x : Resumable σ β α} {f : σ → α → Resumable σ β γ} {stream rest : List β}
    {result : Option γ} {s' : σ} (h : Exec (x.bind f) stream result s' rest) :
    (Exec x stream none s' rest ∧ result = none) ∨
      ∃ s a middle, Exec x stream (some a) s middle ∧ Exec (f s a) middle result s' rest := by
  induction x generalizing stream with
  | done s a => exact .inr ⟨s, a, stream, .done s a stream, h⟩
  | read s limit next ih =>
    rw [bind] at h
    cases h with
    | drop => exact .inl ⟨.drop _ _ _ _, rfl⟩
    | read hne hle hnext =>
      rcases ih _ hnext with ⟨hdropped, hresult⟩ | ⟨s1, a, middle, hfirst, hsecond⟩
      · exact .inl ⟨.read hne hle hdropped, hresult⟩
      · exact .inr ⟨s1, a, middle, .read hne hle hfirst, hsecond⟩
    | finish hnext =>
      rcases ih _ hnext with ⟨hdropped, hresult⟩ | ⟨s1, a, middle, hfirst, hsecond⟩
      · exact .inl ⟨.finish hdropped, hresult⟩
      · exact .inr ⟨s1, a, middle, .finish hfirst, hsecond⟩

theorem exec_done {s s' : σ} {a : α} {stream rest : List β} {result : Option α}
    (h : Exec (.done s a) stream result s' rest) :
    result = some a ∧ s' = s ∧ rest = stream := by
  cases h
  exact ⟨rfl, rfl, rfl⟩

end Resumable

end OpenBitFun
