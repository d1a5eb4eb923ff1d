import Mathlib
import OpenBitFun.AssocMap

/-!
# Definitions by rules, and their memoised evaluation

Some keys have a value, others a rule, which computes the value and asks for the values of other
keys on its way. Plainly such a value is found by recursion (`plain`). The memoised evaluation
(`Table.cell`) walks over the keys with a table of what was found, marks the keys that are in work,
and cuts off what is nested too deeply. What it finds is right (`Sound.walk`); and it finds every
value that is nested within the limit exactly when no such value is cut off on the way
(`holds_iff_cuts`).
-/

namespace OpenBitFun

open List

universe u v w x

/-- A computation that asks for the values of keys, and may give up. -/
inductive Asking (κ : Type u) (V : Type v) (α : Type w)
  /-- It ends with a result. -/
  | done (a : α)
  /-- It ends without a result. -/
  | giveUp
  /-- It asks for the value of a key and goes on with it. -/
  | ask (k : κ) (next : V → Asking κ V α)

namespace Asking

variable {κ : Type u} {V : Type v} {α : Type w} {β : Type w} {σ : Type x}

/-- One computation after the other. -/
protected def bind : Asking κ V α → (α → Asking κ V β) → Asking κ V β
  | done a, f => f a
  | giveUp, _ => giveUp
  | ask k next, f => ask k fun v => (next v).bind f

instance : Monad (Asking κ V) where
  pure := done
  bind := Asking.bind

/-- The computation with the answers of a function. -/
def run (answer : κ → Option V) : Asking κ V α → Option α
  | done a => some a
  | giveUp => none
  | ask k next => (answer k).bind fun v => (next v).run answer

/-- The computation with the answers of something that has a state; a missing answer ends it. -/
def exec (answer : κ → σ → Option V × σ) : Asking κ V α → σ → Option α × σ
  | done a, s => (some a, s)
  | giveUp, s => (none, s)
  | ask k next, s =>
    match answer k s with
    | (none, s) => (none, s)
    | (some v, s) => (next v).exec answer s

/-- What is noted on the way of `exec`, one answer after the other. -/
def notes (answer : κ → σ → Option V × σ) (note : κ → σ → List κ) : Asking κ V α → σ → List κ
  | done _, _ => []
  | giveUp, _ => []
  | ask k next, s =>
    note k s ++
      match answer k s with
      | (none, _) => []
      | (some v, s) => (next v).notes answer note s

variable {answer : κ → σ → Option V × σ} {note : κ → σ → List κ} {s : σ}

theorem run_mono {f g : κ → Option V} (hfg : ∀ k v, f k = some v → g k = some v)
    (p : Asking κ V α) {a : α} (h : p.run f = some a) : p.run g = some a := by
  induction p with
  | done => exact h
  | giveUp => exact h
  | ask k next ih =>
    obtain ⟨v, hv, hnext⟩ := Option.bind_eq_some_iff.mp h
    exact Option.bind_eq_some_iff.mpr ⟨v, hfg k v hv, ih v hnext⟩

theorem exec_invariant {I : σ → Prop} (hanswer : ∀ k s, I s → I (answer k s).2)
    (p : Asking κ V α) (h : I s) : I (p.exec answer s).2 := by
  induction p generalizing s with
  | done => exact h
  | giveUp => exact h
  | ask k next ih =>
    have hk := hanswer k s h
    rw [exec]
    cases hs : answer k s with
    | mk result s' =>
      rw [hs] at hk
      cases result with
      | none => exact hk
      | some v => exact ih v hk

end Asking

/-! ## Rules -/

section Plain

variable {κ : Type u} {V : Type v} (rule : κ → V ⊕ Asking κ V V)

/-- The plain value of a key, through at most so many rules nested in each other. -/
def plain : ℕ → κ → Option V
  | 0, k => (rule k).elim some fun _ => none
  | depth + 1, k => (rule k).elim some fun body => body.run (plain depth)

variable {rule} {k : κ} {v v' : V} {body : Asking κ V V} {depth depth' : ℕ}

theorem plain_value (h : rule k = .inl v) (depth : ℕ) : plain rule depth k = some v := by
  cases depth <;> simp [plain, h]

theorem plain_zero (h : rule k = .inr body) : plain rule 0 k = none := by
  simp [plain, h]

theorem plain_succ (h : rule k = .inr body) :
    plain rule (depth + 1) k = body.run (plain rule depth) := by
  simp [plain, h]

theorem plain_mono_succ : ∀ {depth : ℕ} {k : κ} {v : V}, plain rule depth k = some v →
    plain rule (depth + 1) k = some v := by
  intro depth
  induction depth with
  | zero =>
    intro k v h
    cases hrule : rule k with
    | inl w => rwa [plain_value hrule] at h ⊢
    | inr body => rw [plain_zero hrule] at h; cases h
  | succ depth ih =>
    intro k v h
    cases hrule : rule k with
    | inl w => rwa [plain_value hrule] at h ⊢
    | inr body =>
      rw [plain_succ hrule] at h ⊢
      exact Asking.run_mono (fun _ _ => ih) body h

/-- A value that is found is found with more depth too. -/
theorem plain_mono (h : plain rule depth k = some v) (hle : depth ≤ depth') :
    plain rule depth' k = some v := by
  induction hle with
  | refl => exact h
  | step _ ih => exact plain_mono_succ ih

/-- What is not found is not found with less depth. -/
theorem plain_eq_none_of_le (h : plain rule depth' k = none) (hle : depth ≤ depth') :
    plain rule depth k = none := by
  cases hk : plain rule depth k with
  | none => rfl
  | some v =>
    rw [plain_mono hk hle] at h
    cases h

/-- A key has one value, whatever the depth. -/
theorem plain_unique (h : plain rule depth k = some v) (h' : plain rule depth' k = some v') :
    v = v' := by
  have hmax := plain_mono h (Nat.le_max_left depth depth')
  rw [plain_mono h' (Nat.le_max_right depth depth')] at hmax
  exact (Option.some.inj hmax).symm

/-- The rules that a value needs are counted exactly at its least depth. -/
theorem exists_least_depth (hrule : rule k = .inr body) (h : plain rule depth k = some v) :
    ∃ n, n < depth ∧ plain rule n k = none ∧ body.run (plain rule n) = some v := by
  induction depth with
  | zero => rw [plain_zero hrule] at h; cases h
  | succ n ih =>
    cases hn : plain rule n k with
    | none => exact ⟨n, Nat.lt_succ_self n, hn, by rwa [plain_succ hrule] at h⟩
    | some w =>
      obtain ⟨m, hm, hnone, hrun⟩ := ih (by rw [hn, plain_unique hn h])
      exact ⟨m, Nat.lt_succ_of_lt hm, hnone, hrun⟩

end Plain

/-! ## The table -/

/-- What the memoised evaluation knows: the keys that were worked out, with their value or without
one, and the keys that are in work. -/
structure Table (κ : Type u) (V : Type v) [DecidableEq κ] where
  memo : AssocMap κ (Option V)
  visiting : Finset κ

namespace Table

variable {κ : Type u} {V : Type v} [DecidableEq κ] (rule : κ → V ⊕ Asking κ V V)

/-- Nothing is known. -/
def empty : Table κ V := ⟨∅, ∅⟩

/-- The key is in work. -/
def visit (self : Table κ V) (k : κ) : Table κ V := { self with visiting := insert k self.visiting }

/-- The key is worked out. -/
def finish (self : Table κ V) (k : κ) (result : Option V) : Table κ V :=
  ⟨self.memo.insert k result, self.visiting.erase k⟩

/-- The value of a key, with so many levels of rules left. A key whose rule has no level left is
marked as being in work, and stays so. -/
def cell : (left : ℕ) → κ → Table κ V → Option V × Table κ V
  | left, k, self =>
    match rule k with
    | .inl v => (some v, self)
    | .inr body =>
      match self.memo.lookup k with
      | some known => (known, self)
      | none =>
        if k ∈ self.visiting then (none, self)
        else
          match left with
          | 0 => (none, self.visit k)
          | left + 1 =>
            let answer := body.exec (cell left) (self.visit k)
            (answer.1, answer.2.finish k answer.1)

/-- The keys that `cell` cuts off because no level is left. -/
def cuts : (left : ℕ) → κ → Table κ V → List κ
  | left, k, self =>
    match rule k with
    | .inl _ => []
    | .inr body =>
      match self.memo.lookup k with
      | some _ => []
      | none =>
        if k ∈ self.visiting then []
        else
          match left with
          | 0 => [k]
          | left + 1 => body.notes (cell rule left) (cuts left) (self.visit k)

/-- The keys are worked out one after the other. -/
def walk (limit : ℕ) : List κ → Table κ V → Table κ V
  | [], self => self
  | k :: keys, self => walk limit keys (self.cell rule (limit + 1) k).2

/-- The keys that are cut off on the walk. -/
def walkCuts (limit : ℕ) : List κ → Table κ V → List κ
  | [], _ => []
  | k :: keys, self =>
    self.cuts rule (limit + 1) k ++ walkCuts limit keys (self.cell rule (limit + 1) k).2

/-- What can happen when a key is asked for: its answer, the table afterwards and what is cut
off. -/
inductive Outcome : ℕ → κ → Table κ V → Option V × Table κ V → List κ → Prop
  /-- The key has a value of its own. -/
  | value {left k t v} : rule k = .inl v → Outcome left k t (some v, t) []
  /-- The key was worked out before. -/
  | known {left k t body known} : rule k = .inr body → t.memo.lookup k = some known →
      Outcome left k t (known, t) []
  /-- The key is in work. -/
  | visiting {left k t body} : rule k = .inr body → t.memo.lookup k = none → k ∈ t.visiting →
      Outcome left k t (none, t) []
  /-- No level is left. -/
  | cut {k t body} : rule k = .inr body → t.memo.lookup k = none → k ∉ t.visiting →
      Outcome 0 k t (none, t.visit k) [k]
  /-- The key is worked out now. -/
  | work {left k t body} : rule k = .inr body → t.memo.lookup k = none → k ∉ t.visiting →
      Outcome (left + 1) k t
        ((body.exec (cell rule left) (t.visit k)).1,
          (body.exec (cell rule left) (t.visit k)).2.finish k
            (body.exec (cell rule left) (t.visit k)).1)
        (body.notes (cell rule left) (cuts rule left) (t.visit k))

variable {rule} {k j : κ} {t : Table κ V} {left limit : ℕ} {v : V} {body : Asking κ V V}

theorem outcome (rule : κ → V ⊕ Asking κ V V) (left : ℕ) (k : κ) (t : Table κ V) :
    Outcome rule left k t (t.cell rule left k) (t.cuts rule left k) := by
  cases left with
  | zero =>
    rw [cell, cuts]
    cases hrule : rule k with
    | inl v => exact .value hrule
    | inr body =>
      cases hmemo : t.memo.lookup k with
      | some known => exact .known hrule hmemo
      | none =>
        by_cases hvisiting : k ∈ t.visiting
        · simp only [if_pos hvisiting]
          exact .visiting hrule hmemo hvisiting
        · simp only [if_neg hvisiting]
          exact .cut hrule hmemo hvisiting
  | succ left =>
    rw [cell, cuts]
    cases hrule : rule k with
    | inl v => exact .value hrule
    | inr body =>
      cases hmemo : t.memo.lookup k with
      | some known => exact .known hrule hmemo
      | none =>
        by_cases hvisiting : k ∈ t.visiting
        · simp only [if_pos hvisiting]
          exact .visiting hrule hmemo hvisiting
        · simp only [if_neg hvisiting]
          exact .work hrule hmemo hvisiting

theorem mem_visit : j ∈ (t.visit k).visiting ↔ j = k ∨ j ∈ t.visiting := Finset.mem_insert

theorem lookup_finish (result : Option V) : (t.finish k result).memo.lookup j =
    if j = k then some result else t.memo.lookup j :=
  AssocMap.lookup_insert _ _ _ _

theorem mem_finish (result : Option V) :
    j ∈ (t.finish k result).visiting ↔ j ≠ k ∧ j ∈ t.visiting := Finset.mem_erase

/-! ## What a call leaves alone -/

/-- **The rule for calls**: a property of tables that no answer, no cut and no key that is worked
out breaks is kept by every call. -/
theorem cell_invariant {I : Table κ V → Prop}
    (hvisit : ∀ k t, t.memo.lookup k = none → k ∉ t.visiting → I t → I (t.visit k))
    (hfinish : ∀ k t t' result, k ∉ t.visiting → t.memo.lookup k = none → I t → I t' →
      I (t'.finish k result)) (left : ℕ) (k : κ) (t : Table κ V) (h : I t) :
    I (t.cell rule left k).2 := by
  induction left generalizing k t with
  | zero =>
    have hcase := outcome rule 0 k t
    generalize t.cell rule 0 k = answer, t.cuts rule 0 k = found at hcase ⊢
    cases hcase with
    | value => exact h
    | known => exact h
    | visiting => exact h
    | cut _ hmemo hvisiting => exact hvisit k t hmemo hvisiting h
  | succ left ih =>
    have hcase := outcome rule (left + 1) k t
    generalize t.cell rule (left + 1) k = answer, t.cuts rule (left + 1) k = found at hcase ⊢
    cases hcase with
    | value => exact h
    | known => exact h
    | visiting => exact h
    | @work _ _ _ body _ hmemo hvisiting =>
      have hbody := body.exec_invariant ih (hvisit k t hmemo hvisiting h)
      exact hfinish k t _ _ hvisiting hmemo h hbody

theorem lookup_cell {known : Option V} (h : t.memo.lookup j = some known) :
    (t.cell rule left k).2.memo.lookup j = some known := by
  refine cell_invariant (I := fun t => t.memo.lookup j = some known) (fun _ _ _ _ h => h)
    (fun k t t' result _ hmemo h h' => ?_) left k t h
  have hne : j ≠ k := by
    rintro rfl
    rw [hmemo] at h
    cases h
  rw [lookup_finish, if_neg hne]
  exact h'

theorem mem_visiting_cell (h : j ∈ t.visiting) : j ∈ (t.cell rule left k).2.visiting := by
  refine cell_invariant (I := fun t => j ∈ t.visiting) (fun k t _ _ h => mem_visit.mpr (.inr h))
    (fun k t t' result hvisiting _ h h' => ?_) left k t h
  refine (mem_finish result).mpr ⟨?_, h'⟩
  rintro rfl
  exact hvisiting h

variable (rule) in
/-- A key with a rule that is in work and not worked out. -/
def Stuck (j : κ) (t : Table κ V) : Prop :=
  (∃ body, rule j = .inr body) ∧ j ∈ t.visiting ∧ t.memo.lookup j = none

/-- A call does not work out a key that is in work already. -/
theorem Stuck.cell (h : Stuck rule j t) : Stuck rule j (t.cell rule left k).2 := by
  refine cell_invariant (I := Stuck rule j)
    (fun k t _ _ h => ⟨h.1, mem_visit.mpr (.inr h.2.1), h.2.2⟩)
    (fun k t t' result hvisiting _ h h' => ?_) left k t h
  have hne : j ≠ k := by
    rintro rfl
    exact hvisiting h.2.1
  refine ⟨h.1, (mem_finish result).mpr ⟨hne, h'.2.1⟩, ?_⟩
  rw [lookup_finish, if_neg hne]
  exact h'.2.2

/-- What is cut off in a computation is stuck after it. -/
theorem stuck_of_mem_notes
    (ih : ∀ {k : κ} {t : Table κ V}, j ∈ t.cuts rule left k →
      j ∉ t.visiting ∧ Stuck rule j (t.cell rule left k).2) {p : Asking κ V V}
    (h : j ∈ p.notes (Table.cell rule left) (cuts rule left) t) :
    j ∉ t.visiting ∧ Stuck rule j (p.exec (Table.cell rule left) t).2 := by
  induction p generalizing t with
  | done => cases h
  | giveUp => cases h
  | ask k next ihp =>
    rw [Asking.notes] at h
    rw [Asking.exec]
    obtain hk | hnext := mem_append.mp h
    · -- It is cut off while `k` is worked out, and the rest leaves it alone.
      obtain ⟨hj, hstuck⟩ := ih hk
      refine ⟨hj, ?_⟩
      cases hanswer : t.cell rule left k with
      | mk result t' =>
        rw [hanswer] at hstuck
        cases result with
        | none => exact hstuck
        | some v => exact (next v).exec_invariant (fun _ _ hs => hs.cell) hstuck
    · cases hanswer : t.cell rule left k with
      | mk result t' =>
        rw [hanswer] at hnext
        cases result with
        | none => cases hnext
        | some v =>
          obtain ⟨hj, hstuck⟩ := ihp v hnext
          refine ⟨fun hmem => hj ?_, hstuck⟩
          have hkeep : j ∈ (t.cell rule left k).2.visiting := mem_visiting_cell hmem
          rwa [hanswer] at hkeep

/-- **A key that is cut off is stuck** after the call: it stays marked as being in work. -/
theorem stuck_of_mem_cuts (h : j ∈ t.cuts rule left k) :
    j ∉ t.visiting ∧ Stuck rule j (t.cell rule left k).2 := by
  induction left generalizing k t with
  | zero =>
    have hcase := outcome rule 0 k t
    generalize t.cell rule 0 k = answer at hcase ⊢
    generalize t.cuts rule 0 k = found at hcase h
    cases hcase with
    | value => cases h
    | known => cases h
    | visiting => cases h
    | cut hrule hmemo hvisiting =>
      obtain rfl := mem_singleton.mp h
      exact ⟨hvisiting, ⟨_, hrule⟩, mem_visit.mpr (.inl rfl), hmemo⟩
  | succ left ih =>
    have hcase := outcome rule (left + 1) k t
    generalize t.cell rule (left + 1) k = answer at hcase ⊢
    generalize t.cuts rule (left + 1) k = found at hcase h
    cases hcase with
    | value => cases h
    | known => cases h
    | visiting => cases h
    | @work _ _ _ body _ hmemo hvisiting =>
      obtain ⟨hj, hrule, hmem, hnone⟩ := stuck_of_mem_notes ih h
      rw [mem_visit, not_or] at hj
      refine ⟨hj.2, hrule, (mem_finish _).mpr ⟨hj.1, hmem⟩, ?_⟩
      rw [lookup_finish, if_neg hj.1]
      exact hnone

/-- In work after a computation is what was in work before and what it cut off. -/
theorem mem_visiting_or_notes
    (ih : ∀ {k : κ} {t : Table κ V}, j ∈ (t.cell rule left k).2.visiting →
      j ∈ t.visiting ∨ j ∈ t.cuts rule left k) {p : Asking κ V V}
    (h : j ∈ (p.exec (Table.cell rule left) t).2.visiting) :
    j ∈ t.visiting ∨ j ∈ p.notes (Table.cell rule left) (cuts rule left) t := by
  induction p generalizing t with
  | done => exact .inl h
  | giveUp => exact .inl h
  | ask k next ihp =>
    rw [Asking.exec] at h
    rw [Asking.notes, mem_append]
    cases hanswer : t.cell rule left k with
    | mk result t' =>
      have hk : j ∈ t'.visiting → j ∈ t.visiting ∨ j ∈ t.cuts rule left k := by
        intro hj
        refine ih ?_
        rwa [hanswer]
      rw [hanswer] at h
      cases result with
      | none => exact (hk h).imp_right .inl
      | some v =>
        obtain hj | hnext := ihp v h
        · exact (hk hj).imp_right .inl
        · exact .inr (.inr hnext)

/-- In work after a call is what was in work before and what the call cut off. -/
theorem mem_visiting_or_cuts (h : j ∈ (t.cell rule left k).2.visiting) :
    j ∈ t.visiting ∨ j ∈ t.cuts rule left k := by
  induction left generalizing k t with
  | zero =>
    have hcase := outcome rule 0 k t
    generalize t.cell rule 0 k = answer, t.cuts rule 0 k = found at hcase h ⊢
    cases hcase with
    | value => exact .inl h
    | known => exact .inl h
    | visiting => exact .inl h
    | cut =>
      obtain rfl | hj := mem_visit.mp h
      · exact .inr mem_cons_self
      · exact .inl hj
  | succ left ih =>
    have hcase := outcome rule (left + 1) k t
    generalize t.cell rule (left + 1) k = answer, t.cuts rule (left + 1) k = found at hcase h ⊢
    cases hcase with
    | value => exact .inl h
    | known => exact .inl h
    | visiting => exact .inl h
    | @work _ _ _ body =>
      obtain ⟨hne, hmem⟩ := (mem_finish _).mp h
      obtain hvisit | hcut := mem_visiting_or_notes ih hmem
      · exact .inl ((mem_visit.mp hvisit).resolve_left hne)
      · exact .inr hcut

/-! ## What is found is right -/

variable (rule) in
/-- Every value in the table is the plain value of its key. -/
def Sound (t : Table κ V) : Prop :=
  ∀ k v, t.memo.lookup k = some (some v) → ∃ depth, plain rule depth k = some v

theorem sound_empty : Sound rule (empty : Table κ V) := by
  intro k v h
  cases h

/-- A computation with sound answers gives plain results. -/
theorem Sound.exec
    (ih : ∀ {k : κ} {t : Table κ V}, Sound rule t → Sound rule (t.cell rule left k).2 ∧
      ∀ v, (t.cell rule left k).1 = some v → ∃ depth, plain rule depth k = some v)
    (p : Asking κ V V) (h : Sound rule t) :
    Sound rule (p.exec (Table.cell rule left) t).2 ∧
      ∀ v, (p.exec (Table.cell rule left) t).1 = some v →
        ∃ depth, p.run (plain rule depth) = some v := by
  induction p generalizing t with
  | done a => exact ⟨h, fun v hv => ⟨0, hv⟩⟩
  | giveUp => exact ⟨h, fun v hv => by cases hv⟩
  | ask k next ihp =>
    obtain ⟨hk, hanswer⟩ := ih (k := k) h
    rw [Asking.exec]
    cases hs : t.cell rule left k with
    | mk result t' =>
      rw [hs] at hk hanswer
      cases result with
      | none => exact ⟨hk, fun v hv => by cases hv⟩
      | some w =>
        obtain ⟨hnext, hresult⟩ := ihp w hk
        refine ⟨hnext, fun v hv => ?_⟩
        obtain ⟨n, hn⟩ := hanswer w rfl
        obtain ⟨m, hm⟩ := hresult v hv
        refine ⟨max n m, Option.bind_eq_some_iff.mpr ⟨w, plain_mono hn (Nat.le_max_left n m), ?_⟩⟩
        exact Asking.run_mono (fun _ _ hp => plain_mono hp (Nat.le_max_right n m)) _ hm

/-- **Calls are sound**: the answer is the plain value, and so is what the table keeps. -/
theorem Sound.cell (h : Sound rule t) : Sound rule (t.cell rule left k).2 ∧
    ∀ v, (t.cell rule left k).1 = some v → ∃ depth, plain rule depth k = some v := by
  induction left generalizing k t with
  | zero =>
    have hcase := outcome rule 0 k t
    generalize t.cell rule 0 k = answer, t.cuts rule 0 k = found at hcase ⊢
    cases hcase with
    | value hrule => exact ⟨h, fun v hv => ⟨0, (plain_value hrule 0).trans hv⟩⟩
    | known _ hmemo => exact ⟨h, fun v hv => h k v (hv ▸ hmemo)⟩
    | visiting => exact ⟨h, fun v hv => by cases hv⟩
    | cut => exact ⟨h, fun v hv => by cases hv⟩
  | succ left ih =>
    have hcase := outcome rule (left + 1) k t
    generalize t.cell rule (left + 1) k = answer, t.cuts rule (left + 1) k = found at hcase ⊢
    cases hcase with
    | value hrule => exact ⟨h, fun v hv => ⟨0, (plain_value hrule 0).trans hv⟩⟩
    | known _ hmemo => exact ⟨h, fun v hv => h k v (hv ▸ hmemo)⟩
    | visiting => exact ⟨h, fun v hv => by cases hv⟩
    | @work _ _ _ body hrule =>
      obtain ⟨hbody, hresult⟩ := Sound.exec (fun h => ih h) body (t := t.visit k) h
      have hplain : ∀ v, (body.exec (Table.cell rule left) (t.visit k)).1 = some v →
          ∃ depth, plain rule depth k = some v := by
        intro v hv
        obtain ⟨n, hn⟩ := hresult v hv
        exact ⟨n + 1, (plain_succ hrule).trans hn⟩
      refine ⟨fun j v hj => ?_, hplain⟩
      rw [lookup_finish] at hj
      by_cases hjk : j = k
      · rw [if_pos hjk] at hj
        rw [hjk]
        exact hplain v (Option.some.inj hj)
      · rw [if_neg hjk] at hj
        exact hbody j v hj

/-! ## What is found at all -/

variable (rule limit) in
/-- No key whose value is nested within the limit was worked out in vain. -/
def Good (t : Table κ V) : Prop :=
  ∀ k v, plain rule limit k = some v → t.memo.lookup k ≠ some none

variable (rule) in
/-- The keys in work need more than `depth` levels. -/
def Free (depth : ℕ) (t : Table κ V) : Prop := ∀ j ∈ t.visiting, plain rule depth j = none

variable (rule limit) in
/-- None of the keys has a value that is nested within the limit. -/
def Beyond (found : List κ) : Prop := ∀ j ∈ found, plain rule limit j = none

variable {depth depth' : ℕ} {p : Asking κ V V}

/-- A call keeps the levels free, because what it cuts off needs more. -/
theorem Free.cell (h : Free rule depth t) (hle : depth ≤ limit)
    (hcuts : Beyond rule limit (t.cuts rule left k)) :
    Free rule depth (t.cell rule left k).2 := by
  intro j hj
  obtain hj | hj := mem_visiting_or_cuts hj
  · exact h j hj
  · exact plain_eq_none_of_le (hcuts j hj) hle

/-- What a key or a computation needs for its value: that value lies within `depth`, or there is no
value within the limit at all. -/
def Within (limit depth : ℕ) (value : Option V) : Prop := depth = limit ∨ value ≠ none

/-- What one call does, in the induction over the levels. -/
def Finds (rule : κ → V ⊕ Asking κ V V) (limit left : ℕ) : Prop :=
  ∀ (k : κ) (t : Table κ V) (depth : ℕ), depth ≤ limit → Sound rule t → Good rule limit t →
    Free rule depth t → Beyond rule limit (t.cuts rule left k) →
    Within limit depth (plain rule depth k) →
    Good rule limit (t.cell rule left k).2 ∧
      ∀ v, plain rule depth k = some v → (t.cell rule left k).1 = some v

/-- A computation finds its plain result when its calls find theirs. -/
theorem Finds.exec (ih : Finds rule limit left) (hle : depth ≤ limit) (hsound : Sound rule t)
    (hgood : Good rule limit t) (hfree : Free rule depth t)
    (hcuts : Beyond rule limit (p.notes (Table.cell rule left) (cuts rule left) t))
    (hwithin : Within limit depth (p.run (plain rule depth))) :
    Good rule limit (p.exec (Table.cell rule left) t).2 ∧
      ∀ v, p.run (plain rule depth) = some v → (p.exec (Table.cell rule left) t).1 = some v := by
  induction p generalizing t with
  | done a => exact ⟨hgood, fun v hv => hv⟩
  | giveUp => exact ⟨hgood, fun v hv => by cases hv⟩
  | ask k next ihp =>
    rw [Asking.notes] at hcuts
    have hfirst : Beyond rule limit (t.cuts rule left k) :=
      fun j hj => hcuts j (mem_append_left _ hj)
    have hk : Within limit depth (plain rule depth k) := by
      refine hwithin.imp_right fun hrun hnone => hrun ?_
      rw [Asking.run, hnone]
      rfl
    obtain ⟨hgood', hanswer⟩ := ih k t depth hle hsound hgood hfree hfirst hk
    have hsound' : Sound rule (t.cell rule left k).2 ∧
        ∀ v, (t.cell rule left k).1 = some v → _ := hsound.cell
    have hfree' := hfree.cell hle hfirst
    rw [Asking.exec]
    cases hs : t.cell rule left k with
    | mk result t' =>
      rw [hs] at hgood' hanswer hsound' hfree' hcuts
      cases result with
      | none =>
        refine ⟨hgood', fun v hv => ?_⟩
        obtain ⟨w, hw, -⟩ := Option.bind_eq_some_iff.mp hv
        cases hanswer w hw
      | some w =>
        have hrest : Beyond rule limit
            ((next w).notes (Table.cell rule left) (cuts rule left) t') :=
          fun j hj => hcuts j (mem_append_right _ hj)
        -- If `k` has a value within `depth`, it is the answer `w`.
        have hrun : ∀ v, (Asking.ask k next).run (plain rule depth) = some v →
            (next w).run (plain rule depth) = some v := by
          intro v hv
          obtain ⟨w', hw', hnext⟩ := Option.bind_eq_some_iff.mp hv
          obtain rfl := Option.some.inj (hanswer w' hw')
          exact hnext
        have hwithin' : Within limit depth ((next w).run (plain rule depth)) := by
          refine hwithin.imp_right fun hsome => ?_
          obtain ⟨v, hv⟩ := Option.ne_none_iff_exists'.mp hsome
          rw [hrun v hv]
          exact Option.some_ne_none v
        obtain ⟨hgood'', hresult⟩ := ihp w hsound'.1 hgood' hfree' hrest hwithin'
        exact ⟨hgood'', fun v hv => hresult v (hrun v hv)⟩

/-- A key without a value within the limit may be worked out in vain. -/
theorem Good.finish {result : Option V} (h : Good rule limit t)
    (hresult : plain rule limit k ≠ none → result ≠ none) :
    Good rule limit (t.finish k result) := by
  intro j v hv hnone
  rw [lookup_finish] at hnone
  by_cases hj : j = k
  · rw [if_pos hj] at hnone
    refine hresult ?_ (Option.some.inj hnone)
    rw [← hj, hv]
    exact Option.some_ne_none v
  · rw [if_neg hj] at hnone
    exact h j v hv hnone

/-- What was worked out before is the value. -/
theorem known_eq {known : Option V} (hle : depth ≤ limit) (hsound : Sound rule t)
    (hgood : Good rule limit t) (hmemo : t.memo.lookup k = some known)
    (hv : plain rule depth k = some v) : known = some v := by
  cases known with
  | none => exact absurd hmemo (hgood k v (plain_mono hv hle))
  | some w =>
    obtain ⟨n, hn⟩ := hsound k w hmemo
    rw [plain_unique hn hv]

/-- **Calls find what is within the limit** unless they cut such a key off. A key with a value needs
fewer levels than all keys in work, so it is not among them; and what it asks for needs fewer
levels than itself. -/
theorem finds (left : ℕ) : Finds rule limit left := by
  induction left with
  | zero =>
    intro k t depth hle hsound hgood hfree hcuts hwithin
    have hcase := outcome rule 0 k t
    generalize t.cell rule 0 k = answer, t.cuts rule 0 k = found at hcase hcuts ⊢
    cases hcase with
    | value hrule => exact ⟨hgood, fun v hv => by rwa [plain_value hrule] at hv⟩
    | known _ hmemo => exact ⟨hgood, fun v hv => known_eq hle hsound hgood hmemo hv⟩
    | visiting _ _ hvisiting =>
      refine ⟨hgood, fun v hv => ?_⟩
      rw [hfree k hvisiting] at hv
      cases hv
    | cut =>
      refine ⟨hgood, fun v hv => ?_⟩
      rw [plain_eq_none_of_le (hcuts k mem_cons_self) hle] at hv
      cases hv
  | succ left ih =>
    intro k t depth hle hsound hgood hfree hcuts hwithin
    have hcase := outcome rule (left + 1) k t
    generalize t.cell rule (left + 1) k = answer, t.cuts rule (left + 1) k = found
      at hcase hcuts ⊢
    cases hcase with
    | value hrule => exact ⟨hgood, fun v hv => by rwa [plain_value hrule] at hv⟩
    | known _ hmemo => exact ⟨hgood, fun v hv => known_eq hle hsound hgood hmemo hv⟩
    | visiting _ _ hvisiting =>
      refine ⟨hgood, fun v hv => ?_⟩
      rw [hfree k hvisiting] at hv
      cases hv
    | @work _ _ _ body hrule hmemo hvisiting =>
      have hnotes : Beyond rule limit (body.notes (Table.cell rule left) (cuts rule left)
          (t.visit k)) := hcuts
      -- The body is run with `n` levels: as few as `k` needs, or all of them.
      have hbody : ∀ n, n ≤ limit → Free rule n (t.visit k) →
          Within limit n (body.run (plain rule n)) → _ := fun n hn hfree' hw =>
        ih.exec hn (t := t.visit k) hsound hgood hfree' hnotes hw
      cases hk : plain rule depth k with
      | some v =>
        obtain ⟨n, hn, hnone, hrun⟩ := exists_least_depth hrule hk
        have hfree' : Free rule n (t.visit k) := by
          intro j hj
          obtain rfl | hj := mem_visit.mp hj
          · exact hnone
          · exact plain_eq_none_of_le (hfree j hj) (Nat.le_of_lt hn)
        obtain ⟨hgood', hresult⟩ := hbody n (by omega) hfree' (.inr (by simp [hrun]))
        have hv := hresult v hrun
        rw [hv]
        exact ⟨hgood'.finish (fun _ => Option.some_ne_none v), fun w hw => hw⟩
      | none =>
        obtain rfl | hne := hwithin
        · have hfree' : Free rule depth (t.visit k) := by
            intro j hj
            obtain rfl | hj := mem_visit.mp hj
            · exact hk
            · exact hfree j hj
          obtain ⟨hgood', -⟩ := hbody depth hle hfree' (.inl rfl)
          refine ⟨hgood'.finish (fun hsome => absurd hk hsome), fun v hv => by cases hv⟩
        · exact absurd hk hne

/-! ## The walk -/

theorem lookup_walk {known : Option V} (keys : List κ) (h : t.memo.lookup j = some known) :
    (walk rule limit keys t).memo.lookup j = some known := by
  induction keys generalizing t with
  | nil => exact h
  | cons k keys ih => exact ih (lookup_cell h)

theorem Stuck.walk (keys : List κ) (h : Stuck rule j t) :
    Stuck rule j (walk rule limit keys t) := by
  induction keys generalizing t with
  | nil => exact h
  | cons k keys ih => exact ih h.cell

/-- A key that is cut off on the walk is never worked out. -/
theorem stuck_of_mem_walkCuts (keys : List κ) (h : j ∈ walkCuts rule limit keys t) :
    Stuck rule j (walk rule limit keys t) := by
  induction keys generalizing t with
  | nil => cases h
  | cons k keys ih =>
    obtain hk | hrest := mem_append.mp h
    · exact (stuck_of_mem_cuts hk).2.walk keys
    · exact ih hrest

/-- **The walk is sound.** -/
theorem Sound.walk (keys : List κ) (h : Sound rule t) : Sound rule (walk rule limit keys t) := by
  induction keys generalizing t with
  | nil => exact h
  | cons k keys ih => exact ih h.cell.1

theorem lookup_of_cell (hrule : rule k = .inr body) (h : (t.cell rule left k).1 = some v) :
    (t.cell rule left k).2.memo.lookup k = some (some v) := by
  have hcase := outcome rule left k t
  generalize t.cell rule left k = answer, t.cuts rule left k = found at hcase h ⊢
  cases hcase with
  | value hvalue =>
    rw [hrule] at hvalue
    cases hvalue
  | known _ hmemo => exact hmemo.trans (congrArg some h)
  | visiting => cases h
  | cut => cases h
  | work => rw [lookup_finish, if_pos rfl, h]

/-- The walk finds every key with a value within the limit when it cuts none of them off. -/
theorem lookup_walk_of_beyond (keys : List κ) (hsound : Sound rule t) (hgood : Good rule limit t)
    (hfree : Free rule limit t) (hcuts : Beyond rule limit (walkCuts rule limit keys t))
    (hk : k ∈ keys) (hrule : rule k = .inr body) (hv : plain rule limit k = some v) :
    (walk rule limit keys t).memo.lookup k = some (some v) := by
  induction keys generalizing t with
  | nil => cases hk
  | cons i keys ih =>
    have hfirst : Beyond rule limit (t.cuts rule (limit + 1) i) :=
      fun j hj => hcuts j (mem_append_left _ hj)
    have hrest : Beyond rule limit (walkCuts rule limit keys (t.cell rule (limit + 1) i).2) :=
      fun j hj => hcuts j (mem_append_right _ hj)
    obtain ⟨hgood', hanswer⟩ :=
      finds (limit + 1) i t limit (Nat.le_refl _) hsound hgood hfree hfirst (.inl rfl)
    obtain rfl | hk := mem_cons.mp hk
    · exact lookup_walk keys (lookup_of_cell hrule (hanswer v hv))
    · exact ih hsound.cell.1 hgood' (hfree.cell (Nat.le_refl _) hfirst) hrest hk

/-- **What the walk finds**: it finds every value that is nested within the limit exactly when it
cuts off no key that has one. -/
theorem holds_iff_cuts {keys : List κ} (hkeys : ∀ k body, rule k = .inr body → k ∈ keys) :
    (∀ k body v, rule k = .inr body → plain rule limit k = some v →
      (walk rule limit keys empty).memo.lookup k = some (some v)) ↔
    Beyond rule limit (walkCuts rule limit keys empty) := by
  refine ⟨fun hall j hj => ?_, fun hcuts k body v hrule hv => ?_⟩
  · obtain ⟨⟨body, hrule⟩, -, hnone⟩ := stuck_of_mem_walkCuts keys hj
    cases hv : plain rule limit j with
    | none => rfl
    | some v =>
      rw [hall j body v hrule hv] at hnone
      cases hnone
  · exact lookup_walk_of_beyond keys sound_empty (fun _ _ _ h => by cases h)
      (fun j hj => absurd hj (Finset.notMem_empty j)) hcuts (hkeys k body hrule) hrule hv

/-- **A chain of rules** longer than the levels is cut off at the first key without one. -/
theorem mem_cuts_chain {c : ℕ → κ} (n : ℕ) (hne : ∀ i j, i < j → j ≤ n → c i ≠ c j)
    (hrule : ∀ i, i < n → rule (c i) = .inr (.ask (c (i + 1)) .done))
    (hlast : rule (c n) = .inr body) : ∀ (left i : ℕ) (t : Table κ V), i + left = n →
      (∀ j, t.memo.lookup j = none) → (∀ j, i ≤ j → j ≤ n → c j ∉ t.visiting) →
      c n ∈ t.cuts rule left (c i) := by
  intro left
  induction left with
  | zero =>
    intro i t hi hmemo hvisiting
    have hin : i = n := by omega
    subst hin
    have hcase := outcome rule 0 (c i) t
    generalize t.cell rule 0 (c i) = answer, t.cuts rule 0 (c i) = found at hcase ⊢
    cases hcase with
    | value hvalue =>
      rw [hlast] at hvalue
      cases hvalue
    | known _ hknown =>
      rw [hmemo] at hknown
      cases hknown
    | visiting _ _ hmem => exact absurd hmem (hvisiting i (Nat.le_refl i) (Nat.le_refl i))
    | cut => exact mem_cons_self
  | succ left ih =>
    intro i t hi hmemo hvisiting
    have hi' := hrule i (by omega)
    have hcase := outcome rule (left + 1) (c i) t
    generalize t.cell rule (left + 1) (c i) = answer, t.cuts rule (left + 1) (c i) = found
      at hcase ⊢
    cases hcase with
    | value hvalue =>
      rw [hi'] at hvalue
      cases hvalue
    | known _ hknown =>
      rw [hmemo] at hknown
      cases hknown
    | visiting _ _ hmem => exact absurd hmem (hvisiting i (Nat.le_refl i) (by omega))
    | @work _ _ _ body' hwork =>
      rw [hi'] at hwork
      obtain rfl := Sum.inr.inj hwork
      rw [Asking.notes]
      refine mem_append_left _ (ih (i + 1) (t.visit (c i)) (by omega) hmemo fun j hj hjn => ?_)
      rw [mem_visit, not_or]
      exact ⟨(hne i j (by omega) hjn).symm, hvisiting j (by omega) hjn⟩

end Table

end OpenBitFun
