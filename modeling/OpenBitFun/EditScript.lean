import Mathlib

/-!
# Edit scripts

A script turns one list into another by operations on ranges. Scripts come in groups: between the
groups nothing changes.
-/

namespace OpenBitFun

open List

universe u

/-- An operation, with the places that it starts at in both lists. -/
inductive DiffOp where
  | equal (oldIndex newIndex len : ℕ)
  | delete (oldIndex oldLen newIndex : ℕ)
  | insert (oldIndex newIndex newLen : ℕ)
  | replace (oldIndex oldLen newIndex newLen : ℕ)
  deriving DecidableEq, Repr

namespace DiffOp

/-- How many items of the old list it takes. -/
def oldLen : DiffOp → ℕ
  | equal _ _ len => len
  | delete _ oldLen _ => oldLen
  | insert _ _ _ => 0
  | replace _ oldLen _ _ => oldLen

/-- How many items of the new list it gives. -/
def newLen : DiffOp → ℕ
  | equal _ _ len => len
  | delete _ _ _ => 0
  | insert _ _ newLen => newLen
  | replace _ _ _ newLen => newLen

/-- The place in the old list that it starts at. -/
def oldIndex : DiffOp → ℕ
  | equal oldIndex _ _ => oldIndex
  | delete oldIndex _ _ => oldIndex
  | insert oldIndex _ _ => oldIndex
  | replace oldIndex _ _ _ => oldIndex

/-- The place in the new list that it starts at. -/
def newIndex : DiffOp → ℕ
  | equal _ newIndex _ => newIndex
  | delete _ _ newIndex => newIndex
  | insert _ newIndex _ => newIndex
  | replace _ _ newIndex _ => newIndex

/-- The places of the items that are taken from the old list. -/
def oldItems (op : DiffOp) : List ℕ := List.range' op.oldIndex op.oldLen

/-- The places of the items that are new. -/
def newItems : DiffOp → List ℕ
  | insert _ newIndex newLen => List.range' newIndex newLen
  | replace _ _ newIndex newLen => List.range' newIndex newLen
  | _ => []

/-- Whether it inserts only. -/
def isInsert : DiffOp → Bool
  | insert _ _ _ => true
  | _ => false

/-- Whether it deletes only. -/
def isDelete : DiffOp → Bool
  | delete _ _ _ => true
  | _ => false

end DiffOp

variable {α : Type u}

/-- Operations that lead from a place in each list to another, one after another. -/
inductive Script (a b : List α) : ℕ → ℕ → List DiffOp → ℕ → ℕ → Prop
  | nil (i j : ℕ) : Script a b i j [] i j
  | equal {i j i' j' len : ℕ} {ops : List DiffOp} : i + len ≤ a.length →
      (∀ k < len, a[i + k]? = b[j + k]?) → Script a b (i + len) (j + len) ops i' j' →
      Script a b i j (.equal i j len :: ops) i' j'
  | delete {i j i' j' len : ℕ} {ops : List DiffOp} : i + len ≤ a.length →
      Script a b (i + len) j ops i' j' → Script a b i j (.delete i len j :: ops) i' j'
  | insert {i j i' j' len : ℕ} {ops : List DiffOp} : j + len ≤ b.length →
      Script a b i (j + len) ops i' j' → Script a b i j (.insert i j len :: ops) i' j'
  | replace {i j i' j' oldLen newLen : ℕ} {ops : List DiffOp} : i + oldLen ≤ a.length →
      j + newLen ≤ b.length → Script a b (i + oldLen) (j + newLen) ops i' j' →
      Script a b i j (.replace i oldLen j newLen :: ops) i' j'

/-- Groups of operations that lead from a place in each list to the ends. -/
inductive Grouped (a b : List α) : ℕ → ℕ → List (List DiffOp) → Prop
  | nil {i j : ℕ} : a.drop i = b.drop j → Grouped a b i j []
  | cons {i j gap i' j' : ℕ} {group : List DiffOp} {groups : List (List DiffOp)} :
      i + gap ≤ a.length → (∀ k < gap, a[i + k]? = b[j + k]?) →
      Script a b (i + gap) (j + gap) group i' j' → Grouped a b i' j' groups →
      Grouped a b i j (group :: groups)

/-- A script does not lead back, and leads as far as its operations take items. -/
theorem Script.old_eq {a b : List α} {i j i' j' : ℕ} {ops : List DiffOp}
    (h : Script a b i j ops i' j') : i' = i + (ops.map DiffOp.oldLen).sum := by
  induction h with
  | nil => rfl
  | equal _ _ _ ih => rw [ih, map_cons, sum_cons, DiffOp.oldLen]; omega
  | delete _ _ ih => rw [ih, map_cons, sum_cons, DiffOp.oldLen]; omega
  | insert _ _ ih => rw [ih, map_cons, sum_cons, DiffOp.oldLen]; omega
  | replace _ _ _ ih => rw [ih, map_cons, sum_cons, DiffOp.oldLen]; omega

/-- It leads as far as its operations give items. -/
theorem Script.new_eq {a b : List α} {i j i' j' : ℕ} {ops : List DiffOp}
    (h : Script a b i j ops i' j') : j' = j + (ops.map DiffOp.newLen).sum := by
  induction h with
  | nil => rfl
  | equal _ _ _ ih => rw [ih, map_cons, sum_cons, DiffOp.newLen]; omega
  | delete _ _ ih => rw [ih, map_cons, sum_cons, DiffOp.newLen]; omega
  | insert _ _ ih => rw [ih, map_cons, sum_cons, DiffOp.newLen]; omega
  | replace _ _ _ ih => rw [ih, map_cons, sum_cons, DiffOp.newLen]; omega

/-- The first operation is at the place where the script starts. -/
theorem Script.head_eq {a b : List α} {i j i' j' : ℕ} {op : DiffOp} {ops : List DiffOp}
    (h : Script a b i j (op :: ops) i' j') : op.oldIndex = i ∧ op.newIndex = j := by
  cases h with
  | _ => exact ⟨rfl, rfl⟩

/-- A script of insertions stays at its place in the old list. -/
theorem Script.oldIndex_eq {a b : List α} {i j i' j' : ℕ} {ops : List DiffOp}
    (h : Script a b i j ops i' j') (hall : ops.all DiffOp.isInsert = true) :
    ∀ op ∈ ops, op.oldIndex = i := by
  induction h with
  | nil => simp
  | insert _ _ ih => exact forall_mem_cons.2 ⟨rfl, ih (all_cons.symm.trans hall)⟩
  | _ => cases hall

/-- A script of deletions stays at its place in the new list. -/
theorem Script.newIndex_eq {a b : List α} {i j i' j' : ℕ} {ops : List DiffOp}
    (h : Script a b i j ops i' j') (hall : ops.all DiffOp.isDelete = true) :
    ∀ op ∈ ops, op.newIndex = j := by
  induction h with
  | nil => simp
  | delete _ _ ih => exact forall_mem_cons.2 ⟨rfl, ih (all_cons.symm.trans hall)⟩
  | _ => cases hall

theorem Grouped.script {a b : List α} {i j : ℕ} {groups : List (List DiffOp)}
    (h : Grouped a b i j groups) :
    ∀ group ∈ groups, ∃ i j i' j', Script a b i j group i' j' := by
  induction h with
  | nil => simp
  | cons _ _ hscript _ ih => exact forall_mem_cons.2 ⟨⟨_, _, _, _, hscript⟩, ih⟩

end OpenBitFun
