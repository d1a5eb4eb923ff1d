import Mathlib

/-!
# Finite maps

`AssocMap κ υ` is Mathlib's association list with distinct keys, at a constant value type. It
stands for a hash map: `lookup`, `insert` and `erase` are the library's. This file adds what a
hash map's users need besides: `lookup` after an update as one `if`, the number of entries, and the
updates of all values. A tree map is the same map, visited in the order of its keys (`iter`).
-/

namespace OpenBitFun

open List

universe u v

/-- A finite map from `κ` to `υ`. -/
abbrev AssocMap (κ : Type u) (υ : Type v) := AList (fun _ : κ => υ)

namespace AssocMap

variable {κ : Type u} {υ : Type v}

/-- The number of entries. -/
def size (m : AssocMap κ υ) : Nat := m.keys.length

variable [DecidableEq κ] {m : AssocMap κ υ} {k k' : κ} {x : υ}

theorem lookup_insert (m : AssocMap κ υ) (k k' : κ) (x : υ) :
    (m.insert k x).lookup k' = if k' = k then some x else m.lookup k' := by
  split
  · next h => subst h; exact AList.lookup_insert m
  · next h => exact AList.lookup_insert_ne h

theorem lookup_erase (m : AssocMap κ υ) (k k' : κ) :
    (m.erase k).lookup k' = if k' = k then none else m.lookup k' := by
  split
  · next h => subst h; exact AList.lookup_erase k' m
  · next h => exact AList.lookup_erase_ne h

theorem mem_of_lookup (h : m.lookup k = some x) : k ∈ m.keys := by
  rw [← AList.mem_keys, ← AList.lookup_isSome, h]
  rfl

theorem notMem_of_lookup (h : m.lookup k = none) : k ∉ m.keys := by
  rwa [← AList.mem_keys, ← AList.lookup_eq_none]

/-- Removing a present key drops one entry. -/
theorem size_erase_of_lookup (h : m.lookup k = some x) : size (m.erase k) = size m - 1 := by
  simp only [size, AList.keys_erase]
  exact length_erase_of_mem (mem_of_lookup h)

theorem size_pos_of_lookup (h : m.lookup k = some x) : 0 < size m :=
  length_pos_of_mem (mem_of_lookup h)

theorem size_erase_le (m : AssocMap κ υ) (k : κ) : size (m.erase k) ≤ size m := by
  simp only [size, AList.keys_erase]
  exact length_erase_le

theorem size_insert_of_none (h : m.lookup k = none) : size (m.insert k x) = size m + 1 := by
  simp only [size, AList.keys_insert, length_cons,
    erase_of_not_mem (notMem_of_lookup h)]

theorem erase_insert (h : m.lookup k = none) (x : υ) : (m.insert k x).erase k = m := by
  have hkey : k ∉ m := AList.lookup_eq_none.1 h
  apply AList.ext
  rw [AList.insert_of_notMem hkey]
  exact kerase_cons_eq rfl

/-- Overwriting keeps the number of entries. -/
theorem size_insert_of_some {y : υ} (h : m.lookup k = some y) : size (m.insert k x) = size m := by
  have hpos := size_pos_of_lookup h
  have herase := size_erase_of_lookup h
  simp only [size, AList.keys_erase, AList.keys_insert, length_cons] at *
  omega

/-- `get_mut`: changes the value of a key, if there is one. -/
def modify (m : AssocMap κ υ) (k : κ) (f : υ → υ) : AssocMap κ υ :=
  match m.lookup k with
  | some x => m.insert k (f x)
  | none => m

theorem lookup_modify (m : AssocMap κ υ) (k k' : κ) (f : υ → υ) :
    (m.modify k f).lookup k' = if k' = k then (m.lookup k).map f else m.lookup k' := by
  rw [modify]
  cases h : m.lookup k with
  | none =>
    split_ifs with hk
    · rw [hk, h, Option.map_none]
    · rfl
  | some x => rw [lookup_insert, Option.map_some]

/-- `values_mut`: changes every value. -/
def mapValues (f : κ → υ → υ) (m : AssocMap κ υ) : AssocMap κ υ where
  entries := m.entries.map fun x => ⟨x.1, f x.1 x.2⟩
  nodupKeys := by
    have h := m.nodupKeys
    rwa [List.NodupKeys, List.keys, map_map]

/-- Looking up after a change of every value. -/
theorem lookup_mapValues (f : κ → υ → υ) (m : AssocMap κ υ) (k : κ) :
    (m.mapValues f).lookup k = (m.lookup k).map (f k) := by
  change List.dlookup k (m.entries.map fun x => Sigma.mk (β := fun _ => υ) x.1 (f x.1 x.2)) =
    (List.dlookup k m.entries).map (f k)
  induction m.entries with
  | nil => rfl
  | cons x l ih =>
    obtain ⟨k', v⟩ := x
    by_cases hk : k' = k
    · subst hk
      simp
    · rw [map_cons, dlookup_cons_ne _ _ (Ne.symm hk), ih,
        dlookup_cons_ne _ _ (Ne.symm hk)]

/-- `retain`: keeps the entries whose value passes a test. -/
def retain (test : υ → Bool) (m : AssocMap κ υ) : AssocMap κ υ where
  entries := m.entries.filter fun x => test x.2
  nodupKeys := m.nodupKeys.sublist filter_sublist

theorem lookup_retain (test : υ → Bool) (m : AssocMap κ υ) (k : κ) :
    (m.retain test).lookup k = (m.lookup k).filter test := by
  ext x
  rw [← Option.mem_def, ← Option.mem_def, AList.mem_lookup_iff, Option.mem_filter_iff,
    AList.mem_lookup_iff]
  exact mem_filter

/-- `retain` with a test that also sees the key. -/
def retainEntries (test : κ → υ → Bool) (m : AssocMap κ υ) : AssocMap κ υ where
  entries := m.entries.filter fun x => test x.1 x.2
  nodupKeys := m.nodupKeys.sublist filter_sublist

theorem lookup_retainEntries (test : κ → υ → Bool) (m : AssocMap κ υ) (k : κ) :
    (m.retainEntries test).lookup k = (m.lookup k).filter (test k) := by
  ext x
  rw [← Option.mem_def, ← Option.mem_def, AList.mem_lookup_iff, Option.mem_filter_iff,
    AList.mem_lookup_iff]
  exact mem_filter

/-- The value of a key in a map of lists. -/
def list {α : Type v} (m : AssocMap κ (List α)) (k : κ) : List α := (m.lookup k).getD []

theorem list_insert {α : Type v} (m : AssocMap κ (List α)) (k k' : κ) (l : List α) :
    list (m.insert k l) k' = if k' = k then l else list m k' := by
  rw [list, lookup_insert]
  split_ifs <;> rfl

/-- The lists after a change of every list that keeps the empty list. -/
theorem list_mapValues {α : Type v} {f : List α → List α} (hnil : f [] = [])
    (m : AssocMap κ (List α)) (k : κ) : list (m.mapValues fun _ => f) k = f (list m k) := by
  rw [list, list, lookup_mapValues]
  cases m.lookup k with
  | none => exact hnil.symm
  | some l => rfl

/-! ### Visiting the entries -/

section

variable [LE κ] [DecidableLE κ]

omit [DecidableEq κ] in
/-- `iter` of a tree map: the entries in the order of their keys. -/
def iter (m : AssocMap κ υ) : List (κ × υ) :=
  (m.entries.map fun x => (x.1, x.2)).insertionSort fun x y => x.1 ≤ y.1

theorem mem_iter : (k, x) ∈ m.iter ↔ m.lookup k = some x := by
  rw [iter, mem_insertionSort, mem_map, ← Option.mem_def, AList.mem_lookup_iff]
  refine ⟨?_, fun h => ⟨⟨k, x⟩, h, rfl⟩⟩
  rintro ⟨⟨k', x'⟩, h, heq⟩
  cases heq
  exact h

omit [DecidableEq κ] in
theorem nodup_iter (m : AssocMap κ υ) : (m.iter.map Prod.fst).Nodup := by
  have hperm := (perm_insertionSort (fun x y => x.1 ≤ y.1)
    (m.entries.map fun x => (x.1, x.2))).map Prod.fst
  refine hperm.nodup_iff.2 ?_
  rw [map_map]
  exact m.nodupKeys

end

end AssocMap

end OpenBitFun
