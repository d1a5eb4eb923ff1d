import Mathlib

/-!
# Maps as sorted lists

A tree map as the list of its entries in the order of their keys. As there is one such list for
each map, maps that have the same value at every key are equal. An entry is found with
`List.lookup`.
-/

namespace OpenBitFun

open List

universe u v

namespace SortedMap

variable {κ : Type u} {υ : Type v} [LinearOrder κ]

/-- The keys go up. -/
def Sorted (m : List (κ × υ)) : Prop := m.Pairwise fun x y => x.1 < y.1

/-- Puts a value at a key, in place of one that is there. -/
def insert (k : κ) (v : υ) : List (κ × υ) → List (κ × υ)
  | [] => [(k, v)]
  | (k', v') :: m =>
    if k < k' then (k, v) :: (k', v') :: m
    else if k = k' then (k, v) :: m
    else (k', v') :: insert k v m

/-- Puts a value at a key if there is none. -/
def orInsert (k : κ) (v : υ) (m : List (κ × υ)) : List (κ × υ) :=
  if (m.lookup k).isSome then m else insert k v m

theorem lookup_cons (k k' : κ) (v : υ) (m : List (κ × υ)) :
    ((k', v) :: m).lookup k = if k = k' then some v else m.lookup k := by
  rw [List.lookup_cons]
  by_cases h : k = k'
  · subst h
    rw [beq_self_eq_true, if_pos rfl]
  · rw [beq_false_of_ne h, if_neg h]

theorem mem_of_lookup {m : List (κ × υ)} {k : κ} {v : υ} (h : m.lookup k = some v) :
    (k, v) ∈ m := by
  obtain ⟨before, behind, rfl, -⟩ := lookup_eq_some_iff.1 h
  simp

theorem lookup_insert (k k' : κ) (v : υ) (m : List (κ × υ)) :
    (insert k v m).lookup k' = if k' = k then some v else m.lookup k' := by
  induction m with
  | nil => rw [insert, lookup_cons]
  | cons x m ih =>
    obtain ⟨k'', v''⟩ := x
    rw [insert]
    split
    · rw [lookup_cons]
    · split
      · rename_i heq
        subst heq
        rw [lookup_cons, lookup_cons]
        split
        · rfl
        · rfl
      · rename_i hne
        rw [lookup_cons, lookup_cons, ih]
        by_cases hk : k' = k
        · subst hk
          rw [if_neg hne, if_pos rfl, if_pos rfl]
        · rw [if_neg hk, if_neg hk]

/-- Looking up after an insertion where there was nothing. -/
theorem lookup_orInsert (k k' : κ) (v : υ) (m : List (κ × υ)) :
    (orInsert k v m).lookup k' = if k' = k then some ((m.lookup k).getD v) else m.lookup k' := by
  rw [orInsert]
  cases h : m.lookup k with
  | none =>
    rw [Option.isSome_none, if_neg Bool.false_ne_true, lookup_insert, Option.getD_none]
  | some w =>
    rw [Option.isSome_some, if_pos rfl, Option.getD_some]
    split
    · rename_i hk
      rw [hk, h]
    · rfl

theorem mem_insert {k k' : κ} {v v' : υ} {m : List (κ × υ)} (h : (k', v') ∈ insert k v m) :
    (k', v') = (k, v) ∨ (k', v') ∈ m := by
  induction m with
  | nil =>
    rw [insert, mem_singleton] at h
    exact .inl h
  | cons x m ih =>
    obtain ⟨k'', v''⟩ := x
    rw [insert] at h
    split at h
    · exact mem_cons.1 h
    · split at h
      · exact (mem_cons.1 h).imp_right (mem_cons_of_mem _)
      · rcases mem_cons.1 h with heq | hmem
        · exact .inr (heq ▸ mem_cons_self)
        · exact (ih hmem).imp_right (mem_cons_of_mem _)

theorem sorted_insert {m : List (κ × υ)} (h : Sorted m) (k : κ) (v : υ) :
    Sorted (insert k v m) := by
  induction m with
  | nil => exact pairwise_singleton _ _
  | cons x m ih =>
    obtain ⟨k', v'⟩ := x
    obtain ⟨hless, hsorted⟩ := pairwise_cons.1 h
    rw [insert]
    split
    · rename_i hlt
      refine pairwise_cons.2 ⟨fun y hy => ?_, h⟩
      rcases mem_cons.1 hy with rfl | hmem
      · exact hlt
      · exact lt_trans hlt (hless y hmem)
    · split
      · rename_i heq
        subst heq
        exact pairwise_cons.2 ⟨hless, hsorted⟩
      · rename_i hnot hne
        refine pairwise_cons.2 ⟨fun y hy => ?_, ih hsorted⟩
        rcases mem_insert hy with heq | hmem
        · cases heq
          exact lt_of_le_of_ne (not_lt.1 hnot) (Ne.symm hne)
        · exact hless y hmem

theorem sorted_orInsert {m : List (κ × υ)} (h : Sorted m) (k : κ) (v : υ) :
    Sorted (orInsert k v m) := by
  rw [orInsert]
  split
  · exact h
  · exact sorted_insert h k v

/-- In a sorted list every entry is found. -/
theorem lookup_of_mem {m : List (κ × υ)} (h : Sorted m) {k : κ} {v : υ} (hmem : (k, v) ∈ m) :
    m.lookup k = some v := by
  induction m with
  | nil => cases hmem
  | cons x m ih =>
    obtain ⟨k', v'⟩ := x
    obtain ⟨hless, hsorted⟩ := pairwise_cons.1 h
    rw [lookup_cons]
    rcases mem_cons.1 hmem with heq | hbehind
    · cases heq
      rw [if_pos rfl]
    · rw [if_neg (ne_of_gt (hless _ hbehind)), ih hsorted hbehind]

/-- Sorted lists with the same values are equal. -/
theorem ext {m m' : List (κ × υ)} (h : Sorted m) (h' : Sorted m')
    (hlookup : ∀ k, m.lookup k = m'.lookup k) : m = m' := by
  induction m generalizing m' with
  | nil =>
    cases m' with
    | nil => rfl
    | cons x m' =>
      have hnone := hlookup x.1
      rw [lookup_cons, if_pos rfl] at hnone
      cases hnone
  | cons x m ih =>
    cases m' with
    | nil =>
      have hnone := hlookup x.1
      rw [lookup_cons, if_pos rfl] at hnone
      cases hnone
    | cons y m' =>
      obtain ⟨hless, hsorted⟩ := pairwise_cons.1 h
      obtain ⟨hless', hsorted'⟩ := pairwise_cons.1 h'
      have hx : x ∈ y :: m' :=
        mem_of_lookup ((hlookup x.1).symm.trans (lookup_of_mem h mem_cons_self))
      have hy : y ∈ x :: m :=
        mem_of_lookup ((hlookup y.1).trans (lookup_of_mem h' mem_cons_self))
      -- the least key of the one is the least key of the other
      have heq : x = y := by
        rcases mem_cons.1 hx with heq | hxm
        · exact heq
        · rcases mem_cons.1 hy with heq | hym
          · exact heq.symm
          · exact absurd (hless y hym) (not_lt.2 (le_of_lt (hless' x hxm)))
      subst heq
      refine congrArg _ (ih hsorted hsorted' fun k => ?_)
      by_cases hk : k = x.1
      · have hnone : ∀ {l : List (κ × υ)}, (∀ y ∈ l, x.1 < y.1) → l.lookup k = none := by
          intro l hl
          refine lookup_eq_none_iff.2 fun z hz => ?_
          rw [hk, bne_iff_ne]
          exact ne_of_lt (hl z hz)
        rw [hnone hless, hnone hless']
      · have hat := hlookup k
        rwa [lookup_cons, lookup_cons, if_neg hk, if_neg hk] at hat

/-- Some entries of a map, and how they are found. -/
theorem lookup_filter (test : κ → Bool) (m : List (κ × υ)) (k : κ) :
    (m.filter fun x => test x.1).lookup k = if test k = true then m.lookup k else none := by
  induction m with
  | nil => simp
  | cons x m ih =>
    obtain ⟨k', v⟩ := x
    rw [lookup_cons, filter_cons]
    by_cases hk : k = k'
    · subst hk
      by_cases htest : test k = true
      · rw [if_pos htest, lookup_cons, if_pos rfl, if_pos htest, if_pos rfl]
      · rw [if_neg htest, ih, if_neg htest, if_neg htest]
    · rw [if_neg hk]
      split
      · rw [lookup_cons, if_neg hk, ih]
      · exact ih

theorem sorted_filter {m : List (κ × υ)} (h : Sorted m) (test : κ × υ → Bool) :
    Sorted (m.filter test) :=
  h.sublist filter_sublist

theorem lookup_map {ω : Type*} (f : υ → ω) (m : List (κ × υ)) (k : κ) :
    (m.map fun x => (x.1, f x.2)).lookup k = (m.lookup k).map f := by
  induction m with
  | nil => rfl
  | cons x m ih =>
    obtain ⟨k', v⟩ := x
    rw [map_cons, lookup_cons, lookup_cons, ih]
    split
    · rfl
    · rfl

/-- A map is visited entry by entry, and each one changes only what is at its own key: a lookup
finds what the entry at this key makes of what was there. -/
theorem lookup_foldl {ω : Type*} {f : List (κ × ω) → κ × υ → List (κ × ω)}
    {g : κ → υ → Option ω → Option ω}
    (hf : ∀ target k v k', (f target (k, v)).lookup k' =
      if k' = k then g k v (target.lookup k) else target.lookup k')
    {source : List (κ × υ)} (hsource : Sorted source) (target : List (κ × ω)) (k : κ) :
    (source.foldl f target).lookup k =
      (source.lookup k).elim (target.lookup k) fun v => g k v (target.lookup k) := by
  induction source generalizing target with
  | nil => rfl
  | cons x source ih =>
    obtain ⟨k', v⟩ := x
    obtain ⟨hless, hsorted⟩ := pairwise_cons.1 hsource
    rw [foldl_cons, ih hsorted, hf, lookup_cons]
    by_cases hk : k = k'
    · subst hk
      have hnone : source.lookup k = none := by
        refine lookup_eq_none_iff.2 fun y hy => ?_
        rw [bne_iff_ne]
        exact ne_of_lt (hless y hy)
      rw [hnone, if_pos rfl, if_pos rfl, Option.elim_none, Option.elim_some]
    · rw [if_neg hk, if_neg hk]

end SortedMap

end OpenBitFun
