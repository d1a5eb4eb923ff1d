import Mathlib

/-!
# List lemmas

Code that indexes a map for every element of a list panics if one index fails. Its model is
`List.mapM` in `Option`; where every index is known to succeed, the lemmas of the first section
turn the searches and counts that follow into searches and counts over the original list. The
other sections are about lists without repetition whose elements are replaced or move, about ranges
of numbers, and about lists some of whose elements are overwritten.
-/

namespace OpenBitFun

open List

universe u v

/-! ## Partial functions -/

section Partial

variable {α : Type u} {β : Type v} {f : α → Option β} {l : List α} {r : List β}

/-- A partial map of a list succeeds with `r` exactly if it sends each element to `r`'s. -/
theorem mapM_eq_some : l.mapM f = some r ↔ l.map f = r.map some := by
  induction l generalizing r with
  | nil => cases r <;> simp
  | cons a l ih =>
    rcases hf : f a with _ | b
    · cases r <;> simp [hf]
    · rcases hl : l.mapM f with _ | bs
      · simp only [mapM_cons, hf, hl, Option.bind_eq_bind, Option.bind_some, Option.bind_none,
          map_cons, reduceCtorEq, false_iff]
        intro h
        cases r with
        | nil => simp at h
        | cons c r =>
          simp only [map_cons, List.cons.injEq] at h
          rw [hl] at ih
          simpa using (ih (r := r)).2 h.2
      · have := ih.1 hl
        cases r <;> simp [hf, hl, this, map_inj_right]

/-- A partial map that is defined on every element succeeds. -/
theorem exists_mapM (h : ∀ a ∈ l, (f a).isSome) : ∃ r, l.mapM f = some r := by
  induction l with
  | nil => exact ⟨[], rfl⟩
  | cons a l ih =>
    obtain ⟨r, hr⟩ := ih fun x hx => h x (mem_cons_of_mem a hx)
    obtain ⟨b, hb⟩ := Option.isSome_iff_exists.1 (h a mem_cons_self)
    exact ⟨b :: r, by simp [hb, hr]⟩

variable {p : β → Bool}

theorem any_of_mapM (h : l.mapM f = some r) : r.any p = l.any fun a => (f a).any p := by
  have := congrArg (List.any · (Option.any p)) (mapM_eq_some.1 h)
  simpa [any_map, Function.comp_def] using this.symm

theorem countP_of_mapM (h : l.mapM f = some r) : r.countP p = l.countP fun a => (f a).any p := by
  have := congrArg (List.countP (Option.any p)) (mapM_eq_some.1 h)
  simpa [countP_map, Function.comp_def] using this.symm

theorem findIdx?_of_mapM (h : l.mapM f = some r) :
    r.findIdx? p = l.findIdx? fun a => (f a).any p := by
  have := congrArg (List.findIdx? (Option.any p)) (mapM_eq_some.1 h)
  simpa [findIdx?_map, Function.comp_def] using this.symm

end Partial

/-! ## Lists without repetition -/

section Nodup

variable {α : Type u} [DecidableEq α] {l : List α} {a b x : α}

/-- Without repetition, replacing the first occurrence replaces every one. -/
theorem replace_eq_map (h : l.Nodup) (a b : α) :
    l.replace a b = l.map fun x => if x = a then b else x := by
  induction l with
  | nil => rfl
  | cons c l ih =>
    obtain ⟨hc, hl⟩ := nodup_cons.1 h
    by_cases hca : c = a
    · subst hca
      have hid : l.map (fun x => if x = c then b else x) = l.map id := by
        refine map_congr_left fun x hx => ?_
        have : x ≠ c := fun hxc => hc (hxc ▸ hx)
        simp [this]
      rw [replace_cons_self, map_cons, hid]
      simp
    · have hac : (a == c) = false := by simpa using fun h => hca h.symm
      rw [map_cons, ← ih hl, replace_cons, hac]
      simp [hca]

theorem mem_replace (h : l.Nodup) (ha : a ∈ l) :
    x ∈ l.replace a b ↔ x = b ∨ x ≠ a ∧ x ∈ l := by
  rw [replace_eq_map h, mem_map]
  constructor
  · rintro ⟨y, hy, rfl⟩
    by_cases hya : y = a
    · simp [hya]
    · simp [hya, hy]
  · rintro (rfl | ⟨hxa, hx⟩)
    · exact ⟨a, ha, by simp⟩
    · exact ⟨x, hx, by simp [hxa]⟩

/-- Replacing by a new element keeps a list without repetition. -/
theorem nodup_replace (h : l.Nodup) (hb : b ∉ l) : (l.replace a b).Nodup := by
  rw [replace_eq_map h]
  refine h.map_on ?_
  intro x hx y hy hxy
  split at hxy
  · next hxa =>
    split at hxy
    · next hya => rw [hxa, hya]
    · exact absurd (hxy ▸ hy) hb
  · split at hxy
    · exact absurd (hxy ▸ hx) hb
    · exact hxy

/-- Removing an element moves what stands behind it forward by one. -/
theorem idxOf_erase (hab : a ≠ b) (l : List α) :
    (l.erase a).idxOf b = if l.idxOf a < l.idxOf b then l.idxOf b - 1 else l.idxOf b := by
  induction l with
  | nil => simp
  | cons c l ih =>
    by_cases hca : c = a
    · subst hca
      have hcb : (c == b) = false := by simpa using hab
      simp [idxOf_cons, hcb]
    · have hca' : (c == a) = false := by simpa using hca
      by_cases hcb : c = b
      · subst hcb
        simp [idxOf_cons, hca']
      · have hcb' : (c == b) = false := by simpa using hcb
        rw [erase_cons_tail (by simpa using hca)]
        simp only [idxOf_cons, hca', hcb', cond_false, ih]
        split <;> split <;> omega

/-- In a sublist of a list without repetition, everything stands at or before its old place. -/
theorem idxOf_sublist {l' : List α} (hsub : l'.Sublist l) (hnodup : l.Nodup) (ha : a ∈ l') :
    l'.idxOf a ≤ l.idxOf a := by
  induction hsub with
  | slnil => exact Nat.le_refl _
  | cons c hsub ih =>
    obtain ⟨hc, hl⟩ := nodup_cons.1 hnodup
    have hca : (c == a) = false := by
      rw [beq_eq_false_iff_ne]
      rintro rfl
      exact hc (hsub.subset ha)
    rw [idxOf_cons, hca, cond_false]
    exact Nat.le_succ_of_le (ih hl ha)
  | cons_cons c hsub ih =>
    obtain ⟨hc, hl⟩ := nodup_cons.1 hnodup
    by_cases hca : c = a
    · simp [hca]
    · have hca' : (c == a) = false := by simpa using hca
      rw [idxOf_cons, idxOf_cons, hca', cond_false, cond_false]
      have hmem : a ∈ _ := (mem_cons.1 ha).resolve_left fun h => hca h.symm
      exact Nat.succ_le_succ (ih hl hmem)

end Nodup

/-! ## Ranges -/

/-- The numbers of a range beyond a bound are a range. -/
theorem filter_range'_gt (m k : ℕ) : ∀ a, (List.range' a k).filter (fun n => n > m) =
    List.range' (max a (m + 1)) (a + k - max a (m + 1)) := by
  induction k with
  | zero =>
    intro a
    have : a + 0 - max a (m + 1) = 0 := by omega
    rw [this]
    rfl
  | succ k ih =>
    intro a
    rw [range'_succ, filter_cons, ih]
    split
    · next hgt =>
      have hgt : m < a := of_decide_eq_true hgt
      have h₁ : max a (m + 1) = a := by omega
      have h₂ : max (a + 1) (m + 1) = a + 1 := by omega
      have h₃ : a + (k + 1) - a = (a + 1 + k - (a + 1)) + 1 := by omega
      rw [h₁, h₂, h₃, range'_succ]
    · next hgt =>
      have hle : ¬m < a := fun hlt => hgt (decide_eq_true hlt)
      have h₁ : max (a + 1) (m + 1) = max a (m + 1) := by omega
      have h₂ : a + 1 + k = a + (k + 1) := by omega
      rw [h₁, h₂]

/-! ## Parts of lists -/

/-- A part of a list without repetition is what one gets by filtering. -/
theorem filter_mem_of_sublist {α : Type u} [DecidableEq α] {l l' : List α} (h : l'.Sublist l)
    (hnodup : l.Nodup) : l.filter (· ∈ l') = l' := by
  induction h with
  | slnil => rfl
  | @cons l' l x hsub ih =>
    obtain ⟨hx, hl⟩ := nodup_cons.1 hnodup
    rw [filter_cons_of_neg (by simpa using fun hin => hx (hsub.subset hin)), ih hl]
  | @cons_cons l' l x hsub ih =>
    obtain ⟨hx, hl⟩ := nodup_cons.1 hnodup
    rw [filter_cons_of_pos (by simp), filter_congr (q := (· ∈ l')), ih hl]
    intro y hy
    have hne : y ≠ x := fun heq => hx (heq ▸ hy)
    simp [hne]

/-! ## Removing one element -/

section Removing

variable {α : Type*} {p q : α → Bool}

theorem filter_eraseP_self (l : List α) : (l.eraseP p).filter p = (l.filter p).tail := by
  induction l with
  | nil => rfl
  | cons x l ih =>
    by_cases hx : p x
    · rw [eraseP_cons_of_pos hx, filter_cons_of_pos hx, tail_cons]
    · rw [eraseP_cons_of_neg hx, filter_cons_of_neg hx, filter_cons_of_neg hx, ih]

theorem filter_eraseP_of_disjoint (h : ∀ x, p x → ¬q x) (l : List α) :
    (l.eraseP p).filter q = l.filter q := by
  induction l with
  | nil => rfl
  | cons x l ih =>
    by_cases hx : p x
    · rw [eraseP_cons_of_pos hx, filter_cons_of_neg (h x hx)]
    · rw [eraseP_cons_of_neg hx, filter_cons, filter_cons, ih]

end Removing

/-! ## Overwriting -/

section Overwriting

variable {α : Type u} {β : Type v} {p : α → Bool} {g : β → α → α}

/-- The elements that satisfy `p` are overwritten, one after the other, with the values. -/
def overwrite (p : α → Bool) (g : β → α → α) : List α → List β → List α
  | [], _ => []
  | x :: l, [] => x :: l
  | x :: l, v :: vs =>
    if p x then g v x :: overwrite p g l vs else x :: overwrite p g l (v :: vs)

@[simp] theorem overwrite_nil (l : List α) : overwrite p g l [] = l := by
  cases l <;> rfl

/-- The positions of the elements that satisfy `p`. -/
def positions (p : α → Bool) (l : List α) : List ℕ :=
  (List.range l.length).filter fun i => l[i]?.any p

theorem positions_cons (x : α) (l : List α) : positions p (x :: l) =
    if p x then 0 :: (positions p l).map Nat.succ else (positions p l).map Nat.succ := by
  rw [positions, length_cons, range_succ_eq_map, filter_cons, filter_map]
  simp [positions, Function.comp_def]

theorem mem_positions {l : List α} {i : ℕ} :
    i ∈ positions p l ↔ ∃ x, l[i]? = some x ∧ p x := by
  rw [positions, mem_filter, mem_range, Option.any_eq_true]
  refine ⟨fun h => h.2, ?_⟩
  rintro ⟨x, hx, hp⟩
  exact ⟨(List.getElem?_eq_some_iff.1 hx).1, x, hx, hp⟩

theorem positions_pairwise (l : List α) : (positions p l).Pairwise (· < ·) :=
  pairwise_lt_range.sublist filter_sublist

theorem exists_left_of_forall₂ {R : α → β → Prop} {l : List α} {l' : List β}
    (h : List.Forall₂ R l l') {b : β} (hb : b ∈ l') : ∃ a ∈ l, R a b := by
  induction h with
  | nil => cases hb
  | @cons a _ _ _ hr _ ih =>
    obtain rfl | hb := mem_cons.1 hb
    · exact ⟨a, mem_cons_self, hr⟩
    · obtain ⟨a', ha', hr'⟩ := ih hb
      exact ⟨a', mem_cons_of_mem _ ha', hr'⟩

theorem exists_right_of_forall₂ {R : α → β → Prop} {l : List α} {l' : List β}
    (h : List.Forall₂ R l l') {a : α} (ha : a ∈ l) : ∃ b ∈ l', R a b :=
  exists_left_of_forall₂ h.flip ha

theorem filterMap_positions (l : List α) : (positions p l).filterMap (l[·]?) = l.filter p := by
  induction l with
  | nil => rfl
  | cons x l ih =>
    have hsucc : ((positions p l).map Nat.succ).filterMap ((x :: l)[·]?) = l.filter p := by
      rw [filterMap_map, ← ih]
      rfl
    rw [positions_cons, filter_cons]
    split_ifs
    · rw [filterMap_cons_some (getElem?_cons_zero), hsucc]
    · exact hsucc

theorem foldl_modify_succ (x : α) (ps : List ℕ) : ∀ (l : List α) (vs : List β),
    ((ps.map Nat.succ).zip vs).foldl (fun l y => l.modify y.1 (g y.2)) (x :: l) =
      x :: (ps.zip vs).foldl (fun l y => l.modify y.1 (g y.2)) l := by
  induction ps with
  | nil => intro l vs; rfl
  | cons i ps ih =>
    intro l vs
    cases vs with
    | nil => rfl
    | cons v vs =>
      simp only [map_cons, zip_cons_cons, foldl_cons]
      exact ih _ vs

/-- Writing to the positions of the elements that satisfy `p` overwrites these. -/
theorem foldl_modify_positions (l : List α) : ∀ vs : List β,
    ((positions p l).zip vs).foldl (fun l y => l.modify y.1 (g y.2)) l = overwrite p g l vs := by
  induction l with
  | nil => intro vs; rfl
  | cons x l ih =>
    intro vs
    cases vs with
    | nil => rw [zip_nil_right]; rfl
    | cons v vs =>
      rw [positions_cons, overwrite]
      split_ifs with hp
      · rw [zip_cons_cons, foldl_cons]
        change (((positions p l).map Nat.succ).zip vs).foldl _ (g v x :: l) = _
        rw [foldl_modify_succ, ih]
      · rw [foldl_modify_succ, ih]

/-- What is seen through a function that the values determine is overwritten alike. -/
theorem filterMap_overwrite {γ : Type*} (f : α → Option γ) (h : β → γ) (l : List α) :
    ∀ vs : List β, vs.length = l.countP p → (∀ x ∈ l, ¬p x → f x = none) →
      (∀ v ∈ vs, ∀ x, p x → f (g v x) = some (h v)) →
        (overwrite p g l vs).filterMap f = vs.map h := by
  induction l with
  | nil =>
    intro vs hlength _ _
    rw [countP_nil, length_eq_zero_iff] at hlength
    rw [hlength]
    rfl
  | cons x l ih =>
    intro vs hlength hnot hg
    rw [countP_cons] at hlength
    rw [forall_mem_cons] at hnot
    by_cases hx : p x
    · rw [if_pos hx] at hlength
      cases vs with
      | nil => simp at hlength
      | cons v vs =>
        rw [forall_mem_cons] at hg
        rw [overwrite, if_pos hx, filterMap_cons_some (hg.1 x hx), map_cons,
          ih vs (by simpa using hlength) hnot.2 hg.2]
    · rw [if_neg hx, Nat.add_zero] at hlength
      cases vs with
      | nil =>
        rw [overwrite_nil, filterMap_cons_none (hnot.1 hx), ← overwrite_nil (g := g) l]
        exact ih [] hlength hnot.2 hg
      | cons v vs =>
        rw [overwrite, if_neg hx, filterMap_cons_none (hnot.1 hx),
          ih (v :: vs) hlength hnot.2 hg]

/-- What overwriting does not change is as before. -/
theorem map_overwrite {γ : Type*} (f : α → γ) (l : List α) : ∀ vs : List β,
    (∀ v ∈ vs, ∀ x ∈ l, p x → f (g v x) = f x) → (overwrite p g l vs).map f = l.map f := by
  induction l with
  | nil => intro vs _; rfl
  | cons x l ih =>
    intro vs hg
    cases vs with
    | nil => rw [overwrite_nil]
    | cons v vs =>
      have hx := fun v hv => (forall_mem_cons.1 (hg v hv)).1
      have hl := fun v hv => (forall_mem_cons.1 (hg v hv)).2
      rw [overwrite]
      split_ifs with hp
      · rw [map_cons, map_cons, hx v mem_cons_self hp,
          ih vs fun v hv => hl v (mem_cons_of_mem _ hv)]
      · rw [map_cons, map_cons, ih (v :: vs) hl]

/-- Overwriting with a permutation of the overwritten elements is a permutation. -/
theorem overwrite_perm (l : List α) : ∀ vs : List β, vs.length = l.countP p →
    (overwrite p g l vs).Perm
      (List.zipWith g vs (l.filter p) ++ l.filter fun x => !p x) := by
  induction l with
  | nil =>
    intro vs _
    cases vs <;> exact .nil
  | cons x l ih =>
    intro vs hlength
    rw [countP_cons] at hlength
    by_cases hx : p x
    · rw [if_pos hx] at hlength
      cases vs with
      | nil => simp at hlength
      | cons v vs =>
        rw [overwrite, if_pos hx, filter_cons_of_pos hx, zipWith_cons_cons,
          filter_cons_of_neg (by simpa using hx)]
        exact (ih vs (by simpa using hlength)).cons _
    · rw [if_neg hx, Nat.add_zero] at hlength
      rw [filter_cons_of_neg hx, filter_cons_of_pos (by simpa using hx)]
      refine .trans ?_ perm_middle.symm
      cases vs with
      | nil =>
        have htail := (ih [] hlength).cons x
        rw [overwrite_nil] at htail
        exact htail
      | cons v vs =>
        rw [overwrite, if_neg hx]
        exact (ih (v :: vs) hlength).cons x

/-- Two elements that satisfy what at most one element satisfies are at the same position. -/
theorem position_unique {l : List α} (h : l.countP p ≤ 1) : ∀ {i j : ℕ} {x y : α},
    l[i]? = some x → l[j]? = some y → p x → p y → i = j := by
  induction l with
  | nil => intro i j x y hi; cases hi
  | cons z l ih =>
    intro i j x y hi hj hx hy
    rw [countP_cons] at h
    have hmem : ∀ {k w}, l[k]? = some w → p w → 0 < l.countP p := fun hk hw =>
      countP_pos_iff.2 ⟨_, mem_of_getElem? hk, hw⟩
    cases i with
    | zero =>
      rw [getElem?_cons_zero] at hi
      cases hi
      rw [if_pos hx] at h
      cases j with
      | zero => rfl
      | succ j =>
        rw [getElem?_cons_succ] at hj
        have := hmem hj hy
        omega
    | succ i =>
      rw [getElem?_cons_succ] at hi
      cases j with
      | zero =>
        rw [getElem?_cons_zero] at hj
        cases hj
        rw [if_pos hy] at h
        have := hmem hi hx
        omega
      | succ j =>
        rw [getElem?_cons_succ] at hj
        rw [ih (Nat.le_of_add_right_le h) hi hj hx hy]

end Overwriting

/-! ## Writing at positions -/

section Writing

variable {α : Type u} {β : Type v} {g : β → α → α}

/-- The values are written to the positions, one after the other. -/
def writeAt (g : β → α → α) (l : List α) (ps : List ℕ) (vs : List β) : List α :=
  (ps.zip vs).foldl (fun l y => l.modify y.1 (g y.2)) l

theorem writeAt_cons (l : List α) (i : ℕ) (ps : List ℕ) (v : β) (vs : List β) :
    writeAt g l (i :: ps) (v :: vs) = writeAt g (l.modify i (g v)) ps vs := rfl

theorem length_writeAt (ps : List ℕ) : ∀ (l : List α) (vs : List β),
    (writeAt g l ps vs).length = l.length := by
  induction ps with
  | nil => exact fun l vs => rfl
  | cons i ps ih =>
    intro l vs
    cases vs with
    | nil => rfl
    | cons v vs => rw [writeAt_cons, ih, length_modify]

theorem getElem?_writeAt_of_not_mem {i : ℕ} (ps : List ℕ) : ∀ (l : List α) (vs : List β), i ∉ ps →
    (writeAt g l ps vs)[i]? = l[i]? := by
  induction ps with
  | nil => exact fun l vs _ => rfl
  | cons k ps ih =>
    intro l vs hi
    cases vs with
    | nil => rfl
    | cons v vs =>
      rw [mem_cons, not_or] at hi
      rw [writeAt_cons, ih _ vs hi.2, getElem?_modify_ne _ _ (Ne.symm hi.1)]

theorem filterMap_writeAt (ps : List ℕ) : ∀ (l : List α) (vs : List β), ps.Nodup →
    ps.length = vs.length → (∀ i ∈ ps, i < l.length) →
      ps.filterMap ((writeAt g l ps vs)[·]?) = List.zipWith g vs (ps.filterMap (l[·]?)) := by
  induction ps with
  | nil =>
    intro l vs _ hlength _
    rw [length_eq_zero_iff.1 hlength.symm]
    rfl
  | cons i ps ih =>
    intro l vs hnodup hlength hlt
    cases vs with
    | nil => cases hlength
    | cons v vs =>
      obtain ⟨hi, hnodup⟩ := nodup_cons.1 hnodup
      obtain ⟨hil, hlt⟩ := forall_mem_cons.1 hlt
      have hfirst : (writeAt g (l.modify i (g v)) ps vs)[i]? = some (g v l[i]) := by
        rw [getElem?_writeAt_of_not_mem ps _ vs hi, getElem?_modify_eq,
          getElem?_eq_getElem hil]
        rfl
      have hrest : ps.filterMap ((l.modify i (g v))[·]?) = ps.filterMap (l[·]?) := by
        refine filterMap_congr fun k hk => getElem?_modify_ne _ _ ?_
        rintro rfl
        exact hi hk
      rw [writeAt_cons, filterMap_cons_some hfirst,
        filterMap_cons_some (getElem?_eq_getElem hil), zipWith_cons_cons,
        ih _ vs hnodup (Nat.succ.inj hlength) (by simpa using hlt), hrest]

/-- What the values do not change is as before. -/
theorem map_writeAt {γ : Type*} {f : α → γ} (hf : ∀ v x, f (g v x) = f x) (ps : List ℕ) :
    ∀ (l : List α) (vs : List β), (writeAt g l ps vs).map f = l.map f := by
  induction ps with
  | nil => exact fun l vs => rfl
  | cons i ps ih =>
    intro l vs
    cases vs with
    | nil => rfl
    | cons v vs =>
      rw [writeAt_cons, ih]
      refine ext_getElem? fun k => ?_
      rw [getElem?_map, getElem?_map, getElem?_modify]
      cases l[k]? with
      | none => rfl
      | some x =>
        change some (f (if i = k then g v x else x)) = some (f x)
        split
        · rw [hf]
        · rfl

/-- A list is what is at some positions and what is at the others. -/
theorem perm_at_positions {l : List α} {ps : List ℕ} (hnodup : ps.Nodup)
    (hlt : ∀ i ∈ ps, i < l.length) :
    (ps.filterMap (l[·]?) ++ ((List.range l.length).filter (· ∉ ps)).filterMap (l[·]?)).Perm l := by
  have hperm : (ps ++ (List.range l.length).filter (· ∉ ps)).Perm (List.range l.length) := by
    rw [perm_ext_iff_of_nodup _ nodup_range]
    · intro i
      rw [mem_append, mem_filter, mem_range, decide_eq_true_iff]
      refine ⟨?_, fun hi => ?_⟩
      · rintro (hi | ⟨hi, -⟩)
        · exact hlt i hi
        · exact hi
      · by_cases hmem : i ∈ ps
        · exact .inl hmem
        · exact .inr ⟨hi, hmem⟩
    · refine nodup_append.2 ⟨hnodup, nodup_range.filter _, ?_⟩
      rintro i hi k hk rfl
      exact decide_eq_true_iff.1 (mem_filter.1 hk).2 hi
  have hall : (List.range l.length).filterMap (l[·]?) = l := by
    have hpositions : positions (fun _ : α => true) l = List.range l.length := by
      refine filter_eq_self.2 fun i hi => ?_
      rw [getElem?_eq_getElem (mem_range.1 hi)]
      rfl
    rw [← hpositions, filterMap_positions]
    exact filter_eq_self.2 fun _ _ => rfl
  rw [← filterMap_append]
  exact (hperm.filterMap _).trans (.of_eq hall)

/-- Values that are the old elements in another order permute the list. -/
theorem writeAt_perm {l : List α} {ps : List ℕ} {vs : List β} (hnodup : ps.Nodup)
    (hlength : ps.length = vs.length) (hlt : ∀ i ∈ ps, i < l.length)
    (hvs : (List.zipWith g vs (ps.filterMap (l[·]?))).Perm (ps.filterMap (l[·]?))) :
    (writeAt g l ps vs).Perm l := by
  have hlt' : ∀ i ∈ ps, i < (writeAt g l ps vs).length := by
    intro i hi
    rw [length_writeAt]
    exact hlt i hi
  have hrest : ((List.range l.length).filter (· ∉ ps)).filterMap ((writeAt g l ps vs)[·]?) =
      ((List.range l.length).filter (· ∉ ps)).filterMap (l[·]?) := by
    refine filterMap_congr fun i hi => getElem?_writeAt_of_not_mem ps l vs ?_
    exact decide_eq_true_iff.1 (mem_filter.1 hi).2
  have hperm := perm_at_positions hnodup hlt'
  rw [length_writeAt, hrest, filterMap_writeAt ps l vs hnodup hlength hlt] at hperm
  exact hperm.symm.trans ((hvs.append_right _).trans (perm_at_positions hnodup hlt))

end Writing

/-! ## Sorting by a key -/

section ByKey

variable {α : Type u} {β : Type v} [LinearOrder β] (key : α → β)

instance total_key : Std.Total fun a b : α => key a ≤ key b := ⟨fun _ _ => le_total _ _⟩

instance isTrans_key : IsTrans α fun a b => key a ≤ key b := ⟨fun _ _ _ => le_trans⟩

/-- Where no two elements have the same key, sorting does not depend on the order before. -/
theorem insertionSort_eq_of_perm {l l' : List α} (hperm : l.Perm l')
    (hkey : ∀ a ∈ l, ∀ b ∈ l, key a = key b → a = b) :
    (l.insertionSort fun a b => key a ≤ key b) = l'.insertionSort fun a b => key a ≤ key b := by
  apply List.Perm.eq_of_pairwise _ (pairwise_insertionSort _ l)
    (pairwise_insertionSort _ l')
  · exact ((perm_insertionSort _ l).trans hperm).trans (perm_insertionSort _ l').symm
  · intro a b ha hb hab hba
    rw [mem_insertionSort] at ha hb
    exact hkey a ha b (hperm.mem_iff.mpr hb) (le_antisymm hab hba)

end ByKey

/-- The least element does not depend on the order. -/
theorem min?_eq_of_perm {l l' : List ℕ} (hperm : l.Perm l') : l.min? = l'.min? := by
  cases hmin : l'.min? with
  | none =>
    rw [min?_eq_none_iff] at hmin ⊢
    rw [hmin] at hperm
    exact hperm.eq_nil
  | some m =>
    rw [min?_eq_some_iff] at hmin ⊢
    exact ⟨hperm.mem_iff.mpr hmin.1, fun b hb => hmin.2 b (hperm.mem_iff.mp hb)⟩

end OpenBitFun
