import Mathlib

/-!
# Binary heaps

The priority queue of the Rust standard library (`std::collections::BinaryHeap`): an array in which
no entry exceeds its parent, under an order that need not be antisymmetric. `push`, `pop` and
`retain` move the entries as the library does, so that the order in which equal entries come out is
the library's. What users may rely on is less: `pop` takes out a greatest entry (`pop_eq_some`) and
no operation loses or invents one (`entries_push`, `entries_retain`).
-/

namespace OpenBitFun

open List

universe u

namespace BinaryHeap

variable {α : Type u} {a : Array α} {i j : ℕ}

/-! ## Comparing positions -/

/-- The parent of a position. -/
def parent (pos : ℕ) : ℕ := (pos - 1) / 2

/-- The entries at two positions change places. -/
theorem getElem?_swapIfInBounds (hi : i < a.size) (hj : j < a.size) (k : ℕ) :
    (a.swapIfInBounds i j)[k]? = a[if k = i then j else if k = j then i else k]? := by
  rw [Array.swapIfInBounds_def, dif_pos hi, dif_pos hj, Array.getElem?_swap]
  grind

theorem swapIfInBounds_perm (a : Array α) (i j : ℕ) : (a.swapIfInBounds i j).Perm a := by
  rw [Array.swapIfInBounds_def]
  split_ifs with hi hj
  · exact Array.swap_perm hi hj
  · exact .refl _
  · exact .refl _

variable [LE α] [DecidableLE α]

/-- `a[i] <= a[j]`, for positions of the array. -/
def leAt (a : Array α) (i j : ℕ) : Bool :=
  match a[i]?, a[j]? with
  | some x, some y => x ≤ y
  | _, _ => true

theorem leAt_iff : leAt a i j = true ↔ ∀ x ∈ a[i]?, ∀ y ∈ a[j]?, x ≤ y := by
  rw [leAt]
  cases a[i]? <;> cases a[j]? <;> simp

theorem leAt_swap (hi : i < a.size) (hj : j < a.size) (k l : ℕ) :
    leAt (a.swapIfInBounds i j) k l = leAt a (if k = i then j else if k = j then i else k)
      (if l = i then j else if l = j then i else l) := by
  rw [leAt, leAt, getElem?_swapIfInBounds hi hj, getElem?_swapIfInBounds hi hj]

/-! ## Sifting -/

/-- `sift_up` to the root: an entry climbs until its parent is no less. -/
def siftUp (a : Array α) (pos : ℕ) : Array α :=
  if 0 < pos then
    if leAt a pos (parent pos) then a
    else siftUp (a.swapIfInBounds pos (parent pos)) (parent pos)
  else a
termination_by pos
decreasing_by
  rw [parent]
  omega

/-- The greater child of a position with two children, the second if they are equal. -/
def greaterChild (a : Array α) (pos : ℕ) : ℕ :=
  if leAt a (2 * pos + 1) (2 * pos + 2) then 2 * pos + 2 else 2 * pos + 1

/-- The first loop of `sift_down_to_bottom`: an entry goes down to a position without children. -/
def descend (a : Array α) (pos : ℕ) : Array α × ℕ :=
  if 2 * pos + 2 < a.size then
    descend (a.swapIfInBounds pos (greaterChild a pos)) (greaterChild a pos)
  else if 2 * pos + 2 = a.size then (a.swapIfInBounds pos (2 * pos + 1), 2 * pos + 1)
  else (a, pos)
termination_by a.size - pos
decreasing_by
  rw [Array.size_swapIfInBounds, greaterChild]
  split <;> omega

/-- `sift_down_to_bottom` from the root: down to the bottom and up to the right place. -/
def siftDownToBottom (a : Array α) : Array α :=
  siftUp (descend a 0).1 (descend a 0).2

/-- `sift_down`: an entry goes down until no child is greater. -/
def siftDown (a : Array α) (pos : ℕ) : Array α :=
  if 2 * pos + 2 < a.size then
    if leAt a (greaterChild a pos) pos then a
    else siftDown (a.swapIfInBounds pos (greaterChild a pos)) (greaterChild a pos)
  else if 2 * pos + 2 = a.size ∧ leAt a (2 * pos + 1) pos = false then
    a.swapIfInBounds pos (2 * pos + 1)
  else a
termination_by a.size - pos
decreasing_by
  rw [Array.size_swapIfInBounds, greaterChild]
  split <;> omega

/-- The loop of `rebuild`. -/
def rebuildBelow : ℕ → Array α → Array α
  | 0, a => a
  | n + 1, a => rebuildBelow n (siftDown a n)

/-- `rebuild`. -/
def rebuild (a : Array α) : Array α := rebuildBelow (a.size / 2) a

/-- The estimate of `rebuild_tail`: whether `rebuild` needs fewer comparisons than sifting up every
entry from `start` on. -/
def betterToRebuild (len start : ℕ) : Bool :=
  if start < len - start then true
  else if len ≤ 2048 then 2 * len < (len - start) * Nat.log2 start
  else 2 * len < (len - start) * 11

/-- `rebuild_tail`: the entries before `start` are a heap. -/
def rebuildTail (a : Array α) (start : ℕ) : Array α :=
  if start = a.size then a
  else if betterToRebuild a.size start then rebuild a
  else (List.range' start (a.size - start)).foldl siftUp a

/-! ## No entry is lost -/

theorem siftUp_perm (a : Array α) (pos : ℕ) : (siftUp a pos).Perm a := by
  fun_induction siftUp a pos with
  | case1 => exact .refl _
  | case2 a pos _ _ ih => exact ih.trans (swapIfInBounds_perm a _ _)
  | case3 => exact .refl _

theorem descend_perm (a : Array α) (pos : ℕ) : (descend a pos).1.Perm a := by
  fun_induction descend a pos with
  | case1 a pos _ ih => exact ih.trans (swapIfInBounds_perm a _ _)
  | case2 a pos => exact swapIfInBounds_perm a _ _
  | case3 => exact .refl _

theorem siftDownToBottom_perm (a : Array α) : (siftDownToBottom a).Perm a :=
  (siftUp_perm _ _).trans (descend_perm a 0)

theorem siftDown_perm (a : Array α) (pos : ℕ) : (siftDown a pos).Perm a := by
  fun_induction siftDown a pos with
  | case1 => exact .refl _
  | case2 a pos _ _ ih => exact ih.trans (swapIfInBounds_perm a _ _)
  | case3 a pos => exact swapIfInBounds_perm a _ _
  | case4 => exact .refl _

theorem rebuildBelow_perm (n : ℕ) (a : Array α) : (rebuildBelow n a).Perm a := by
  induction n generalizing a with
  | zero => exact .refl _
  | succ n ih => exact (ih _).trans (siftDown_perm a n)

theorem foldl_siftUp_perm (positions : List ℕ) (a : Array α) :
    (positions.foldl siftUp a).Perm a := by
  induction positions generalizing a with
  | nil => exact .refl _
  | cons pos positions ih => exact (ih _).trans (siftUp_perm a pos)

theorem rebuildTail_perm (a : Array α) (start : ℕ) : (rebuildTail a start).Perm a := by
  rw [rebuildTail]
  split_ifs
  · exact .refl _
  · exact rebuildBelow_perm _ a
  · exact foldl_siftUp_perm _ a

/-! ## The order of a heap -/

/-- No entry before `hi` exceeds its parent, if the parent is at `lo` or after. -/
def Ordered (a : Array α) (lo hi : ℕ) : Prop :=
  ∀ c, 0 < c → lo ≤ parent c → c < hi → leAt a c (parent c) = true

/-- The entry at `pos` has not found its place: the other entries are in order, and its children do
not exceed its parent. -/
structure Hole (a : Array α) (lo hi pos : ℕ) : Prop where
  /-- The pairs that do not touch the position. -/
  except : ∀ c, 0 < c → lo ≤ parent c → c < hi → c ≠ pos → parent c ≠ pos →
    leAt a c (parent c) = true
  /-- Across the position. -/
  grand : ∀ c, 0 < c → c < hi → parent c = pos → 0 < pos → lo ≤ parent pos →
    leAt a c (parent pos) = true

/-- The children of the position are in order as well. -/
def Hole.Below (a : Array α) (hi pos : ℕ) : Prop :=
  ∀ c, 0 < c → c < hi → parent c = pos → leAt a c pos = true

/-- The position itself is in order. -/
def Hole.Above (a : Array α) (lo pos : ℕ) : Prop :=
  0 < pos → lo ≤ parent pos → leAt a pos (parent pos) = true

variable {lo hi pos : ℕ}

/-- An entry in order with its parent and its children has found its place. -/
theorem Hole.fill (h : Hole a lo hi pos) (hbelow : Hole.Below a hi pos)
    (habove : Hole.Above a lo pos) : Ordered a lo hi := by
  intro c hc hlo hhi
  by_cases hpos : c = pos
  · subst hpos
    exact habove hc hlo
  · by_cases hparent : parent c = pos
    · subst hparent
      exact hbelow c hc hhi rfl
    · exact h.except c hc hlo hhi hpos hparent

/-- One step down: the entry changes places with a child that no other child exceeds. -/
theorem Hole.down {m : ℕ} (h : Hole a lo a.size pos) (hlo : lo ≤ pos) (hparent : parent m = pos)
    (hpos : pos < m) (hm : m < a.size)
    (hgreatest : ∀ c, 0 < c → c < a.size → parent c = pos → leAt a c m = true) :
    Hole (a.swapIfInBounds pos m) lo a.size m := by
  have hexcept := h.except
  have hgrand := h.grand
  refine ⟨fun c hc hc' hlt hne hne' => ?_, fun c hc hlt heq _ _ => ?_⟩
  · rw [leAt_swap (by omega) hm, if_neg hne']
    grind
  · rw [leAt_swap (by omega) hm]
    grind [parent]

section

variable [Std.IsLinearPreorder α]

theorem leAt_refl (a : Array α) (i : ℕ) : leAt a i i = true := by
  rw [leAt_iff]
  intro x hx y hy
  obtain rfl := Option.some.inj (hx.symm.trans hy)
  exact Std.le_refl x

theorem leAt_of_not (h : ¬ leAt a i j = true) : leAt a j i = true := by
  rw [leAt_iff] at h ⊢
  intro x hx y hy
  refine Std.le_total.resolve_left fun hyx => h fun y' hy' x' hx' => ?_
  rwa [Option.some.inj (hy'.symm.trans hy), Option.some.inj (hx'.symm.trans hx)]

theorem leAt_trans {l : ℕ} (hj : j < a.size) (h : leAt a i j = true) (h' : leAt a j l = true) :
    leAt a i l = true := by
  rw [leAt_iff] at *
  intro x hx z hz
  exact Std.le_trans (h x hx _ (Array.getElem?_eq_getElem hj))
    (h' _ (Array.getElem?_eq_getElem hj) z hz)

/-- One step up: the entry changes places with its parent, which is less. -/
theorem Hole.up (h : Hole a 0 hi pos) (hhi : hi ≤ a.size) (hpos : pos < hi)
    (h0 : 0 < pos) (hle : ¬ leAt a pos (parent pos) = true) :
    Hole (a.swapIfInBounds pos (parent pos)) 0 hi (parent pos) ∧
      Hole.Below (a.swapIfInBounds pos (parent pos)) hi (parent pos) := by
  have hlt : parent pos < pos := by
    rw [parent]
    omega
  have hge := leAt_of_not hle
  have hparent : parent pos < a.size := by omega
  have habove : 0 < parent pos → leAt a (parent pos) (parent (parent pos)) = true := by
    intro hpp
    refine h.except _ hpp (Nat.zero_le _) (by omega) (by omega) ?_
    rw [parent] at hpp ⊢
    omega
  have hexcept := h.except
  have hgrand := h.grand
  refine ⟨⟨fun c hc _ hchi hne hne' => ?_, fun c hc hchi heq hpp _ => ?_⟩, fun c hc hchi heq => ?_⟩
  · rw [leAt_swap (by omega) hparent, if_neg hne]
    grind
  · rw [leAt_swap (by omega) hparent]
    grind [leAt_trans, parent]
  · rw [leAt_swap (by omega) hparent]
    grind [leAt_trans, parent]

/-- **`sift_up`** finds the place. -/
theorem siftUp_ordered (h : Hole a 0 hi pos) (hbelow : Hole.Below a hi pos) (hhi : hi ≤ a.size)
    (hpos : pos < hi) : Ordered (siftUp a pos) 0 hi := by
  fun_induction siftUp a pos with
  | case1 a pos h0 hle => exact h.fill hbelow fun _ _ => hle
  | case2 a pos h0 hle ih =>
    obtain ⟨hhole, hbelow'⟩ := h.up hhi hpos h0 hle
    refine ih hhole hbelow' (by simpa using hhi) ?_
    rw [parent]
    omega
  | case3 a pos h0 => exact h.fill hbelow fun h => absurd h h0

/-- Sifting up the entry after a heap makes the heap longer by one. -/
theorem siftUp_concat (h : Ordered a 0 pos) (hpos : pos < a.size) :
    Ordered (siftUp a pos) 0 (pos + 1) := by
  have hchild : ∀ c, 0 < c → c < pos + 1 → parent c ≠ pos := by
    intro c hc hlt
    rw [parent]
    omega
  refine siftUp_ordered ⟨fun c hc hlo hlt hne _ => h c hc hlo (by omega), ?_⟩ ?_ hpos
    (Nat.lt_succ_self pos)
  · exact fun c hc hlt heq => absurd heq (hchild c hc hlt)
  · exact fun c hc hlt heq => absurd heq (hchild c hc hlt)

theorem greaterChild_spec (h : 2 * pos + 2 < a.size) :
    parent (greaterChild a pos) = pos ∧ pos < greaterChild a pos ∧
      greaterChild a pos < a.size ∧
      ∀ c, 0 < c → parent c = pos → leAt a c (greaterChild a pos) = true := by
  have hchild : ∀ c, 0 < c → parent c = pos → c = 2 * pos + 1 ∨ c = 2 * pos + 2 := by
    intro c hc heq
    rw [parent] at heq
    omega
  rw [greaterChild, parent]
  split_ifs with hle
  · refine ⟨by omega, by omega, by omega, fun c hc heq => ?_⟩
    obtain rfl | rfl := hchild c hc heq
    · exact hle
    · exact leAt_refl a _
  · refine ⟨by omega, by omega, by omega, fun c hc heq => ?_⟩
    obtain rfl | rfl := hchild c hc heq
    · exact leAt_refl a _
    · exact leAt_of_not hle

theorem descend_hole (h : Hole a 0 a.size pos) (hpos : pos < a.size) :
    Hole (descend a pos).1 0 a.size (descend a pos).2 ∧ (descend a pos).2 < a.size ∧
      a.size ≤ 2 * (descend a pos).2 + 1 := by
  fun_induction descend a pos with
  | case1 a pos hlt ih =>
    obtain ⟨hparent, hgt, hm, hgreatest⟩ := greaterChild_spec hlt
    have hhole := h.down (Nat.zero_le _) hparent hgt hm fun c hc _ => hgreatest c hc
    simpa using ih (by simpa using hhole) (by simpa using hm)
  | case2 a pos hne heq =>
    refine ⟨h.down (Nat.zero_le _) ?_ (by omega) (by omega) fun c hc hlt hparent => ?_, by omega,
      by omega⟩
    · rw [parent]
      omega
    · obtain rfl : c = 2 * pos + 1 := by
        rw [parent] at hparent
        omega
      exact leAt_refl a _
  | case3 a pos hne hne' => exact ⟨h, hpos, by omega⟩

/-- **`sift_down_to_bottom`** makes a heap of an array in which only the root is out of place. -/
theorem siftDownToBottom_ordered (h : Ordered a 1 a.size) (hsize : 0 < a.size) :
    Ordered (siftDownToBottom a) 0 a.size := by
  have hparent : ∀ c, 0 < c → parent c ≠ 0 → 1 ≤ parent c := by omega
  have hhole : Hole a 0 a.size 0 := by
    refine ⟨fun c hc _ hlt _ hne => h c hc (hparent c hc hne) hlt, ?_⟩
    exact fun c _ _ _ hpos => absurd hpos (Nat.lt_irrefl 0)
  obtain ⟨hhole', hbottom, hlast⟩ := descend_hole hhole hsize
  have hsize' : (descend a 0).1.size = a.size := (descend_perm a 0).size_eq
  refine siftUp_ordered hhole' ?_ hsize'.ge hbottom
  -- a position at the bottom has no children
  intro c hc hlt heq
  rw [parent] at heq
  omega

/-- **`sift_down`** extends the part that is in order by one position. -/
theorem siftDown_ordered (h : Hole a lo a.size pos) (habove : Hole.Above a lo pos) (hlo : lo ≤ pos)
    (hpos : pos < a.size) : Ordered (siftDown a pos) lo a.size := by
  fun_induction siftDown a pos with
  | case1 a pos hlt hle =>
    obtain ⟨-, -, hm, hgreatest⟩ := greaterChild_spec hlt
    exact h.fill (fun c hc _ heq => leAt_trans hm (hgreatest c hc heq) hle) habove
  | case2 a pos hlt hle ih =>
    obtain ⟨hparent, hgt, hm, hgreatest⟩ := greaterChild_spec hlt
    have hhole := h.down hlo hparent hgt hm fun c hc _ => hgreatest c hc
    have hswap : Hole.Above (a.swapIfInBounds pos (greaterChild a pos)) lo (greaterChild a pos) := by
      intro _ _
      rw [leAt_swap hpos hm, hparent, if_neg (by omega), if_pos rfl, if_pos rfl]
      exact leAt_of_not hle
    simpa using ih (by simpa using hhole) hswap (by omega) (by simpa using hm)
  | case3 a pos hne heq =>
    obtain ⟨hsize, hle⟩ := heq
    have hparent : parent (2 * pos + 1) = pos := by
      rw [parent]
      omega
    have honly : ∀ c, 0 < c → c < a.size → parent c = pos → c = 2 * pos + 1 := by
      intro c hc hlt heq
      rw [parent] at heq
      omega
    have hhole := h.down hlo hparent (by omega) (by omega) fun c hc hlt heq =>
      honly c hc hlt heq ▸ leAt_refl a _
    refine hhole.fill (fun c hc hlt heq => ?_) fun _ _ => ?_
    · rw [parent] at heq
      omega
    · rw [leAt_swap hpos (by omega), hparent, if_neg (by omega), if_pos rfl, if_pos rfl]
      exact leAt_of_not (by simp [hle])
  | case4 a pos hne hne' =>
    refine h.fill (fun c hc hlt heq => ?_) habove
    have hc : c = 2 * pos + 1 := by
      rw [parent] at heq
      omega
    subst hc
    by_contra hle
    exact hne' ⟨by omega, by simpa using hle⟩

theorem rebuildBelow_ordered {n : ℕ} (h : Ordered a n a.size) (hn : n ≤ a.size) :
    Ordered (rebuildBelow n a) 0 a.size := by
  induction n generalizing a with
  | zero => exact h
  | succ n ih =>
    have hsize : (siftDown a n).size = a.size := (siftDown_perm a n).size_eq
    have hhole : Hole a n a.size n := by
      refine ⟨fun c hc hlo hlt _ hne => h c hc (by omega) hlt, fun c _ _ _ h0 hlo => ?_⟩
      rw [parent] at hlo
      omega
    have habove : Hole.Above a n n := by
      intro h0 hlo
      rw [parent] at hlo
      omega
    have hdown := siftDown_ordered hhole habove le_rfl (by omega)
    have hrec := ih (hsize.symm ▸ hdown) (by omega)
    rwa [hsize] at hrec

/-- **`rebuild`** makes a heap. -/
theorem rebuild_ordered (a : Array α) : Ordered (rebuild a) 0 a.size := by
  refine rebuildBelow_ordered (fun c hc hlo hlt => ?_) (by omega)
  rw [parent] at hlo
  omega

theorem foldl_siftUp_ordered {n start : ℕ} (h : Ordered a 0 start) (hn : start + n = a.size) :
    Ordered ((List.range' start n).foldl siftUp a) 0 a.size := by
  induction n generalizing a start with
  | zero => exact hn ▸ h
  | succ n ih =>
    have hsize : (siftUp a start).size = a.size := (siftUp_perm a start).size_eq
    have hup := siftUp_concat h (by omega)
    have hrec := ih hup (by omega)
    rwa [hsize] at hrec

/-- **`rebuild_tail`** makes a heap of an array that begins with one. -/
theorem rebuildTail_ordered {start : ℕ} (h : Ordered a 0 start) (hstart : start ≤ a.size) :
    Ordered (rebuildTail a start) 0 a.size := by
  rw [rebuildTail]
  split_ifs with heq
  · exact heq ▸ h
  · exact rebuild_ordered a
  · exact foldl_siftUp_ordered h (by omega)

/-- The root of a heap is a greatest entry. -/
theorem Ordered.root (h : Ordered a 0 a.size) (hj : j < a.size) : leAt a j 0 = true := by
  induction j using Nat.strong_induction_on with
  | h j ih =>
    obtain rfl | hpos := Nat.eq_zero_or_pos j
    · exact leAt_refl a 0
    · have hlt : parent j < j := by
        rw [parent]
        omega
      exact leAt_trans (by omega) (h j hpos (Nat.zero_le _) hj) (ih _ hlt (by omega))

end

/-! ## The operations on the array -/

/-- `pop` on the array: the root goes, and the last entry takes its place. -/
def popData (a : Array α) : Option (α × Array α) :=
  match a.back? with
  | none => none
  | some item =>
    match a.pop[0]? with
    | none => some (item, a.pop)
    | some top => some (top, siftDownToBottom (a.pop.setIfInBounds 0 item))

/-- `retain` on the array: what follows the first entry that goes is put in order again. -/
def retainData (p : α → Bool) (a : Array α) : Array α :=
  rebuildTail (a.filter p) (a.toList.takeWhile p).length

theorem Ordered.congr {b : Array α} {n : ℕ} (h : Ordered a 0 n) (heq : ∀ c < n, b[c]? = a[c]?) :
    Ordered b 0 n := by
  intro c hc hlo hlt
  have hparent : parent c < n := by
    rw [parent]
    omega
  rw [leAt, heq c hlt, heq _ hparent]
  exact h c hc hlo hlt

omit [LE α] [DecidableLE α] in
theorem filter_eq_takeWhile (p : α → Bool) (l : List α) :
    l.filter p = l.takeWhile p ++ (l.dropWhile p).filter p := by
  conv_lhs => rw [← takeWhile_append_dropWhile (p := p) (l := l), filter_append]
  rw [filter_eq_self.2 fun x hx => mem_takeWhile_imp hx]

variable [Std.IsLinearPreorder α]

theorem push_ordered (h : Ordered a 0 a.size) (x : α) :
    Ordered (siftUp (a.push x) a.size) 0 (siftUp (a.push x) a.size).size := by
  rw [(siftUp_perm _ _).size_eq, Array.size_push]
  refine siftUp_concat (h.congr fun c hc => ?_) (by simp)
  rw [Array.getElem?_push, if_neg (by omega)]

theorem retainData_ordered (h : Ordered a 0 a.size) (p : α → Bool) :
    Ordered (retainData p a) 0 (retainData p a).size := by
  have hfilter := filter_eq_takeWhile p a.toList
  have hle : (a.toList.takeWhile p).length ≤ (a.filter p).size := by
    rw [← Array.length_toList, Array.toList_filter, hfilter, length_append]
    exact Nat.le_add_right _ _
  have hpre : Ordered (a.filter p) 0 (a.toList.takeWhile p).length := by
    have hshort := (List.takeWhile_prefix p (l := a.toList)).length_le
    have hordered : Ordered a 0 (a.toList.takeWhile p).length := fun c hc hlo hlt =>
      h c hc hlo (hlt.trans_le (by simpa using hshort))
    refine hordered.congr fun c hc => ?_
    rw [← Array.getElem?_toList, Array.toList_filter, hfilter, getElem?_append_left hc,
      ← Array.getElem?_toList, getElem?_eq_getElem hc, (List.takeWhile_prefix p).getElem hc,
      getElem?_eq_getElem]
  rw [retainData, (rebuildTail_perm _ _).size_eq]
  exact rebuildTail_ordered hpre hle

/-- **`pop`** takes out a greatest entry. -/
theorem popData_eq_some (h : Ordered a 0 a.size) {x : α} {b : Array α}
    (hpop : popData a = some (x, b)) :
    Ordered b 0 b.size ∧ a.toList.Perm (x :: b.toList) ∧ ∀ y ∈ a.toList, y ≤ x := by
  rw [popData] at hpop
  split at hpop
  · cases hpop
  next item hback =>
  obtain ⟨front, rfl⟩ := Array.back?_eq_some_iff.1 hback
  rw [Array.pop_push] at hpop
  split at hpop
  · next hnone =>
    obtain ⟨rfl, rfl⟩ := Prod.mk.inj (Option.some.inj hpop)
    have hfront : front = #[] := by
      rw [Array.getElem?_eq_none_iff] at hnone
      exact Array.eq_empty_of_size_eq_zero (by omega)
    subst hfront
    refine ⟨fun c hc _ hlt => absurd hlt (Nat.not_lt_zero c), .refl _, ?_⟩
    intro y hy
    have hy : y = item := by simpa using hy
    exact hy ▸ Std.le_refl y
  · next top htop =>
    obtain ⟨rfl, rfl⟩ := Prod.mk.inj (Option.some.inj hpop)
    have hpos : 0 < front.size := by
      by_contra hle
      rw [Array.getElem?_eq_none (by omega)] at htop
      cases htop
    have hsize : (front.setIfInBounds 0 item).size = front.size := Array.size_setIfInBounds
    obtain ⟨rest, hrest⟩ : ∃ rest, front.toList = top :: rest := by
      rw [← Array.getElem?_toList] at htop
      exact head?_eq_some_iff.1 (by rwa [head?_eq_getElem?])
    refine ⟨?_, ?_, fun y hy => ?_⟩
    · rw [(siftDownToBottom_perm _).size_eq]
      refine siftDownToBottom_ordered ?_ (by omega)
      intro c hc hlo hlt
      have hlt' : c < (front.push item).size := by
        rw [Array.size_push]
        omega
      have hle := h c hc (Nat.zero_le _) hlt'
      have hsame : ∀ k, 0 < k → k < front.size →
          (front.setIfInBounds 0 item)[k]? = (front.push item)[k]? := by
        intro k hk hlt
        rw [Array.getElem?_setIfInBounds_ne (by omega), Array.getElem?_push, if_neg (by omega)]
      have hparent : parent c < c := by
        rw [parent]
        omega
      rwa [leAt, hsame c hc (by omega), hsame _ hlo (by omega)]
    · have hperm := (siftDownToBottom_perm (front.setIfInBounds 0 item)).toList
      rw [Array.toList_setIfInBounds, hrest, set_cons_zero] at hperm
      rw [Array.toList_push, hrest]
      refine .cons _ (.trans ?_ hperm.symm)
      exact perm_append_singleton item rest
    · obtain ⟨k, hk, rfl⟩ := getElem_of_mem hy
      have hroot := leAt_iff.1 (h.root (j := k) (by simpa using hk))
      refine hroot _ ?_ top ?_
      · rw [← Array.getElem?_toList]
        exact getElem?_eq_getElem hk
      · rw [Array.getElem?_push, if_neg (by omega)]
        exact htop

end BinaryHeap

/-- `BinaryHeap`: an array in heap order. -/
structure BinaryHeap (α : Type u) [LE α] [DecidableLE α] where
  /-- The entries. -/
  data : Array α
  /-- No entry exceeds its parent. -/
  ordered : BinaryHeap.Ordered data 0 data.size

namespace BinaryHeap

variable {α : Type u} [LE α] [DecidableLE α]

/-- `BinaryHeap::new`. -/
def empty : BinaryHeap α := ⟨#[], fun c _ _ hc => absurd hc (Nat.not_lt_zero c)⟩

/-- `iter`: the entries in the order of the array. -/
def iter (q : BinaryHeap α) : List α := q.data.toList

/-- `len`. -/
def len (q : BinaryHeap α) : ℕ := q.data.size

@[simp] theorem iter_empty : (empty : BinaryHeap α).iter = [] := rfl

@[simp] theorem length_iter (q : BinaryHeap α) : q.iter.length = q.len := Array.length_toList

variable [Std.IsLinearPreorder α]

/-- `push`. -/
def push (q : BinaryHeap α) (x : α) : BinaryHeap α :=
  ⟨siftUp (q.data.push x) q.data.size, push_ordered q.ordered x⟩

/-- `pop`. -/
def pop (q : BinaryHeap α) : Option (α × BinaryHeap α) :=
  match hpop : popData q.data with
  | none => none
  | some (x, data) => some (x, ⟨data, (popData_eq_some q.ordered hpop).1⟩)

/-- `retain`. -/
def retain (p : α → Bool) (q : BinaryHeap α) : BinaryHeap α :=
  ⟨retainData p q.data, retainData_ordered q.ordered p⟩

/-- `pop` repeated: what came out, and the heap that is left. -/
def popN : ℕ → BinaryHeap α → List α × BinaryHeap α
  | 0, q => ([], q)
  | n + 1, q =>
    match q.pop with
    | none => ([], q)
    | some (x, q) => (x :: (popN n q).1, (popN n q).2)

theorem iter_push (q : BinaryHeap α) (x : α) : (q.push x).iter.Perm (x :: q.iter) := by
  have hperm := (siftUp_perm (q.data.push x) q.data.size).toList
  rw [Array.toList_push] at hperm
  exact hperm.trans (perm_append_singleton x _)

theorem iter_retain (p : α → Bool) (q : BinaryHeap α) :
    (q.retain p).iter.Perm (q.iter.filter p) := by
  have hperm := (rebuildTail_perm (q.data.filter p) (q.data.toList.takeWhile p).length).toList
  rwa [Array.toList_filter] at hperm

theorem pop_eq_none {q : BinaryHeap α} (h : q.pop = none) : q.iter = [] := by
  rw [pop] at h
  split at h
  · next hpop =>
    rw [popData] at hpop
    split at hpop
    · next hback => rw [iter, Array.back?_eq_none_iff.1 hback]
    · split at hpop <;> cases hpop
  · cases h

theorem pop_eq_some {q q' : BinaryHeap α} {x : α} (h : q.pop = some (x, q')) :
    q.iter.Perm (x :: q'.iter) ∧ ∀ y ∈ q.iter, y ≤ x := by
  rw [pop] at h
  split at h
  · cases h
  next hpop =>
  cases h
  exact (popData_eq_some q.ordered hpop).2

/-- **Popping**: at most `n` entries come out, greatest first, and what is left does not exceed
them. -/
theorem popN_spec (n : ℕ) (q : BinaryHeap α) :
    q.iter.Perm ((popN n q).1 ++ (popN n q).2.iter) ∧
      (popN n q).1.Pairwise (fun x y => y ≤ x) ∧
      (∀ x ∈ (popN n q).1, ∀ y ∈ (popN n q).2.iter, y ≤ x) ∧
      (popN n q).1.length = min n q.len := by
  induction n generalizing q with
  | zero => exact ⟨.refl _, .nil, by simp [popN], by simp [popN]⟩
  | succ n ih =>
    rw [popN]
    split
    · next hpop =>
      have hempty := pop_eq_none hpop
      have hlen : q.len = 0 := by rw [← length_iter, hempty, length_nil]
      exact ⟨.refl _, .nil, by simp, by simp [hlen]⟩
    · next x q' hpop =>
      obtain ⟨hperm, hgreatest⟩ := pop_eq_some hpop
      obtain ⟨hperm', hsorted, hleft, hlength⟩ := ih q'
      have hlen : q.len = q'.len + 1 := by
        rw [← length_iter, hperm.length_eq, length_cons, length_iter]
      have hle : ∀ y ∈ (popN n q').1 ++ (popN n q').2.iter, y ≤ x := fun y hy =>
        hgreatest y (hperm.mem_iff.2 (mem_cons_of_mem x (hperm'.mem_iff.2 hy)))
      refine ⟨hperm.trans (hperm'.cons x), ?_, ?_, ?_⟩
      · exact pairwise_cons.2 ⟨fun y hy => hle y (mem_append_left _ hy), hsorted⟩
      · intro z hz y hy
        obtain rfl | hz := mem_cons.1 hz
        · exact hle y (mem_append_right _ hy)
        · exact hleft z hz y hy
      · rw [length_cons, hlength, hlen, Nat.add_min_add_right]

theorem popN_len (q : BinaryHeap α) : (popN q.len q).1.Perm q.iter := by
  obtain ⟨hperm, -, -, hlength⟩ := popN_spec q.len q
  have hlen := hperm.length_eq
  rw [length_append, hlength, Nat.min_self, length_iter] at hlen
  have hnil : (popN q.len q).2.iter = [] := eq_nil_of_length_eq_zero (by omega)
  rw [hnil, append_nil] at hperm
  exact hperm.symm

theorem iter_foldl_push (l : List α) (q : BinaryHeap α) :
    (l.foldl (·.push ·) q).iter.Perm (l ++ q.iter) := by
  induction l generalizing q with
  | nil => exact .refl _
  | cons x l ih =>
    refine (ih (q.push x)).trans ?_
    exact ((iter_push q x).append_left l).trans perm_middle

end BinaryHeap

/-- `std::cmp::Reverse`: the order turned around. -/
structure Reverse (α : Type u) where
  /-- The value. -/
  val : α

namespace Reverse

variable {α : Type u} [LE α]

instance : LE (Reverse α) := ⟨fun x y => y.val ≤ x.val⟩

instance [DecidableLE α] : DecidableLE (Reverse α) := fun x y => inferInstanceAs (Decidable (y.val ≤ x.val))

instance [Std.IsLinearPreorder α] : Std.IsLinearPreorder (Reverse α) where
  le_refl x := Std.le_refl x.val
  le_trans _ _ _ h h' := Std.le_trans (α := α) h' h
  le_total x y := Std.le_total (a := y.val) (b := x.val)

end Reverse

end OpenBitFun
