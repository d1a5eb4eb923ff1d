import Mathlib

/-!
# Groups of a list

Some elements open a group, and the elements directly behind an opening one that follow it belong
to the group; every other element is a group of its own. A list is cut between two groups exactly
if no group goes on behind the cut (`Parts`), and then everything that is done group by group can
be done on both sides separately.
-/

namespace OpenBitFun

open List

universe u

variable {α : Type u} (opens follows : α → Bool)

/-- The groups of a list. -/
def groups : List α → List (List α)
  | [] => []
  | a :: l =>
    let members := if opens a then l.takeWhile follows else []
    (a :: members) :: groups (l.drop members.length)
termination_by l => l.length
decreasing_by
  rw [length_drop, length_cons]
  omega

/-- No group of `l` goes on in `l'`. -/
def Parts (l l' : List α) : Prop :=
  ∀ before a rest, l = before ++ a :: rest → opens a → rest.all follows →
    ∀ b ∈ l'.head?, follows b = false

variable {opens follows} {a : α} {l l' : List α}

theorem drop_length_takeWhile (p : α → Bool) (l : List α) :
    l.drop (l.takeWhile p).length = l.dropWhile p := by
  calc l.drop (l.takeWhile p).length
    _ = (l.takeWhile p ++ l.dropWhile p).drop (l.takeWhile p).length := by
      rw [takeWhile_append_dropWhile]
    _ = l.dropWhile p := drop_left

@[simp] theorem groups_nil : groups opens follows [] = [] := by
  rw [groups]

theorem groups_cons_of_not (h : ¬opens a) :
    groups opens follows (a :: l) = [a] :: groups opens follows l := by
  rw [groups, if_neg h, length_nil, drop_zero]

theorem groups_cons_of_opens (h : opens a) : groups opens follows (a :: l) =
    (a :: l.takeWhile follows) :: groups opens follows (l.dropWhile follows) := by
  rw [groups, if_pos h, drop_length_takeWhile]

theorem groups_induction (opens follows : α → Bool) {P : List α → Prop} (nil : P [])
    (single : ∀ a l, ¬opens a → P l → P (a :: l))
    (opened : ∀ a l, opens a → P (l.dropWhile follows) → P (a :: l)) (l : List α) : P l := by
  generalize hn : l.length = n
  induction n using Nat.strong_induction_on generalizing l with
  | _ n ih =>
    subst hn
    cases l with
    | nil => exact nil
    | cons a l =>
      by_cases ha : opens a
      · apply opened a l ha
        apply ih _ _ _ rfl
        exact Nat.lt_succ_of_le (length_dropWhile_le follows l)
      · exact single a l ha (ih _ (Nat.lt_succ_self _) l rfl)

@[simp] theorem flatten_groups (l : List α) : (groups opens follows l).flatten = l := by
  induction l using groups_induction opens follows with
  | nil => rw [groups_nil, flatten_nil]
  | single a l ha ih => rw [groups_cons_of_not ha, flatten_cons, ih, singleton_append]
  | opened a l ha ih =>
    rw [groups_cons_of_opens ha, flatten_cons, ih, cons_append,
      takeWhile_append_dropWhile]

theorem ne_nil_of_mem_groups {g : List α} (h : g ∈ groups opens follows l) : g ≠ [] := by
  induction l using groups_induction opens follows with
  | nil =>
    rw [groups_nil] at h
    cases h
  | single a l ha ih =>
    rw [groups_cons_of_not ha, mem_cons] at h
    rcases h with rfl | h
    · exact cons_ne_nil _ _
    · exact ih h
  | opened a l ha ih =>
    rw [groups_cons_of_opens ha, mem_cons] at h
    rcases h with rfl | h
    · exact cons_ne_nil _ _
    · exact ih h

/-- What does not begin with a following element is parted from anything. -/
theorem parts_of_head? (h : ∀ b ∈ l'.head?, follows b = false) (l : List α) :
    Parts opens follows l l' :=
  fun _ _ _ _ _ _ => h

theorem parts_singleton (h : ¬opens a) (l' : List α) : Parts opens follows [a] l' := by
  intro before b rest heq hopens
  cases before with
  | nil =>
    rw [nil_append, List.cons.injEq] at heq
    rw [← heq.1] at hopens
    exact absurd hopens h
  | cons c before =>
    rw [cons_append, List.cons.injEq] at heq
    exact absurd heq.2.symm (append_ne_nil_of_right_ne_nil _ (cons_ne_nil _ _))

theorem Parts.append {x : List α} (hx : Parts opens follows x (l ++ l'))
    (h : Parts opens follows l l') : Parts opens follows (x ++ l) l' := by
  intro before b rest heq hb hall
  rcases append_eq_append_iff.1 heq with ⟨y, rfl, hl⟩ | ⟨y, hx', hrest⟩
  · exact h y b rest hl hb hall
  · cases y with
    | nil => exact h [] b rest hrest.symm hb hall
    | cons c y =>
      rw [cons_append, List.cons.injEq] at hrest
      obtain ⟨rfl, rfl⟩ := hrest
      rw [all_append, Bool.and_eq_true] at hall
      have hhead := hx before b y hx' hb hall.1
      cases l with
      | nil => exact hhead
      | cons c l =>
        -- the group would go on in `l`
        have hc := hhead c rfl
        have hall' := hall.2
        rw [all_cons, hc] at hall'
        cases hall'

/-- The members of a group behind the cut are no members of a group before it. -/
theorem Parts.takeWhile (h : Parts opens follows l l') {before rest : List α}
    (heq : l = before ++ a :: rest) (ha : opens a) :
    (rest ++ l').takeWhile follows = rest.takeWhile follows := by
  by_cases hall : rest.all follows
  · have hhead := h before a rest heq ha hall
    rw [all_eq_true] at hall
    rw [takeWhile_append_of_pos hall, takeWhile_eq_self_iff.2 hall]
    cases l' with
    | nil => rw [takeWhile_nil, append_nil]
    | cons b l' =>
      rw [takeWhile_cons_of_neg (by rw [hhead b rfl]; decide), append_nil]
  · rw [takeWhile_append, if_neg]
    intro hlength
    apply hall
    rw [all_eq_true]
    exact takeWhile_eq_self_iff.1
      (List.IsPrefix.eq_of_length (List.takeWhile_prefix _) hlength)

theorem Parts.tail (h : Parts opens follows (a :: l) l') : Parts opens follows l l' :=
  fun before b rest heq hb hall => h (a :: before) b rest (by rw [heq, cons_append]) hb hall

/-- A list is parted behind any number of its groups. -/
theorem parts_groups (l : List α) (j : ℕ) :
    Parts opens follows ((groups opens follows l).take j).flatten
      ((groups opens follows l).drop j).flatten := by
  induction l using groups_induction opens follows generalizing j with
  | nil =>
    rw [groups_nil, drop_nil]
    exact parts_of_head? (by simp) _
  | single a l ha ih =>
    cases j with
    | zero => exact fun before _ _ heq => absurd heq.symm (by simp)
    | succ j =>
      rw [groups_cons_of_not ha, take_succ_cons, drop_succ_cons, flatten_cons]
      exact (parts_singleton ha _).append (ih j)
  | opened a l ha ih =>
    cases j with
    | zero => exact fun before _ _ heq => absurd heq.symm (by simp)
    | succ j =>
      rw [groups_cons_of_opens ha, take_succ_cons, drop_succ_cons, flatten_cons]
      apply Parts.append _ (ih j)
      rw [← flatten_append, take_append_drop, flatten_groups]
      apply parts_of_head?
      intro b hb
      rw [Option.mem_def] at hb
      have hnot := head?_dropWhile_not follows l
      rw [hb] at hnot
      exact Bool.eq_false_iff.2 (by simpa using hnot)

end OpenBitFun
