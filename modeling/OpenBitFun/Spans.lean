import Mathlib

/-!
# Spans of a list

A span is what a list holds from one position up to another. Taking a span out of a list and
placing it somewhere in what remains gives a list with the same elements; the order inside the span
and the order outside it are what they were.
-/

namespace OpenBitFun

open List

namespace Spans

variable {α : Type*} {start stop pos : ℕ} {items moved rest : List α}

/-- What lies between two positions. -/
def inside (start stop : ℕ) (items : List α) : List α := (items.take stop).drop start

/-- What remains without it. -/
def outside (start stop : ℕ) (items : List α) : List α := items.take start ++ items.drop stop

/-- A list with others placed so that they start at a position. -/
def place (pos : ℕ) (moved rest : List α) : List α := rest.take pos ++ moved ++ rest.drop pos

theorem length_inside (hstop : stop ≤ items.length) :
    (inside start stop items).length = stop - start := by
  unfold inside
  rw [length_drop, length_take, Nat.min_eq_left hstop]

theorem length_outside (hstart : start ≤ stop) (hstop : stop ≤ items.length) :
    (outside start stop items).length = items.length - (stop - start) := by
  unfold outside
  rw [length_append, length_take, length_drop]
  omega

/-- A list is what lies before a span, the span, and what lies after it. -/
theorem take_append_inside_append_drop (hstart : start ≤ stop) :
    items.take start ++ inside start stop items ++ items.drop stop = items := by
  have hbefore : (items.take stop).take start = items.take start := by
    rw [take_take, Nat.min_eq_left hstart]
  calc items.take start ++ inside start stop items ++ items.drop stop
      = (items.take stop).take start ++ (items.take stop).drop start ++ items.drop stop := by
        rw [hbefore, inside]
    _ = items := by rw [take_append_drop, take_append_drop]

theorem inside_append_outside_perm (hstart : start ≤ stop) :
    (inside start stop items ++ outside start stop items).Perm items := by
  have hswap : (inside start stop items ++ items.take start).Perm
      (items.take start ++ inside start stop items) := perm_append_comm
  unfold outside
  rw [← append_assoc]
  exact (hswap.append_right _).trans (.of_eq (take_append_inside_append_drop hstart))

theorem place_perm : (place pos moved rest).Perm (moved ++ rest) := by
  have hswap : (rest.take pos ++ moved).Perm (moved ++ rest.take pos) := perm_append_comm
  have h := hswap.append_right (rest.drop pos)
  rwa [append_assoc moved, take_append_drop] at h

theorem sublist_place_moved : moved.Sublist (place pos moved rest) := by
  unfold place
  rw [append_assoc]
  exact (sublist_append_left moved _).trans (sublist_append_right _ _)

theorem sublist_place_rest : rest.Sublist (place pos moved rest) := by
  have h : (rest.take pos ++ rest.drop pos).Sublist (place pos moved rest) :=
    (sublist_append_left _ moved).append (List.Sublist.refl _)
  rwa [take_append_drop] at h

/-- What is placed starts at its position. -/
theorem take_drop_place (h : pos ≤ rest.length) :
    ((place pos moved rest).drop pos).take moved.length = moved := by
  have hbefore : (rest.take pos).length = pos := length_take_of_le h
  unfold place
  rw [append_assoc, drop_left' hbefore, take_left]

/-- A list after its span was moved: the elements are the same, the span now starts at `pos`, and
the order inside the span and outside it is what it was. -/
structure Moved (start stop pos : ℕ) (items result : List α) : Prop where
  perm : result.Perm items
  starts : (result.drop pos).take (stop - start) = inside start stop items
  inside_sublist : (inside start stop items).Sublist result
  outside_sublist : (outside start stop items).Sublist result

theorem moved_place (hstart : start ≤ stop) (hstop : stop ≤ items.length)
    (h : pos ≤ items.length - (stop - start)) :
    Moved start stop pos items
      (place pos (inside start stop items) (outside start stop items)) where
  perm := place_perm.trans (inside_append_outside_perm hstart)
  starts := by
    have hfits : pos ≤ (outside start stop items).length := by
      rwa [length_outside hstart hstop]
    have hlength : stop - start = (inside start stop items).length := (length_inside hstop).symm
    rw [hlength]
    exact take_drop_place hfits
  inside_sublist := sublist_place_moved
  outside_sublist := sublist_place_rest

end Spans

end OpenBitFun
