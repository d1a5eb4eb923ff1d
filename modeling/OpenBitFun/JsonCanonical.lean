import Mathlib
import OpenBitFun.Json
import OpenBitFun.SortedMap

/-!
# Canonical JSON values

In a program the members of an object are a sorted map. Values are compared member by member, and
what is said of all values goes by the size, as a program may look at the members of a member.
-/

namespace OpenBitFun

open SortedMap

namespace Json

namespace Value

/-! ## Equality -/

mutual

/-- Whether two values are equal. -/
def same : Value → Value → Bool
  | .null, .null => true
  | .bool a, .bool b => a == b
  | .number a, .number b => a == b
  | .string a, .string b => a == b
  | .array a, .array b => sameItems a b
  | .object a, .object b => sameMembers a b
  | _, _ => false

/-- Whether two lists of values are equal. -/
def sameItems : List Value → List Value → Bool
  | [], [] => true
  | a :: as, b :: bs => same a b && sameItems as bs
  | _, _ => false

/-- Whether two lists of members are equal. -/
def sameMembers : List (String × Value) → List (String × Value) → Bool
  | [], [] => true
  | (k, a) :: as, (l, b) :: bs => k == l && same a b && sameMembers as bs
  | _, _ => false

end

mutual

theorem same_iff : ∀ a b : Value, same a b = true ↔ a = b
  | .null, b => by cases b <;> simp [same]
  | .bool a, b => by cases b <;> simp [same]
  | .number a, b => by cases b <;> simp [same]
  | .string a, b => by cases b <;> simp [same]
  | .array as, b => by
    cases b with
    | array bs => rw [same, sameItems_iff as bs, array.injEq]
    | _ => simp [same]
  | .object as, b => by
    cases b with
    | object bs => rw [same, sameMembers_iff as bs, object.injEq]
    | _ => simp [same]

theorem sameItems_iff : ∀ as bs : List Value, sameItems as bs = true ↔ as = bs
  | [], bs => by cases bs <;> simp [sameItems]
  | a :: as, [] => by simp [sameItems]
  | a :: as, b :: bs => by
    rw [sameItems, Bool.and_eq_true, same_iff a b, sameItems_iff as bs, List.cons.injEq]

theorem sameMembers_iff : ∀ as bs : List (String × Value), sameMembers as bs = true ↔ as = bs
  | [], bs => by cases bs <;> simp [sameMembers]
  | (k, a) :: as, [] => by simp [sameMembers]
  | (k, a) :: as, (l, b) :: bs => by
    rw [sameMembers, Bool.and_eq_true, Bool.and_eq_true, beq_iff_eq, same_iff a b,
      sameMembers_iff as bs, List.cons.injEq, Prod.mk.injEq]

end

instance : DecidableEq Value := fun a b => decidable_of_iff _ (same_iff a b)

/-! ## Values in values -/

theorem sizeOf_lt_array {item : Value} {items : List Value} (h : item ∈ items) :
    sizeOf item < sizeOf (array items) := by
  have hlt := List.sizeOf_lt_of_mem h
  rw [array.sizeOf_spec]
  omega

theorem sizeOf_lt_object {key : String} {value : Value} {members : List (String × Value)}
    (h : (key, value) ∈ members) : sizeOf value < sizeOf (object members) := by
  have hlt := List.sizeOf_lt_of_mem h
  rw [Prod.mk.sizeOf_spec] at hlt
  rw [object.sizeOf_spec]
  omega

/-- What is true of a value if it is true of all values in it is true of all values. -/
theorem inductionOnSize {P : Value → Prop} (value : Value)
    (h : ∀ value, (∀ inner, sizeOf inner < sizeOf value → P inner) → P value) : P value := by
  induction hsize : sizeOf value using Nat.strong_induction_on generalizing value with
  | _ n ih =>
    subst hsize
    exact h value fun inner hinner => ih _ hinner inner rfl

/-- The members of all objects are sorted, as they are in a map. -/
inductive Canonical : Value → Prop
  | null : Canonical .null
  | bool (value : Bool) : Canonical (.bool value)
  | number (n : Number) : Canonical (.number n)
  | string (text : String) : Canonical (.string text)
  | array {items : List Value} (hitems : ∀ item ∈ items, Canonical item) : Canonical (.array items)
  | object {members : List (String × Value)} (hsorted : Sorted members)
      (hmembers : ∀ key value, (key, value) ∈ members → Canonical value) :
      Canonical (.object members)

end Value

/-- A value as a program holds it. -/
structure HeldValue where
  value : Value
  canonical : value.Canonical

end Json

end OpenBitFun
