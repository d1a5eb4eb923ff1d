import OpenBitFun.RouterTokenCache

/-!
# What programs on the Router's token cache return

A program on a `CachedRouterTokenCounter` is one of many that use its tables. `Program.Returns` says
what a program returns and stores as long as what it is given is right: counts are those of the
inner counter, and projections fit what they are remembered under. With right answers every part of
`compact_json` returns what it returns with the plain counter (`returns_compactJsonUncached`).
-/

namespace OpenBitFun

open List

namespace Router

open Json (Value)

/-- The counter that `inner` is without a cache before it. -/
def plain (inner : String → ℕ) : RouterTokenCounter where
  count := inner
  name := "inner"
  cachedProjection _ _ := none

/-! ## What programs return -/

namespace Program

variable {α β : Type} {inner : String → ℕ} {Fits : String → ℕ → Value → Prop}

/-- A program which, whenever the counts it is given are those of `inner` and the projections fit,
stores only such counts and projections, and returns something with a property. -/
def Returns (inner : String → ℕ) (Fits : String → ℕ → Value → Prop) (P : α → Prop) :
    Program α → Prop
  | done a => P a
  | tokenGet text k =>
    ∀ tokens : Option ℕ, (∀ n ∈ tokens, n = inner text) → (k tokens).Returns inner Fits P
  | tokenInsert text tokens _ k => tokens = inner text ∧ k.Returns inner Fits P
  | projectionGet text budget k =>
    ∀ value : Option Value, (∀ v ∈ value, Fits text budget v) → (k value).Returns inner Fits P
  | projectionInsert text budget value _ k => Fits text budget value ∧ k.Returns inner Fits P

theorem Returns.bind {P : α → Prop} {Q : β → Prop} {program : Program α} {f : α → Program β}
    (h : program.Returns inner Fits P) (hf : ∀ a, P a → (f a).Returns inner Fits Q) :
    (program.bind f).Returns inner Fits Q := by
  induction program with
  | done a => exact hf a h
  | tokenGet text k ih => exact fun tokens htokens => ih tokens (h tokens htokens)
  | tokenInsert text tokens cost k ih => exact ⟨h.1, ih h.2⟩
  | projectionGet text budget k ih => exact fun value hvalue => ih value (h value hvalue)
  | projectionInsert text budget value cost k ih => exact ⟨h.1, ih h.2⟩

/-- What follows a program that returns one thing for certain. -/
theorem Returns.bind_eq {a : α} {Q : β → Prop} {program : Program α} {f : α → Program β}
    (h : program.Returns inner Fits (· = a)) (hf : (f a).Returns inner Fits Q) :
    (program.bind f).Returns inner Fits Q := by
  apply h.bind
  rintro _ rfl
  exact hf

theorem returns_mapM {f : α → Program β} {g : α → β} {as : List α}
    (h : ∀ a ∈ as, (f a).Returns inner Fits (· = g a)) :
    (mapM f as).Returns inner Fits (· = as.map g) := by
  induction as with
  | nil => exact rfl
  | cons a as ih =>
    rw [forall_mem_cons] at h
    apply h.1.bind_eq
    apply (ih h.2).bind_eq
    exact rfl

end Program

/-! ## The programs of a cached counter -/

namespace Cached

open Program

variable (inner : String → ℕ) (Fits : String → ℕ → Value → Prop)

theorem returns_count (text : String) :
    (count inner text).Returns inner Fits (· = inner text) := by
  unfold count
  split
  · rintro (_ | n) htokens
    · exact ⟨rfl, rfl⟩
    · exact htokens n rfl
  · exact rfl

/-- A count that decides between two programs. -/
theorem returns_ite_count {α : Type} {text : String} {budget : ℕ} {fits cut : Program α}
    {a b : α} (hfits : fits.Returns inner Fits (· = a)) (hcut : cut.Returns inner Fits (· = b)) :
    ((count inner text).bind fun tokens => if tokens ≤ budget then fits else cut).Returns
      inner Fits (· = if (plain inner).count text ≤ budget then a else b) := by
  apply (returns_count inner Fits text).bind_eq
  show (if inner text ≤ budget then fits else cut).Returns inner Fits
    (· = if inner text ≤ budget then a else b)
  split
  · exact hfits
  · exact hcut

theorem returns_truncateSearch (text : List Char) (budget low high : ℕ) (best : List Char) :
    (truncateSearch inner text budget low high best).Returns inner Fits
      (· = Router.truncateSearch (plain inner) text budget low high best) := by
  induction low, high, best using truncateSearch.induct text with
  | case1 low high best hle keep candidate ihHigh ihLow =>
    rw [truncateSearch, if_pos hle, Router.truncateSearch, if_pos hle]
    apply returns_ite_count
    · exact ihHigh
    · split
      · exact rfl
      · exact ihLow ‹_›
  | case2 low high best hlt =>
    rw [truncateSearch, if_neg hlt, Router.truncateSearch, if_neg hlt]
    exact rfl

theorem returns_truncate (text : String) (budget : ℕ) :
    (truncate inner text budget).Returns inner Fits
      (· = Router.truncate text budget (plain inner)) := by
  unfold truncate Router.truncate
  generalize truncateSource text.toList = source
  apply returns_ite_count
  · exact rfl
  · apply (returns_truncateSearch inner Fits _ _ _ _ _).bind_eq
    exact rfl

/-! ### Projections of values -/

theorem shrinkItems_eq_map (fieldBudget items : ℕ) (counter : RouterTokenCounter)
    (values : List Value) :
    shrinkItems fieldBudget items counter values =
      values.map (Router.shrink fieldBudget items counter) := by
  induction values with
  | nil => rw [shrinkItems, map_nil]
  | cons value values ih => rw [shrinkItems, map_cons, ih]

theorem shrinkFields_eq_map (fieldBudget items : ℕ) (counter : RouterTokenCounter)
    (fields : List (String × Value)) :
    shrinkFields fieldBudget items counter fields =
      fields.map fun field => (field.1, Router.shrink fieldBudget items counter field.2) := by
  induction fields with
  | nil => rw [shrinkFields, map_nil]
  | cons field fields ih => rw [shrinkFields, map_cons, ih]

/-- Shrinking the items that are kept, and keeping some of the shrunken items. -/
theorem map_retained {values : List Value} (indices : List ℕ) (f : Value → Value) :
    (indices.filterMap fun index => values.attach[index]?).map (fun value => f value.1) =
      indices.filterMap fun index => (values.map f)[index]? := by
  rw [map_filterMap]
  congr 1
  funext index
  rw [getElem?_map]
  conv_rhs => rw [← attach_map_subtype_val values, getElem?_map, Option.map_map]
  rfl

theorem map_taken {fields : List (String × Value)} (n : ℕ)
    (f : String × Value → String × Value) :
    (fields.attach.take n).map (fun field => f field.1) = (fields.map f).take n := by
  rw [map_take, attach_map_val]

theorem returns_shrink (fieldBudget items : ℕ) (value : Value) :
    (shrink inner fieldBudget items value).Returns inner Fits
      (· = Router.shrink fieldBudget items (plain inner) value) := by
  induction value using Value.inductionOnSize with
  | h value ih =>
    cases value with
    | null =>
      rw [shrink, Router.shrink]
      exact rfl
    | bool b =>
      rw [shrink, Router.shrink]
      exact rfl
    | number n =>
      rw [shrink, Router.shrink]
      exact rfl
    | string text =>
      rw [shrink, Router.shrink]
      apply (returns_truncate inner Fits text fieldBudget).bind_eq
      exact rfl
    | array values =>
      rw [shrink, Router.shrink, shrinkItems_eq_map]
      rw [← map_retained]
      apply Returns.bind_eq
      case hf => exact rfl
      apply returns_mapM
      exact fun value _ => ih value.1 (Value.sizeOf_lt_array value.2)
    | object fields =>
      rw [shrink, Router.shrink, shrinkFields_eq_map]
      rw [← map_taken]
      apply Returns.bind_eq
      case hf => exact rfl
      apply returns_mapM
      rintro ⟨⟨key, value⟩, hmem⟩ -
      apply (ih value (Value.sizeOf_lt_object hmem)).bind_eq
      exact rfl

theorem returns_compactLoop (value : Value) (rendered : String) (budget fields items : ℕ) :
    (compactLoop inner value rendered budget fields items).Returns inner Fits
      (· = Router.compactLoop value rendered budget (plain inner) fields items) := by
  induction fields, items using compactLoop.induct with
  | case1 fields items ihFields ihItems =>
    rw [compactLoop, Router.compactLoop]
    apply (returns_shrink inner Fits fields items value).bind_eq
    apply returns_ite_count
    · exact rfl
    split
    · exact ihFields ‹_›
    split
    · exact ihItems ‹_›
    · apply (returns_truncate inner Fits rendered (budget - 48)).bind_eq
      apply (returns_count inner Fits _).bind_eq
      exact rfl

theorem returns_compactJsonUncached (value : Value) (rendered : String) (budget : ℕ) :
    (compactJsonUncached inner value rendered budget).Returns inner Fits
      (· = Router.compactJsonUncached value rendered budget (plain inner)) := by
  have hloop := returns_compactLoop inner Fits value rendered budget 1024 32
  unfold compactJsonUncached Router.compactJsonUncached
  by_cases hshort : Text.byteLength rendered.toList ≤ 65536
  · rw [if_pos hshort]
    simp only [hshort, true_and]
    exact returns_ite_count inner Fits rfl hloop
  · rw [if_neg hshort, if_neg fun h => hshort h.1]
    exact hloop

end Cached

end Router

end OpenBitFun
