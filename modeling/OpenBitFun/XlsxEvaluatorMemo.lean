import OpenBitFun.XlsxEvaluator

/-!
# The evaluator's memo

`evaluate_workbook` finds the values of all formulas with one table. What it holds is the plain
value, in every workbook. It holds every value that is reached through at most `MAX_DEPTH` formulas
exactly when the walk asks for no such cell in more than `MAX_DEPTH` formulas: a cell that is cut
off there stays marked as being in work, and is not evaluated again (`evaluateWorkbook_iff`).
-/

namespace OpenBitFun

open List

namespace Xlsx

variable {F : Type} {floats : Floats F} {unicode : Unicode} {book : XlsxDocument F} {key : Key}
  {stored : Cell F}

/-! ## Formula cells -/

/-- Cells in the order of a `BTreeMap` have different addresses. -/
theorem find?_cells {cells : List (CellRef × Cell F)}
    (hsorted : cells.Pairwise fun a b => a.1 < b.1) {address : CellRef}
    (h : (address, stored) ∈ cells) :
    cells.find? (fun entry => entry.1 == address) = some (address, stored) := by
  induction cells with
  | nil => cases h
  | cons entry cells ih =>
    obtain ⟨hfirst, hsorted⟩ := pairwise_cons.mp hsorted
    obtain rfl | hrest := mem_cons.mp h
    · rw [find?_cons_of_pos (by simp)]
    · have hlt := hfirst _ hrest
      have hne : (entry.1 == address) = false := by
        refine beq_eq_false_iff_ne.mpr fun heq => ?_
        rw [heq] at hlt
        obtain hrow | ⟨-, hcol⟩ := hlt
        · exact Nat.lt_irrefl _ hrow
        · exact Nat.lt_irrefl _ hcol
      rw [find?_cons, hne]
      exact ih hsorted hrest

/-- The stored cell with an address is the one in the sheet. -/
theorem get_eq_some : book.get key = some stored ↔
    ∃ sheet, book.sheets[key.1]? = some sheet ∧ (key.2, stored) ∈ sheet.cells := by
  rw [XlsxDocument.get, XlsxDocument.cells]
  cases hsheet : book.sheets[key.1]? with
  | none => simp
  | some sheet =>
    simp only [Option.elim_some, Option.some_inj, exists_eq_left']
    constructor
    · intro h
      obtain ⟨entry, hfind, rfl⟩ := Option.map_eq_some_iff.mp h
      have haddress : entry.1 = key.2 := by simpa using find?_some hfind
      rw [← haddress]
      exact mem_of_find?_eq_some hfind
    · intro h
      rw [find?_cells sheet.sorted h]
      rfl

/-- The formula cells are those with a formula, so those with a rule. -/
theorem mem_formulaCells {floats : Floats F} {unicode : Unicode} :
    key ∈ formulaCells book ↔ ∃ body, rule floats unicode book key = .inr body := by
  have hformula : key ∈ formulaCells book ↔
      ∃ stored, book.get key = some stored ∧ stored.formula.isSome := by
    simp only [formulaCells, mem_flatMap, mem_map, mem_filter, get_eq_some]
    constructor
    · rintro ⟨⟨sheet, index⟩, hsheet, ⟨address, stored⟩, ⟨hmem, hsome⟩, rfl⟩
      exact ⟨stored, ⟨sheet, mem_zipIdx_iff_getElem?.mp hsheet, hmem⟩, hsome⟩
    · rintro ⟨stored, ⟨sheet, hsheet, hmem⟩, hsome⟩
      exact ⟨(sheet, key.1), mem_zipIdx_iff_getElem?.mpr hsheet, (key.2, stored),
        ⟨hmem, hsome⟩, rfl⟩
  rw [hformula]
  constructor
  · rintro ⟨stored, hget, hsome⟩
    obtain ⟨formula, hformula⟩ := Option.isSome_iff_exists.mp hsome
    rw [rule, hget]
    simp only [hformula]
    exact ⟨_, rfl⟩
  · rintro ⟨body, hbody⟩
    rw [rule] at hbody
    cases hget : book.get key with
    | none =>
      rw [hget] at hbody
      cases hbody
    | some stored =>
      rw [hget] at hbody
      cases hformula : stored.formula with
      | none =>
        simp only [hformula] at hbody
        cases hbody
      | some formula => exact ⟨stored, rfl, by rw [hformula]; rfl⟩

/-! ## The evaluator and plain evaluation -/

variable (floats unicode book) in
/-- The formula cells that the walk asks for inside of more than `MAX_DEPTH` other formulas, before
they are worked out. -/
def cutOff : List Key :=
  Table.walkCuts (rule floats unicode book) maxDepth (formulaCells book) .empty

variable (floats unicode book) in
/-- The evaluator holds every formula cell whose plain evaluation ends with a value within
`MAX_DEPTH` formulas. -/
def HoldsAll : Prop :=
  ∀ key ∈ formulaCells book, ∀ value,
    evaluatePlainly floats unicode book maxDepth key = some value →
      evaluateWorkbook floats unicode book key = some value

/-- **The memoised evaluator agrees with plain evaluation**: every value that it holds is the plain
value, and it holds all values within `MAX_DEPTH` formulas if and only if the walk cuts off none of
their cells. -/
theorem evaluateWorkbook_iff (floats : Floats F) (unicode : Unicode) (book : XlsxDocument F) :
    (∀ key value, evaluateWorkbook floats unicode book key = some value →
      ∃ depth, evaluatePlainly floats unicode book depth key = some value) ∧
    (HoldsAll floats unicode book ↔
      ∀ key ∈ cutOff floats unicode book,
        evaluatePlainly floats unicode book maxDepth key = none) := by
  refine ⟨fun key value h => ?_, ?_⟩
  · have hsound : Table.Sound (rule floats unicode book) (evaluated floats unicode book) :=
      Table.sound_empty.walk _
    exact hsound key value (Option.join_eq_some_iff.mp h)
  · have hcells : ∀ key body, rule floats unicode book key = .inr body → key ∈ formulaCells book :=
      fun key body hrule => mem_formulaCells.mpr ⟨body, hrule⟩
    refine Iff.trans ?_ (Table.holds_iff_cuts hcells)
    constructor
    · intro hall key body value hrule hvalue
      exact Option.join_eq_some_iff.mp (hall key (mem_formulaCells.mpr ⟨body, hrule⟩) value hvalue)
    · intro hall key hkey value hvalue
      obtain ⟨body, hrule⟩ : ∃ body, rule floats unicode book key = .inr body :=
        mem_formulaCells.mp hkey
      exact Option.join_eq_some_iff.mpr (hall key body value hrule hvalue)

/-! ## A chain of formulas -/

/-- Numbers for workbooks without any. -/
def Floats.none : Floats Unit where
  parse _ := Option.none
  ofNat _ := ()
  neg _ := ()
  add _ _ := ()
  sub _ _ := ()
  mul _ _ := ()
  div _ _ := ()
  powf _ _ := ()
  partialCmp _ _ := Option.none
  isFinite _ := true
  abs _ := ()
  trunc _ := ()
  round _ := ()
  ceil _ := ()
  copysign _ _ := ()
  powi10 _ := ()
  sum _ := ()
  product _ := ()
  minimum _ := ()
  maximum _ := ()
  fixed9 _ := []
  scientific14 _ := []
  display _ := []

/-- `A1` refers to `A2`, this to `A3`, and so on up to the last cell, which is `TRUE`. -/
def chainFormula (last i : ℕ) : List Char :=
  if i = last then ['T', 'R', 'U', 'E'] else 'A' :: Nat.toDigits 10 (i + 2)

/-- A sheet with a chain of formulas in its first column. -/
def chainBook (last : ℕ) : XlsxDocument Unit where
  sheets := [{
    name := ['S']
    cells := (List.range (last + 1)).map fun i => (⟨i + 1, 1⟩, ⟨.other, some (chainFormula last i)⟩)
    sorted := by
      rw [pairwise_map]
      exact pairwise_lt_range.imp fun h => Or.inl (Nat.succ_lt_succ h) }]

/-- The expression is a reference to a cell of the same sheet. -/
def Expr.isCell (address : CellRef) : Expr F → Bool
  | .cell none address' => address == address'
  | _ => false

theorem Expr.eq_of_isCell {address : CellRef} {expr : Expr F} (h : expr.isCell address) :
    expr = .cell none address := by
  cases expr with
  | cell sheet address' =>
    cases sheet with
    | none => rw [beq_iff_eq.mp h]
    | some sheet => cases h
  | _ => cases h

theorem rule_chainBook {last i : ℕ} (hi : i ≤ last) :
    rule .none .ascii (chainBook last) (0, ⟨i + 1, 1⟩) =
      .inr (evaluateFormula .none .ascii (chainBook last) 0 (chainFormula last i)) := by
  have hget : (chainBook last).get (0, ⟨i + 1, 1⟩) =
      some ⟨.other, some (chainFormula last i)⟩ := by
    refine get_eq_some.mpr ⟨_, rfl, mem_map.mpr ⟨i, mem_range.mpr ?_, rfl⟩⟩
    omega
  rw [rule, hget]

/-- **A cell of the chain is not held**: the walk begins with `A1`, and cuts off the last cell,
which is `TRUE` by itself. -/
theorem holdsAll_fails : ¬∀ book : XlsxDocument Unit, HoldsAll .none .ascii book := by
  intro hall
  have hrefs : ((List.range 257).all fun i =>
      (parse .none .ascii (chainFormula 257 i)).any (Expr.isCell ⟨i + 2, 1⟩)) = true := by
    decide +kernel
  have hrule : ∀ i, i < 257 → rule .none .ascii (chainBook 257) (0, ⟨i + 1, 1⟩) =
      .inr (.ask (0, ⟨i + 1 + 1, 1⟩) .done) := by
    intro i hi
    have href := all_eq_true.mp hrefs i (mem_range.mpr hi)
    rw [rule_chainBook (Nat.le_of_lt hi), evaluateFormula]
    cases hparse : parse .none .ascii (chainFormula 257 i) with
    | none =>
      rw [hparse] at href
      cases href
    | some expr =>
      rw [hparse] at href
      rw [Expr.eq_of_isCell href]
      rfl
  have htrue : parse .none .ascii (chainFormula 257 257) = some (.bool true) := rfl
  have hlast : rule .none .ascii (chainBook 257) (0, ⟨258, 1⟩) = .inr (.done (.bool true)) := by
    rw [rule_chainBook (Nat.le_refl 257), evaluateFormula, htrue]
    rfl
  have hcut := Table.mem_cuts_chain (c := fun i => ((0, ⟨i + 1, 1⟩) : Key)) 257
    (fun i j hij _ heq => by
      simp only [Prod.mk.injEq, CellRef.mk.injEq] at heq
      omega) hrule hlast 257 0 .empty rfl (fun _ => rfl) (fun j _ _ => Finset.notMem_empty _)
  have hcells : formulaCells (chainBook 257) =
      (0, ⟨1, 1⟩) :: (formulaCells (chainBook 257)).tail := rfl
  have hstuck : Table.Stuck (rule .none .ascii (chainBook 257)) (0, ⟨258, 1⟩)
      (evaluated .none .ascii (chainBook 257)) := by
    refine Table.stuck_of_mem_walkCuts _ ?_
    rw [hcells]
    exact mem_append_left _ hcut
  have hheld := hall (chainBook 257) (0, ⟨258, 1⟩) (mem_formulaCells.mpr ⟨_, hlast⟩) (.bool true)
    (plain_succ hlast)
  rw [evaluateWorkbook, hstuck.2.2] at hheld
  cases hheld

end Xlsx

end OpenBitFun
