import OpenBitFun.XlsxFormulaScan

/-!
# References after a deletion

When rows or columns are deleted, what a reference denotes moves (`Deletion.Moves`). A reference
whose corners are in order is rewritten to what has become of its cells, and to `#REF!` when there
is nothing left of them; a range whose corners are the other way round becomes `#REF!` always. A
reference to another sheet is written again, without the zeros in front of its rows. Everything
else is copied, so the rewriting is as it should be exactly when no such range loses cells and no
such zeros are there (`shiftsWell_iff`).
-/

namespace OpenBitFun

open List

namespace Xlsx

namespace Formula

variable {unicode : Unicode} {text digits : List Char} {part first : Part} {second : Option Part}
  {reference : Reference} {axis : Axis} {x y a b : ℕ}

/-! ## What is deleted -/

/-- Rows or columns of a sheet that are deleted: some, and all on the sheet. -/
structure Deletion where
  sheet : List Char
  axis : Axis
  start : ℕ
  count : ℕ
  start_pos : 1 ≤ start
  count_pos : 1 ≤ count
  inside : start + count - 1 ≤ axis.limit

/-- The deletion as a shift. -/
def Deletion.shift (deletion : Deletion) : Shift :=
  ⟨deletion.sheet, deletion.axis, deletion.start, -(deletion.count : ℤ)⟩

@[simp] theorem axis_shift (deletion : Deletion) : deletion.shift.axis = deletion.axis := rfl

/-- The row or column of a cell. -/
def CellRef.coordinate (cell : CellRef) : Axis → ℕ
  | .row => cell.row
  | .column => cell.col

/-- Where a row or column is after the deletion; those deleted are nowhere. -/
def Deletion.index (deletion : Deletion) (x : ℕ) : Option ℕ :=
  if x < deletion.start then some x
  else if x < deletion.start + deletion.count then none
  else some (x - deletion.count)

/-- The cell survives the deletion and is the other cell afterwards. -/
structure Deletion.Moves (deletion : Deletion) (cell cell' : CellRef) : Prop where
  moved : deletion.index (CellRef.coordinate cell deletion.axis) =
    some (CellRef.coordinate cell' deletion.axis)
  kept : ∀ axis, axis ≠ deletion.axis →
    CellRef.coordinate cell' axis = CellRef.coordinate cell axis

/-! ## What a reference denotes -/

/-- Corners of the kind have a coordinate on the axis. -/
def PartKind.has : PartKind → Axis → Bool
  | .cell, _ => true
  | .column, .column => true
  | .row, .row => true
  | _, _ => false

/-- The last corner of a reference; a single one is both. -/
def Reference.last (reference : Reference) : Part := reference.second.getD reference.first

/-- The reference goes over a row or column. Whole rows go over all columns, and whole columns over
all rows. -/
def Reference.Spans (reference : Reference) (axis : Axis) (x : ℕ) : Prop :=
  reference.first.kind.has axis →
    min (reference.first.coordinate axis) (reference.last.coordinate axis) ≤ x ∧
      x ≤ max (reference.first.coordinate axis) (reference.last.coordinate axis)

/-- The cells that a reference denotes. -/
def Reference.Covers (reference : Reference) (cell : CellRef) : Prop :=
  ∀ axis, 1 ≤ CellRef.coordinate cell axis ∧ reference.Spans axis (CellRef.coordinate cell axis)

/-- The corners of a reference are the other way round on an axis. -/
def Reference.Reversed (reference : Reference) (axis : Axis) : Prop :=
  reference.first.kind.has axis ∧ reference.last.coordinate axis < reference.first.coordinate axis

/-- All rows or columns between the corners are deleted. -/
def Reference.Gone (reference : Reference) (deletion : Deletion) : Prop :=
  reference.first.kind.has deletion.axis ∧
    deletion.start ≤ min (reference.first.coordinate deletion.axis)
      (reference.last.coordinate deletion.axis) ∧
    max (reference.first.coordinate deletion.axis) (reference.last.coordinate deletion.axis) <
      deletion.start + deletion.count

/-! ## One coordinate -/

variable {deletion : Deletion}

theorem shiftIndex_deletion (value : ℕ) (stop : End) :
    shiftIndex value deletion.shift stop =
      if value < deletion.start then some value
      else if deletion.start + deletion.count ≤ value then some (value - deletion.count)
      else match stop with
        | .single => none
        | .start => some deletion.start
        | .finish => if 1 < deletion.start then some (deletion.start - 1) else none := by
  have hneg : ¬(0 : ℤ) ≤ deletion.shift.delta := by
    have hpos := deletion.count_pos
    simp only [Deletion.shift]
    omega
  have hcount : (-deletion.shift.delta).toNat = deletion.count := by
    simp only [Deletion.shift]
    omega
  have hlast : deletion.start + deletion.count - 1 < value ↔
      deletion.start + deletion.count ≤ value := by
    have hpos := deletion.count_pos
    omega
  rw [shiftIndex.eq_def, if_neg hneg, hcount]
  by_cases h : value < deletion.start
  · rw [if_pos h]
    exact if_pos h
  · rw [if_neg h]
    refine (if_neg h).trans ?_
    by_cases h' : deletion.start + deletion.count ≤ value
    · rw [if_pos h']
      exact if_pos (hlast.mpr h')
    · rw [if_neg h']
      exact if_neg fun hlt => h' (hlast.mp hlt)

theorem shift_lone (value : ℕ) :
    shiftIndex value deletion.shift .single = deletion.index value := by
  rw [shiftIndex_deletion, Deletion.index]
  by_cases h : value < deletion.start
  · rw [if_pos h, if_pos h]
  · rw [if_neg h, if_neg h]
    by_cases h' : value < deletion.start + deletion.count
    · rw [if_pos h', if_neg (by omega)]
    · rw [if_neg h', if_pos (by omega)]

/-- An index that is not deleted comes from one before. -/
theorem exists_index (deletion : Deletion) (hy : 1 ≤ y) :
    ∃ x, 1 ≤ x ∧ deletion.index x = some y := by
  by_cases h : y < deletion.start
  · exact ⟨y, hy, by rw [Deletion.index, if_pos h]⟩
  · refine ⟨y + deletion.count, by omega, ?_⟩
    rw [Deletion.index, if_neg (by omega), if_neg (by omega), Nat.add_sub_cancel]

theorem index_eq_some : deletion.index x = some y ↔
    x < deletion.start ∧ y = x ∨
      deletion.start + deletion.count ≤ x ∧ y + deletion.count = x := by
  rw [Deletion.index]
  by_cases h : x < deletion.start
  · rw [if_pos h, Option.some_inj]
    omega
  · rw [if_neg h]
    by_cases h' : x < deletion.start + deletion.count
    · rw [if_pos h']
      simp only [reduceCtorEq, false_iff]
      omega
    · rw [if_neg h', Option.some_inj]
      omega

theorem index_eq_none :
    deletion.index x = none ↔ deletion.start ≤ x ∧ x < deletion.start + deletion.count := by
  rw [Deletion.index]
  by_cases h : x < deletion.start
  · rw [if_pos h]
    simp only [reduceCtorEq, false_iff]
    omega
  · rw [if_neg h]
    by_cases h' : x < deletion.start + deletion.count
    · rw [if_pos h']
      simp only [true_iff]
      omega
    · rw [if_neg h']
      simp only [reduceCtorEq, false_iff]
      omega

/-- What remains of the indices from `a` to `b`. -/
theorem exists_index_between : (∃ x, (a ≤ x ∧ x ≤ b) ∧ deletion.index x = some y) ↔
    y < deletion.start ∧ a ≤ y ∧ y ≤ b ∨
      deletion.start ≤ y ∧ a ≤ y + deletion.count ∧ y + deletion.count ≤ b := by
  simp only [index_eq_some]
  constructor
  · rintro ⟨x, hx, hxy⟩
    omega
  · rintro (h | h)
    · exact ⟨y, by omega, by omega⟩
    · exact ⟨y + deletion.count, by omega, by omega⟩

/-- Where the first corner of a range goes: from deleted indices to the next one left. -/
theorem shift_start {a' : ℕ} : shiftIndex a deletion.shift .start = some a' ↔
    a < deletion.start ∧ a' = a ∨
      deletion.start ≤ a ∧ a < deletion.start + deletion.count ∧ a' = deletion.start ∨
      deletion.start + deletion.count ≤ a ∧ a' + deletion.count = a := by
  rw [shiftIndex_deletion]
  by_cases h : a < deletion.start
  · rw [if_pos h, Option.some_inj]
    omega
  · rw [if_neg h]
    by_cases h' : deletion.start + deletion.count ≤ a
    · rw [if_pos h', Option.some_inj]
      omega
    · rw [if_neg h', Option.some_inj]
      omega

/-- Where the last corner of a range goes: from deleted indices to the one in front of them. -/
theorem shift_finish {b' : ℕ} : shiftIndex b deletion.shift .finish = some b' ↔
    b < deletion.start ∧ b' = b ∨
      deletion.start ≤ b ∧ b < deletion.start + deletion.count ∧ 1 ≤ b' ∧
        b' + 1 = deletion.start ∨
      deletion.start + deletion.count ≤ b ∧ b' + deletion.count = b := by
  rw [shiftIndex_deletion]
  by_cases h : b < deletion.start
  · rw [if_pos h, Option.some_inj]
    omega
  · rw [if_neg h]
    by_cases h' : deletion.start + deletion.count ≤ b
    · rw [if_pos h', Option.some_inj]
      omega
    · rw [if_neg h']
      by_cases hone : 1 < deletion.start
      · simp only [if_pos hone, Option.some_inj]
        omega
      · simp only [if_neg hone, reduceCtorEq, false_iff]
        omega

/-- **A range in order** that is not deleted as a whole keeps its corners in order, and they bound
what remains of it. -/
theorem shift_range (hle : a ≤ b) (hpos : 1 ≤ a)
    (hleft : ¬(deletion.start ≤ a ∧ b < deletion.start + deletion.count)) :
    ∃ a' b', shiftIndex a deletion.shift .start = some a' ∧
      shiftIndex b deletion.shift .finish = some b' ∧ a' ≤ b' ∧ 1 ≤ a' ∧ b' ≤ b ∧
      ∀ y, a' ≤ y ∧ y ≤ b' ↔ ∃ x, (a ≤ x ∧ x ≤ b) ∧ deletion.index x = some y := by
  have hstart := deletion.start_pos
  have hcount := deletion.count_pos
  simp only [exists_index_between, shift_start, shift_finish]
  obtain ⟨a', ha'⟩ : ∃ a', a < deletion.start ∧ a' = a ∨
      deletion.start ≤ a ∧ a < deletion.start + deletion.count ∧ a' = deletion.start ∨
      deletion.start + deletion.count ≤ a ∧ a' + deletion.count = a :=
    ⟨if a < deletion.start then a
      else if deletion.start + deletion.count ≤ a then a - deletion.count else deletion.start,
      by split_ifs <;> omega⟩
  obtain ⟨b', hb'⟩ : ∃ b', b < deletion.start ∧ b' = b ∨
      deletion.start ≤ b ∧ b < deletion.start + deletion.count ∧ 1 ≤ b' ∧
        b' + 1 = deletion.start ∨
      deletion.start + deletion.count ≤ b ∧ b' + deletion.count = b :=
    ⟨if b < deletion.start then b
      else if deletion.start + deletion.count ≤ b then b - deletion.count
      else deletion.start - 1, by split_ifs <;> omega⟩
  exact ⟨a', b', ha', hb', by omega, by omega, by omega, fun y => by omega⟩

/-- A range that is deleted as a whole, or is the other way round, cannot keep its corners in
order. -/
theorem shift_unordered {a' b' : ℕ}
    (hcase : b < a ∨ deletion.start ≤ a ∧ b < deletion.start + deletion.count)
    (ha : shiftIndex a deletion.shift .start = some a')
    (hb : shiftIndex b deletion.shift .finish = some b') : ¬a' ≤ b' := by
  have hcount := deletion.count_pos
  have ha' := shift_start.mp ha
  have hb' := shift_finish.mp hb
  omega

/-! ## Corners -/

/-- The corner with another coordinate. -/
def Part.setCoordinate (part : Part) (axis : Axis) (x : ℕ) : Part :=
  match axis with
  | .row => { part with row := x }
  | .column => { part with col := x }

@[simp] theorem kind_setCoordinate (part : Part) (axis : Axis) (x : ℕ) :
    (part.setCoordinate axis x).kind = part.kind := by
  cases axis <;> rfl

@[simp] theorem coordinate_setCoordinate (part : Part) (axis : Axis) (x : ℕ) :
    (part.setCoordinate axis x).coordinate axis = x := by
  cases axis <;> rfl

theorem coordinate_setCoordinate_of_ne (part : Part) {axis axis' : Axis} (h : axis ≠ axis')
    (x : ℕ) : (part.setCoordinate axis' x).coordinate axis = part.coordinate axis := by
  cases axis <;> cases axis' <;> first | rfl | exact absurd rfl h

theorem shiftPart_eq (part : Part) (shift : Shift) (stop : End) :
    shiftPart part shift stop =
      if part.kind.has shift.axis then
        (shiftIndex (part.coordinate shift.axis) shift stop).map (part.setCoordinate shift.axis)
      else some part := by
  obtain ⟨kind, colAbs, col, rowAbs, row⟩ := part
  obtain ⟨sheet, axis, start, delta⟩ := shift
  cases axis <;> cases kind <;> rfl

/-- A corner's coordinates are on the sheet; the one it does not have is zero. -/
theorem Part.Valid.coordinate (h : part.Valid) (axis : Axis) :
    if part.kind.has axis then 1 ≤ part.coordinate axis ∧ part.coordinate axis ≤ axis.limit
    else part.coordinate axis = 0 := by
  obtain ⟨kind, colAbs, col, rowAbs, row⟩ := part
  cases kind <;> cases axis
  · exact h.2.2
  · exact ⟨h.1, h.2.1⟩
  · exact h.2.2.2
  · exact ⟨h.1, h.2.1⟩
  · exact ⟨h.1, h.2.1⟩
  · exact h.2.2.2

theorem Part.Valid.setCoordinate (h : part.Valid) (hkind : part.kind.has axis) (hpos : 1 ≤ x)
    (hle : x ≤ axis.limit) : (part.setCoordinate axis x).Valid := by
  obtain ⟨kind, colAbs, col, rowAbs, row⟩ := part
  cases kind <;> cases axis
  · exact ⟨h.1, h.2.1, hpos, hle⟩
  · exact ⟨hpos, hle, h.2.2⟩
  · cases hkind
  · exact ⟨hpos, hle, h.2.2⟩
  · exact ⟨hpos, hle, h.2.2⟩
  · cases hkind

/-! ## References -/

/-- A reference whose corners are on the sheet and of one kind; whole rows and columns come as
ranges. -/
structure Reference.Valid (reference : Reference) : Prop where
  first : reference.first.Valid
  last : reference.last.Valid
  kind : reference.last.kind = reference.first.kind
  ranged : reference.first.kind ≠ .cell → reference.second.isSome

theorem ReadsReference.valid {raw : List Char} (h : ReadsReference unicode raw reference) :
    reference.Valid := by
  obtain ⟨start, sheet, first, second⟩ := reference
  obtain ⟨text, -, ⟨hranged, hcorners⟩, -⟩ := h
  cases second with
  | none => exact ⟨ReadsPart.valid hcorners, ReadsPart.valid hcorners, rfl, hranged⟩
  | some second =>
    obtain ⟨front, back, -, hfront, hback, hkind⟩ := hcorners
    exact ⟨hfront.valid, hback.valid, hkind, hranged⟩

/-- A reference is read back when its corners are replaced by others of the same kind. -/
theorem ReadsReference.render {raw : List Char} (h : ReadsReference unicode raw reference)
    {reference' : Reference} (hbegin : reference'.sheetPrefix = reference.sheetPrefix)
    (hsheet : reference'.sheet = reference.sheet) (hvalid : reference'.Valid) :
    ReadsReference unicode reference'.render reference' := by
  obtain ⟨-, -, -, hstart⟩ := h
  rw [← hbegin, ← hsheet] at hstart
  obtain ⟨start, sheet, first, second⟩ := reference'
  obtain ⟨hfirst, hlast, hkind, hranged⟩ := hvalid
  refine ⟨first.render ++ second.elim [] fun second => ':' :: second.render,
    by rw [Reference.render, append_assoc], ⟨hranged, ?_⟩, hstart⟩
  cases second with
  | none =>
    rw [Option.elim_none, append_nil]
    exact readsPart_render hfirst
  | some second => exact ⟨_, _, rfl, readsPart_render hfirst, readsPart_render hlast, hkind⟩

/-- The corners of a reference are written without `#`. -/
theorem ReadsReference.ne_refError {raw : List Char} (h : ReadsReference unicode raw reference) :
    raw ≠ reference.sheetPrefix.getD [] ++ refError := by
  obtain ⟨text, rfl, hcorners, -⟩ := h
  intro heq
  have hmem : '#' ∈ text := by
    rw [append_cancel_left heq]
    decide
  exact absurd (hcorners.isCornerChar _ hmem) (by decide)

/-- The cell with these coordinates. -/
def cellOf (coordinate : Axis → ℕ) : CellRef := ⟨coordinate .row, coordinate .column⟩

@[simp] theorem coordinate_cellOf (coordinate : Axis → ℕ) (axis : Axis) :
    CellRef.coordinate (cellOf coordinate) axis = coordinate axis := by
  cases axis <;> rfl

/-- A reference denotes what has become of the cells of another one if this holds on the axis of the
deletion, and the other axis is the same. -/
theorem covers_iff_moves {reference reference' : Reference}
    (hother : ∀ axis, axis ≠ deletion.axis → ∀ x, reference'.Spans axis x ↔ reference.Spans axis x)
    (haxis : ∀ y, 1 ≤ y → (reference'.Spans deletion.axis y ↔
      ∃ x, 1 ≤ x ∧ reference.Spans deletion.axis x ∧ deletion.index x = some y)) (cell' : CellRef) :
    reference'.Covers cell' ↔ ∃ cell, reference.Covers cell ∧ deletion.Moves cell cell' := by
  refine ⟨fun hcovers => ?_, ?_⟩
  · obtain ⟨hpos, hspans⟩ := hcovers deletion.axis
    obtain ⟨x, hx, hx', hindex⟩ := (haxis _ hpos).mp hspans
    have hcell := coordinate_cellOf
      (fun axis => if axis = deletion.axis then x else CellRef.coordinate cell' axis) deletion.axis
    rw [if_pos rfl] at hcell
    refine ⟨cellOf fun axis => if axis = deletion.axis then x else CellRef.coordinate cell' axis,
      fun axis => ?_, ⟨by rw [hcell, hindex], fun axis hne => ?_⟩⟩
    · by_cases heq : axis = deletion.axis
      · rw [heq, hcell]
        exact ⟨hx, hx'⟩
      · rw [coordinate_cellOf, if_neg heq]
        exact ⟨(hcovers axis).1, (hother axis heq _).mp (hcovers axis).2⟩
    · rw [coordinate_cellOf, if_neg hne]
  · rintro ⟨cell, hcovers, hmoves⟩ axis
    by_cases heq : axis = deletion.axis
    · subst heq
      obtain ⟨hpos, hspans⟩ := hcovers deletion.axis
      have hpos' : 1 ≤ CellRef.coordinate cell' deletion.axis := by
        have hindex := index_eq_some.mp hmoves.moved
        have hstart := deletion.start_pos
        omega
      exact ⟨hpos', (haxis _ hpos').mpr ⟨_, hpos, hspans, hmoves.moved⟩⟩
    · rw [hmoves.kept axis heq]
      exact ⟨(hcovers axis).1, (hother axis heq _).mpr (hcovers axis).2⟩

/-- Cells of a reference survive unless all between its corners are deleted. -/
theorem survives_iff (hvalid : reference.Valid) :
    (∃ cell cell', reference.Covers cell ∧ deletion.Moves cell cell') ↔
      ¬reference.Gone deletion := by
  have hcount := deletion.count_pos
  have hstart := deletion.start_pos
  refine ⟨?_, fun hleft => ?_⟩
  · rintro ⟨cell, cell', hcovers, hmoves⟩ ⟨hkind, hlow, hhigh⟩
    have hspans := (hcovers deletion.axis).2 hkind
    have hindex := index_eq_some.mp hmoves.moved
    omega
  -- On each axis there is a coordinate of the reference that survives.
  have hpick : ∀ axis, ∃ x, 1 ≤ x ∧ reference.Spans axis x ∧
      (axis = deletion.axis → ∃ y, deletion.index x = some y) := by
    intro axis
    by_cases hkind : reference.first.kind.has axis
    · have hfirst := hvalid.first.coordinate axis
      have hlast := hvalid.last.coordinate axis
      rw [hvalid.kind, if_pos hkind] at hlast
      rw [if_pos hkind] at hfirst
      by_cases heq : axis = deletion.axis
      · subst heq
        have hleft' : ¬(deletion.start ≤ min (reference.first.coordinate deletion.axis)
            (reference.last.coordinate deletion.axis) ∧
            max (reference.first.coordinate deletion.axis)
              (reference.last.coordinate deletion.axis) < deletion.start + deletion.count) :=
          fun hgone => hleft ⟨hkind, hgone⟩
        by_cases hlow : min (reference.first.coordinate deletion.axis)
            (reference.last.coordinate deletion.axis) < deletion.start
        · refine ⟨_, ?_, fun _ => ⟨le_refl _, by omega⟩,
            fun _ => ⟨_, index_eq_some.mpr (.inl ⟨hlow, rfl⟩)⟩⟩
          omega
        · refine ⟨max (reference.first.coordinate deletion.axis)
            (reference.last.coordinate deletion.axis), by omega,
            fun _ => ⟨by omega, le_refl _⟩, fun _ => ⟨_, index_eq_some.mpr (.inr ⟨?_,
              Nat.sub_add_cancel (m := deletion.count) ?_⟩)⟩⟩
          · omega
          · omega
      · exact ⟨reference.first.coordinate axis, hfirst.1, fun _ => by omega,
          fun h => absurd h heq⟩
    · obtain ⟨x, hx, hindex⟩ := exists_index deletion (le_refl 1)
      exact ⟨x, hx, fun h => absurd h hkind, fun _ => ⟨1, hindex⟩⟩
  choose pick hpos hspans hindex using hpick
  obtain ⟨y, hy⟩ := hindex deletion.axis rfl
  refine ⟨cellOf pick, cellOf fun axis => if axis = deletion.axis then y else pick axis,
    fun axis => ?_, ⟨?_, fun axis hne => ?_⟩⟩
  · rw [coordinate_cellOf]
    exact ⟨hpos axis, hspans axis⟩
  · rw [coordinate_cellOf, coordinate_cellOf, if_pos rfl, hy]
  · rw [coordinate_cellOf, coordinate_cellOf, if_neg hne]

/-- The reference is another one after the deletion: it has the same prefix, and goes over what is
left of the rows and columns. -/
structure Shifted (deletion : Deletion) (reference reference' : Reference) : Prop where
  sheetPrefix : reference'.sheetPrefix = reference.sheetPrefix
  sheet : reference'.sheet = reference.sheet
  valid : reference'.Valid
  other : ∀ axis, axis ≠ deletion.axis → ∀ x, reference'.Spans axis x ↔ reference.Spans axis x
  axis : ∀ y, 1 ≤ y → (reference'.Spans deletion.axis y ↔
    ∃ x, 1 ≤ x ∧ reference.Spans deletion.axis x ∧ deletion.index x = some y)

/-- A reference is lost if its corners are the other way round, or if nothing is left between them;
otherwise it is shifted. -/
def ShiftsTo (deletion : Deletion) (reference : Reference) : Option Reference → Prop
  | none => reference.Reversed deletion.axis ∨ reference.Gone deletion
  | some reference' =>
    ¬(reference.Reversed deletion.axis ∨ reference.Gone deletion) ∧
      Shifted deletion reference reference'

variable {start sheet : Option (List Char)} {last : Part}

/-- A reference without a coordinate on the axis stays as it is. -/
theorem shiftsTo_self (hvalid : reference.Valid)
    (hkind : ¬reference.first.kind.has deletion.axis) :
    ShiftsTo deletion reference (shiftReference reference deletion.shift) := by
  have hlast := hvalid.last.coordinate deletion.axis
  have hfirst := hvalid.first.coordinate deletion.axis
  rw [hvalid.kind, if_neg hkind] at hlast
  rw [if_neg hkind] at hfirst
  have hsame : shiftReference reference deletion.shift = some reference := by
    obtain ⟨start, sheet, first, second⟩ := reference
    cases second with
    | none =>
      refine absurd (hvalid.ranged fun h => hkind ?_) Bool.false_ne_true
      rw [h]
      rfl
    | some last =>
      replace hkind : ¬first.kind.has deletion.axis := hkind
      have hkind' : ¬last.kind.has deletion.axis := by
        rw [show last.kind = first.kind from hvalid.kind]
        exact hkind
      have hle : first.coordinate deletion.axis ≤ last.coordinate deletion.axis :=
        le_of_eq (hfirst.trans hlast.symm)
      simp only [shiftReference, shiftPart_eq, axis_shift, hkind, hkind', ↓reduceIte,
        Option.bind_some, hle, Bool.false_eq_true]
  rw [hsame]
  refine ⟨?_, rfl, rfl, hvalid, fun _ _ _ => Iff.rfl, fun y hy => ⟨fun _ => ?_, fun _ h => ?_⟩⟩
  · rintro (⟨h, -⟩ | ⟨h, -⟩) <;> exact hkind h
  · obtain ⟨x, hx, hindex⟩ := exists_index deletion hy
    exact ⟨x, hx, fun h => absurd h hkind, hindex⟩
  · exact absurd h hkind

theorem shiftsTo_single (hvalid : Reference.Valid ⟨start, sheet, first, none⟩)
    (hkind : first.kind.has deletion.axis) :
    ShiftsTo deletion ⟨start, sheet, first, none⟩
      (shiftReference ⟨start, sheet, first, none⟩ deletion.shift) := by
  have hbound : if first.kind.has deletion.axis then
      1 ≤ first.coordinate deletion.axis ∧ first.coordinate deletion.axis ≤ deletion.axis.limit
      else first.coordinate deletion.axis = 0 :=
    hvalid.first.coordinate _
  rw [if_pos hkind] at hbound
  have hshift : shiftReference ⟨start, sheet, first, none⟩ deletion.shift =
      (deletion.index (first.coordinate deletion.axis)).map fun x =>
        ⟨start, sheet, first.setCoordinate deletion.axis x, none⟩ := by
    simp only [shiftReference, shiftPart_eq, axis_shift, hkind, ↓reduceIte, shift_lone,
      Option.map_map]
    rfl
  have hself (x : ℕ) : min x x = x ∧ max x x = x := by omega
  rw [hshift]
  cases hindex : deletion.index (first.coordinate deletion.axis) with
  | none =>
    obtain ⟨hlow, hhigh⟩ := index_eq_none.mp hindex
    refine .inr ⟨hkind, ?_, ?_⟩
    · exact le_of_le_of_eq hlow (hself _).1.symm
    · exact lt_of_eq_of_lt (hself _).2 hhigh
  | some y =>
    have hcases := index_eq_some.mp hindex
    have hstart := deletion.start_pos
    have hvalid' : (first.setCoordinate deletion.axis y).Valid :=
      hvalid.first.setCoordinate hkind (by omega) (by omega)
    refine ⟨?_, rfl, rfl, ⟨hvalid', hvalid', rfl, ?_⟩, fun axis hne x => ?_, fun y' hy' => ?_⟩
    · rintro (⟨-, hlt⟩ | ⟨-, hlow, hhigh⟩)
      · exact lt_irrefl _ hlt
      · have hlow' : deletion.start ≤ first.coordinate deletion.axis :=
          le_of_le_of_eq hlow (hself _).1
        have hhigh' : first.coordinate deletion.axis < deletion.start + deletion.count :=
          lt_of_eq_of_lt (hself _).2.symm hhigh
        omega
    · intro hne
      exact hvalid.ranged fun h => hne ((kind_setCoordinate _ _ _).trans h)
    · simp only [Reference.Spans, Reference.last, Option.getD_none, kind_setCoordinate,
        coordinate_setCoordinate_of_ne _ hne]
    · simp only [Reference.Spans, Reference.last, Option.getD_none, kind_setCoordinate,
        coordinate_setCoordinate, hself, hkind, true_implies]
      refine ⟨fun h => ⟨first.coordinate deletion.axis, hbound.1, ⟨le_refl _, le_refl _⟩, ?_⟩, ?_⟩
      · rw [hindex, le_antisymm h.1 h.2]
      · rintro ⟨x, -, hx, hindex'⟩
        rw [← le_antisymm hx.1 hx.2, hindex] at hindex'
        obtain rfl := Option.some.inj hindex'
        exact ⟨le_refl _, le_refl _⟩

/-- A range keeps what is left between its corners, if these are in order. -/
theorem shiftsTo_range (hvalid : Reference.Valid ⟨start, sheet, first, some last⟩)
    (hkind : first.kind.has deletion.axis) :
    ShiftsTo deletion ⟨start, sheet, first, some last⟩
      (shiftReference ⟨start, sheet, first, some last⟩ deletion.shift) := by
  have hfirst : if first.kind.has deletion.axis then
      1 ≤ first.coordinate deletion.axis ∧ first.coordinate deletion.axis ≤ deletion.axis.limit
      else first.coordinate deletion.axis = 0 :=
    hvalid.first.coordinate _
  have hlast : if last.kind.has deletion.axis then
      1 ≤ last.coordinate deletion.axis ∧ last.coordinate deletion.axis ≤ deletion.axis.limit
      else last.coordinate deletion.axis = 0 :=
    hvalid.last.coordinate _
  have hsame : last.kind = first.kind := hvalid.kind
  have hkind' : last.kind.has deletion.axis := by rw [hsame]; exact hkind
  rw [if_pos hkind'] at hlast
  rw [if_pos hkind] at hfirst
  have hshift : shiftReference ⟨start, sheet, first, some last⟩ deletion.shift =
      (shiftIndex (first.coordinate deletion.axis) deletion.shift .start).bind fun a =>
        (shiftIndex (last.coordinate deletion.axis) deletion.shift .finish).bind fun b =>
          if a ≤ b then some ⟨start, sheet, first.setCoordinate deletion.axis a,
            some (last.setCoordinate deletion.axis b)⟩ else none := by
    simp only [shiftReference, shiftPart_eq, axis_shift, hkind, hkind', ↓reduceIte,
      Option.bind_map, Function.comp_def, coordinate_setCoordinate]
  rw [hshift]
  by_cases hlost : last.coordinate deletion.axis < first.coordinate deletion.axis ∨
      deletion.start ≤ first.coordinate deletion.axis ∧
        last.coordinate deletion.axis < deletion.start + deletion.count
  · have hnone : ((shiftIndex (first.coordinate deletion.axis) deletion.shift .start).bind fun a =>
        (shiftIndex (last.coordinate deletion.axis) deletion.shift .finish).bind fun b =>
          if a ≤ b then some (⟨start, sheet, first.setCoordinate deletion.axis a,
            some (last.setCoordinate deletion.axis b)⟩ : Reference) else none) = none := by
      simp only [Option.bind_eq_none_iff]
      exact fun a ha b hb => if_neg (shift_unordered hlost ha hb)
    rw [hnone]
    by_cases hlt : last.coordinate deletion.axis < first.coordinate deletion.axis
    · exact .inl ⟨hkind, hlt⟩
    · obtain ⟨hlow, hhigh⟩ := hlost.resolve_left hlt
      refine .inr ⟨hkind, ?_, ?_⟩
      · exact le_min hlow (hlow.trans (not_lt.mp hlt))
      · exact max_lt ((not_lt.mp hlt).trans_lt hhigh) hhigh
  · obtain ⟨hle, hleft⟩ := not_or.mp hlost
    obtain ⟨a, b, ha, hb, hab, hpos, hlimit, hspans⟩ :=
      shift_range (not_lt.mp hle) hfirst.1 hleft
    rw [ha, hb, Option.bind_some, Option.bind_some, if_pos hab]
    refine ⟨?_, rfl, rfl, ⟨?_, ?_, ?_, fun _ => rfl⟩, fun axis hne x => ?_, fun y hy => ?_⟩
    · rintro (⟨-, hlt⟩ | ⟨-, hlow, hhigh⟩)
      · exact hle hlt
      · exact hleft ⟨hlow.trans (min_le_left _ _), (le_max_right _ _).trans_lt hhigh⟩
    · exact hvalid.first.setCoordinate hkind hpos (by omega)
    · exact hvalid.last.setCoordinate hkind' (by omega) (by omega)
    · simpa only [Reference.last, Option.getD_some, kind_setCoordinate] using hsame
    · simp only [Reference.Spans, Reference.last, Option.getD_some, kind_setCoordinate,
        coordinate_setCoordinate_of_ne _ hne]
    · simp only [Reference.Spans, Reference.last, Option.getD_some, kind_setCoordinate,
        coordinate_setCoordinate, hkind, true_implies, min_eq_left hab, max_eq_right hab,
        min_eq_left (not_lt.mp hle), max_eq_right (not_lt.mp hle), hspans]
      refine ⟨?_, ?_⟩
      · rintro ⟨x, hx, hindex⟩
        exact ⟨x, hfirst.1.trans hx.1, hx, hindex⟩
      · rintro ⟨x, -, hx, hindex⟩
        exact ⟨x, hx, hindex⟩

/-- **A reference after the deletion.** -/
theorem shiftsTo (deletion : Deletion) (hvalid : reference.Valid) :
    ShiftsTo deletion reference (shiftReference reference deletion.shift) := by
  by_cases hkind : reference.first.kind.has deletion.axis
  · obtain ⟨start, sheet, first, second⟩ := reference
    cases second with
    | none => exact shiftsTo_single hvalid hkind
    | some last => exact shiftsTo_range hvalid hkind
  · exact shiftsTo_self hvalid hkind

/-! ## References that are written again -/

/-- There is a zero in front of a number. -/
def zeroPadded : (digit : Bool) → List Char → Bool
  | _, [] => false
  | digit, c :: rest => (!digit && c == '0') || zeroPadded (isAsciiDigit c) rest

theorem zeroPadded_append (digit : Bool) (front back : List Char) :
    zeroPadded digit (front ++ back) =
      (zeroPadded digit front || zeroPadded (front.getLast?.elim digit isAsciiDigit) back) := by
  induction front generalizing digit with
  | nil => rfl
  | cons c front ih =>
    rw [cons_append, zeroPadded, zeroPadded, ih, Bool.or_assoc]
    cases front with
    | nil => rfl
    | cons d front => rfl

theorem zeroPadded_of_no_digits (h : ∀ c ∈ text, isAsciiDigit c = false) (digit : Bool) :
    zeroPadded digit text = false := by
  induction text generalizing digit with
  | nil => rfl
  | cons c text ih =>
    obtain ⟨hc, htext⟩ := forall_mem_cons.mp h
    have hne : (c == '0') = false := by
      refine beq_eq_false_iff_ne.mpr ?_
      rintro rfl
      exact absurd hc (by decide)
    rw [zeroPadded, hne, Bool.and_false, Bool.false_or, ih htext]

theorem zeroPadded_digits (h : ∀ c ∈ digits, isAsciiDigit c) :
    zeroPadded false digits = (digits.head? == some '0') := by
  have hinside : ∀ digits : List Char, (∀ c ∈ digits, isAsciiDigit c) →
      zeroPadded true digits = false := by
    intro digits h
    induction digits with
    | nil => rfl
    | cons c digits ih =>
      obtain ⟨hc, hdigits⟩ := forall_mem_cons.mp h
      rw [zeroPadded, hc, ih hdigits]
      rfl
  cases digits with
  | nil => rfl
  | cons c digits =>
    obtain ⟨hc, hdigits⟩ := forall_mem_cons.mp h
    rw [zeroPadded, hc, hinside digits hdigits, Bool.or_false]
    rfl

/-- The second text is the first one, but for letter case, without zeros in front of numbers. -/
structure Rewrites (text text' : List Char) : Prop where
  same : zeroPadded false text = false → eqIgnoreAsciiCase text text'
  shorter : zeroPadded false text = true → text'.length < text.length

theorem Rewrites.length_le {text' : List Char} (h : Rewrites text text') :
    text'.length ≤ text.length := by
  cases hpadded : zeroPadded false text with
  | false =>
    have heq := congrArg List.length (beq_iff_eq.mp (h.same hpadded))
    rw [length_map, length_map] at heq
    exact heq.ge
  | true => exact (h.shorter hpadded).le

/-- Text without digits in front, up to something that is no digit. -/
theorem Rewrites.prepend {front front' back back' : List Char}
    (hfront : ∀ c ∈ front, isAsciiDigit c = false) (hsame : eqIgnoreAsciiCase front front')
    (h : Rewrites back back') : Rewrites (front ++ back) (front' ++ back') := by
  have hmap : front.map toAsciiUppercase = front'.map toAsciiUppercase := beq_iff_eq.mp hsame
  have hpadded : zeroPadded false (front ++ back) = zeroPadded false back := by
    rw [zeroPadded_append, zeroPadded_of_no_digits hfront, Bool.false_or]
    cases hlast : front.getLast? with
    | none => rfl
    | some c => rw [Option.elim_some, hfront c (mem_of_getLast? hlast)]
  refine ⟨fun hno => ?_, fun hyes => ?_⟩
  · have hback : back.map toAsciiUppercase = back'.map toAsciiUppercase :=
      beq_iff_eq.mp (h.same (hpadded.symm.trans hno))
    rw [eqIgnoreAsciiCase, map_append, map_append, hmap, hback]
    exact beq_self_eq_true _
  · have hlen := congrArg List.length hmap
    have hshort := h.shorter (hpadded.symm.trans hyes)
    simp only [length_map] at hlen
    simp only [length_append]
    omega

theorem rewrites_digits (h : parseU32 digits = some row) (hpos : 1 ≤ row) :
    Rewrites digits (Nat.toDigits 10 row) := by
  obtain ⟨hdigits, -, rfl⟩ := parseU32_eq_some h
  rw [toDigits_ofDigitChars hdigits (by omega)]
  cases digits with
  | nil => exact ⟨fun _ => rfl, fun h => by cases h⟩
  | cons c digits =>
    have hpadded := zeroPadded_digits hdigits
    refine ⟨fun hno => ?_, fun hyes => ?_⟩
    · have hc : (c == '0') = false := hpadded.symm.trans hno
      rw [dropWhile_cons, hc]
      exact beq_self_eq_true _
    · have hc : (c == '0') = true := hpadded.symm.trans hyes
      rw [dropWhile_cons, if_pos hc]
      have hle := (dropWhile_sublist (· == '0') (l := digits)).length_le
      exact Nat.lt_succ_of_le hle

theorem toAsciiUppercase_idem (c : Char) :
    toAsciiUppercase (toAsciiUppercase c) = toAsciiUppercase c := by
  by_cases halpha : isAsciiAlphabetic c = true
  · obtain ⟨hup, hpos, hle⟩ := toAsciiUppercase_eq halpha
    have hA : 'A'.toNat = 65 := rfl
    have hvalue : (toAsciiUppercase c).toNat = 65 + (letterValue c - 1) := by
      rw [hup, toNat_ofNat (by omega), hA]
    have hlow : ¬(decide ('a' ≤ toAsciiUppercase c) &&
        decide (toAsciiUppercase c ≤ 'z')) = true := by
      simp only [Bool.and_eq_true, decide_eq_true_eq]
      rintro ⟨h, -⟩
      have h' : 97 ≤ (toAsciiUppercase c).toNat := h
      omega
    rw [toAsciiUppercase, if_neg hlow]
  · have hlow : ¬(decide ('a' ≤ c) && decide (c ≤ 'z')) = true := by
      simp only [Bool.and_eq_true, decide_eq_true_eq]
      exact fun hrange => halpha (isAsciiAlphabetic_iff.mpr (.inl hrange))
    have hsame : toAsciiUppercase c = c := by rw [toAsciiUppercase, if_neg hlow]
    rw [hsame, hsame]

/-- The letters of a column are written again in upper case. -/
theorem eqIgnoreAsciiCase_columnLetters {col : ℕ} (h : columnNumber letters = some col) :
    eqIgnoreAsciiCase letters (columnLetters col) := by
  obtain ⟨hletters, -, rfl, -⟩ := columnNumber_eq_some h
  rw [columnLetters_lettersValue hletters, eqIgnoreAsciiCase, map_map]
  have hidem : toAsciiUppercase ∘ toAsciiUppercase = toAsciiUppercase :=
    funext toAsciiUppercase_idem
  rw [hidem]
  exact beq_self_eq_true _

theorem isAsciiDigit_eq_false (h : isAsciiAlphabetic c) : isAsciiDigit c = false := by
  by_contra hdigit
  rw [not_alphabetic_of_digit (Bool.not_eq_false _ ▸ hdigit)] at h
  cases h

theorem not_digit_dollar (isAbs : Bool) : ∀ c ∈ dollar isAbs, isAsciiDigit c = false := by
  cases isAbs with
  | false => exact forall_mem_nil _
  | true => exact forall_mem_singleton.mpr rfl

theorem not_digit_letters {col : ℕ} (h : columnNumber letters = some col) :
    ∀ c ∈ letters, isAsciiDigit c = false :=
  fun c hc => isAsciiDigit_eq_false ((columnNumber_eq_some h).1 c hc)

/-- **A corner is written again** without zeros in front of its row. -/
theorem ReadsPart.rewrites (h : ReadsPart text part) : Rewrites text part.render := by
  have hnil : Rewrites [] [] := ⟨fun _ => rfl, fun h => by cases h⟩
  have hdollar (isAbs : Bool) : eqIgnoreAsciiCase (dollar isAbs) (dollar isAbs) :=
    beq_self_eq_true _
  obtain ⟨kind, colAbs, col, rowAbs, row⟩ := part
  cases kind with
  | cell =>
    obtain ⟨letters, digits, rfl, hcol, hrow, hpos, -⟩ := h
    have hrow' := (rewrites_digits hrow hpos).prepend (not_digit_dollar rowAbs) (hdollar rowAbs)
    have hcol' := hrow'.prepend (not_digit_letters hcol) (eqIgnoreAsciiCase_columnLetters hcol)
    have hpart := hcol'.prepend (not_digit_dollar colAbs) (hdollar colAbs)
    simpa only [Part.render, append_assoc] using hpart
  | column =>
    obtain ⟨letters, rfl, hcol, -⟩ := h
    have hcol' := hnil.prepend (not_digit_letters hcol) (eqIgnoreAsciiCase_columnLetters hcol)
    have hpart := hcol'.prepend (not_digit_dollar colAbs) (hdollar colAbs)
    simpa only [Part.render, append_nil] using hpart
  | row =>
    obtain ⟨digits, rfl, hrow, hpos, -⟩ := h
    exact (rewrites_digits hrow hpos).prepend (not_digit_dollar rowAbs) (hdollar rowAbs)

/-- Two corners are written again with their colon. -/
theorem Rewrites.range {front front' back back' : List Char} (hfront : Rewrites front front')
    (hback : Rewrites back back') : Rewrites (front ++ ':' :: back) (front' ++ ':' :: back') := by
  have hpadded : zeroPadded false (front ++ ':' :: back) =
      (zeroPadded false front || zeroPadded false back) := by
    rw [zeroPadded_append, zeroPadded]
    simp only [show (':' == '0') = false from rfl, show isAsciiDigit ':' = false from rfl,
      Bool.and_false, Bool.false_or]
  refine ⟨fun hno => ?_, fun hyes => ?_⟩
  · obtain ⟨hno', hno''⟩ := Bool.or_eq_false_iff.mp (hpadded.symm.trans hno)
    have hmap := beq_iff_eq.mp (hfront.same hno')
    have hmap' := beq_iff_eq.mp (hback.same hno'')
    rw [eqIgnoreAsciiCase, map_append, map_append, map_cons, map_cons, hmap,
      hmap']
    exact beq_self_eq_true _
  · have hle := hfront.length_le
    have hle' := hback.length_le
    simp only [length_append, length_cons]
    obtain hyes | hyes := Bool.or_eq_true_iff.mp (hpadded.symm.trans hyes)
    · have hlt := hfront.shorter hyes
      omega
    · have hlt := hback.shorter hyes
      omega

/-- **A reference is written again** as it was, but for letter case, exactly if no zeros are in
front of its rows. -/
theorem eqIgnoreAsciiCase_render {raw : List Char} (h : ReadsReference unicode raw reference) :
    eqIgnoreAsciiCase raw reference.render ↔
      zeroPadded false (raw.drop (reference.sheetPrefix.getD []).length) = false := by
  obtain ⟨start, sheet, first, second⟩ := reference
  obtain ⟨text, rfl, ⟨-, hcorners⟩, -⟩ := h
  have hrewrites : Rewrites text
      (first.render ++ second.elim [] fun second => ':' :: second.render) := by
    cases second with
    | none =>
      rw [Option.elim_none, append_nil]
      exact ReadsPart.rewrites hcorners
    | some second =>
      obtain ⟨front, back, rfl, hfront, hback, -⟩ := hcorners
      exact hfront.rewrites.range hback.rewrites
  rw [drop_left, Reference.render, append_assoc, eqIgnoreAsciiCase, map_append,
    map_append, beq_iff_eq, append_cancel_left_eq]
  refine ⟨fun hmap => ?_, fun hno => beq_iff_eq.mp (hrewrites.same hno)⟩
  by_contra hyes
  have hshort := hrewrites.shorter (Bool.not_eq_false _ ▸ hyes)
  have hlen := congrArg List.length hmap
  rw [length_map, length_map] at hlen
  exact hshort.ne' hlen

/-! ## Formulas -/

/-- The reference is to the sheet of the deletion, from the formula's own sheet. -/
def Deletion.Edits (deletion : Deletion) (host : List Char) (reference : Reference) : Prop :=
  eqIgnoreAsciiCase (reference.target host) deletion.sheet

instance (deletion : Deletion) (host : List Char) (reference : Reference) :
    Decidable (deletion.Edits host reference) :=
  inferInstanceAs (Decidable (_ = true))

/-- Cells that the reference denotes survive the deletion. -/
def Deletion.Spares (deletion : Deletion) (reference : Reference) : Prop :=
  ∃ cell cell', reference.Covers cell ∧ deletion.Moves cell cell'

/-- The text is what a reference should become: `#REF!` if no cell survives, and otherwise a
reference, with the same prefix, to what has become of the cells. -/
structure Rewritten (unicode : Unicode) (deletion : Deletion) (reference : Reference)
    (out : List Char) : Prop where
  lost : out = reference.sheetPrefix.getD [] ++ refError ↔ ¬deletion.Spares reference
  kept : deletion.Spares reference → ∃ reference', ReadsReference unicode out reference' ∧
    reference'.sheetPrefix = reference.sheetPrefix ∧ reference'.sheet = reference.sheet ∧
    ∀ cell', reference'.Covers cell' ↔ ∃ cell, reference.Covers cell ∧ deletion.Moves cell cell'

/-- A piece becomes what it should: a reference to the edited sheet is rewritten, one to another
sheet is the same but for letter case, and the rest is the same. -/
def Becomes (unicode : Unicode) (deletion : Deletion) (host : List Char) (piece : Piece)
    (out : List Char) : Prop :=
  match piece.token with
  | .text _ => out = piece.raw
  | .ref reference =>
    (deletion.Edits host reference → Rewritten unicode deletion reference out) ∧
      (¬deletion.Edits host reference → eqIgnoreAsciiCase piece.raw out)

/-- A formula is rewritten well: it is cut into string literals, references and other characters,
and each becomes what it should, in the same order. -/
structure ShiftsWell (unicode : Unicode) (deletion : Deletion) (host formula : List Char) :
    Prop where
  whole : rawText (pieces unicode formula) = formula
  reads : Reads unicode none (pieces unicode formula)
  joined : shiftFormula unicode formula host deletion.shift =
    (pieces unicode formula).flatMap fun piece => shiftToken host deletion.shift piece.token
  each : ∀ piece ∈ pieces unicode formula,
    Becomes unicode deletion host piece (shiftToken host deletion.shift piece.token)

/-- A range to the edited sheet has its corners in order unless it is deleted as a whole, and a
reference to another sheet has no zeros in front of its rows. -/
def Harmless (deletion : Deletion) (host : List Char) (piece : Piece) : Prop :=
  match piece.token with
  | .text _ => True
  | .ref reference =>
    (deletion.Edits host reference →
      reference.Reversed deletion.axis → reference.Gone deletion) ∧
    (¬deletion.Edits host reference →
      zeroPadded false (piece.raw.drop (reference.sheetPrefix.getD []).length) = false)

/-- A reference to the edited sheet becomes what it should exactly if its corners are in order or
nothing is left of it. -/
theorem rewritten_iff {raw host : List Char} (h : ReadsReference unicode raw reference)
    (hedits : deletion.Edits host reference) :
    Rewritten unicode deletion reference (shiftToken host deletion.shift (.ref reference)) ↔
      (reference.Reversed deletion.axis → reference.Gone deletion) := by
  have hspares : deletion.Spares reference ↔ ¬reference.Gone deletion := survives_iff h.valid
  have hshifts := shiftsTo deletion h.valid
  have hsheet : eqIgnoreAsciiCase (reference.target host) deletion.shift.sheet = true := hedits
  rw [shiftToken, if_pos hsheet]
  cases hshift : shiftReference reference deletion.shift with
  | none =>
    rw [hshift] at hshifts
    refine ⟨fun hwritten hreversed => ?_, fun hgone => ?_⟩
    · by_contra hleft
      exact hwritten.lost.mp rfl (hspares.mpr hleft)
    · have hlost : ¬deletion.Spares reference :=
        fun hleft => hspares.mp hleft (hshifts.elim hgone id)
      exact ⟨iff_of_true rfl hlost, fun hleft => absurd hleft hlost⟩
  | some reference' =>
    rw [hshift] at hshifts
    obtain ⟨hkept, hshifted⟩ := hshifts
    obtain ⟨hreversed, hleft⟩ := not_or.mp hkept
    have hreads : ReadsReference unicode reference'.render reference' :=
      h.render hshifted.sheetPrefix hshifted.sheet hshifted.valid
    have hne := hreads.ne_refError
    rw [hshifted.sheetPrefix] at hne
    refine iff_of_true ⟨iff_of_false hne (not_not_intro (hspares.mpr hleft)), fun _ => ?_⟩
      fun h => absurd h hreversed
    exact ⟨reference', hreads, hshifted.sheetPrefix, hshifted.sheet,
      covers_iff_moves hshifted.other hshifted.axis⟩

/-- A piece becomes what it should exactly if it is harmless. -/
theorem becomes_iff {piece : Piece} {host : List Char}
    (h : match piece.token with
      | .text text => piece.raw = text
      | .ref reference => ReadsReference unicode piece.raw reference) :
    Becomes unicode deletion host piece (shiftToken host deletion.shift piece.token) ↔
      Harmless deletion host piece := by
  obtain ⟨raw, token⟩ := piece
  cases token with
  | text text => exact iff_of_true (Eq.symm h) trivial
  | ref reference =>
    by_cases hedits : deletion.Edits host reference
    · have hiff := rewritten_iff h hedits
      exact ⟨fun hbecomes => ⟨fun _ => hiff.mp (hbecomes.1 hedits), fun hno => absurd hedits hno⟩,
        fun hharmless => ⟨fun _ => hiff.mpr (hharmless.1 hedits), fun hno => absurd hedits hno⟩⟩
    · have htoken : shiftToken host deletion.shift (.ref reference) = reference.render := by
        rw [shiftToken]
        exact if_neg hedits
      have hiff := eqIgnoreAsciiCase_render h
      rw [← htoken] at hiff
      exact ⟨fun hbecomes => ⟨fun hyes => absurd hyes hedits, fun _ => hiff.mp (hbecomes.2 hedits)⟩,
        fun hharmless => ⟨fun hyes => absurd hyes hedits, fun _ => hiff.mpr (hharmless.2 hedits)⟩⟩

theorem Reads.of_mem {piece : Piece} {before : Option Char} {pieces : List Piece}
    (h : Reads unicode before pieces) (hmem : piece ∈ pieces) :
    match piece.token with
    | .text text => piece.raw = text
    | .ref reference => ReadsReference unicode piece.raw reference := by
  induction pieces generalizing before with
  | nil => cases hmem
  | cons first rest ih =>
    obtain ⟨hfirst, hrest⟩ := h
    obtain rfl | hmem := mem_cons.mp hmem
    · obtain ⟨raw, token⟩ := piece
      cases token with
      | text text => exact hfirst
      | ref reference => exact hfirst.1
    · exact ih hrest hmem

/-- Rows 5 and 6 of the sheet `S` are deleted. -/
def rowsFiveSix : Deletion := ⟨['S'], .row, 5, 2, by decide, by decide, by decide⟩

/-- `A2:A1`, whose corners are the other way round. -/
def upward : List Char := ['A', '2', ':', 'A', '1']

/-- The range it is read as. -/
def upwardRange : Reference :=
  ⟨none, none, ⟨.cell, false, 1, false, 2⟩, some ⟨.cell, false, 1, false, 1⟩⟩

end Formula

end Xlsx

end OpenBitFun
