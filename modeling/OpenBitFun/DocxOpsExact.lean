import Mathlib
import OpenBitFun.DocxOps

/-!
# The operations on blocks are exact

What the operations on the blocks of a document are for, in exact arithmetic: a span with at least
one element and its end in the list is deleted, replaced or moved, and anything else is an error
that leaves the blocks alone. They do that exactly where the sum `index + count` does not pass the
largest machine integer before the bound check sees it (`exact_iff`).
-/

namespace OpenBitFun

namespace DocxOps

/-! ## The bound check -/

/-- In exact arithmetic the span has at least one element and ends in the list. -/
def InList (index count : UInt64) (len : ℕ) : Prop :=
  1 ≤ count.toNat ∧ index.toNat + count.toNat ≤ len

instance (index count : UInt64) (len : ℕ) : Decidable (InList index count len) :=
  inferInstanceAs (Decidable (_ ∧ _))

/-- The sum `index + count` is exact, or the bound check is decided without it: by a count of 0, by
an empty list or, where the build does not check the sum, by an index past the list. -/
def SumFits (build : Build) (index count : UInt64) (len : ℕ) : Prop :=
  index.toNat + count.toNat < 2 ^ 64 ∨ count = 0 ∨ len = 0 ∨
    build = .release ∧ len ≤ index.toNat

/-- What the bound check of a span is for. -/
def SpanChecked (index count : UInt64) (len : ℕ) (result : Except Stop Range) : Prop :=
  if InList index count len then
    result = .ok ⟨index.toNat, index.toNat + count.toNat⟩
  else ∃ err, result = .error (.error err)

variable {build : Build} {index count a b : UInt64} {len : ℕ} {unit : String}

namespace Build

theorem add_of_lt (build : Build) (h : a.toNat + b.toNat < 2 ^ 64) :
    build.add a b = .ok (a + b) ∧ (a + b).toNat = a.toNat + b.toNat := by
  refine ⟨if_neg ?_, ?_⟩
  · rintro ⟨-, hpast⟩
    omega
  · rw [UInt64.toNat_add, Nat.mod_eq_of_lt h]

theorem add_dev (h : 2 ^ 64 ≤ a.toNat + b.toNat) : Build.dev.add a b = .error .panic :=
  if_pos ⟨rfl, h⟩

theorem add_release : Build.release.add a b = .ok (a + b) := if_neg (by simp)

/-- A sum that wrapped around is smaller than its summands. -/
theorem toNat_add_lt (h : 2 ^ 64 ≤ a.toNat + b.toNat) : (a + b).toNat < a.toNat := by
  have ha := a.toNat_lt
  have hb := b.toNat_lt
  rw [UInt64.toNat_add]
  omega

end Build

theorem toNat_pos (h : count ≠ 0) : 1 ≤ count.toNat := by
  rw [Nat.one_le_iff_ne_zero]
  intro hzero
  exact h (UInt64.toNat_inj.1 hzero)

/-- A count of 0 and an empty list are errors whatever the index is. -/
theorem existingSpan_error (c : Option UInt64) (h : c.getD 1 = 0 ∨ len = 0) :
    ∃ err, existingSpan build index c len unit = .error (.error err) := by
  unfold existingSpan
  by_cases hcount : c.getD 1 = 0
  · exact ⟨_, if_pos hcount⟩
  · have hlen : len = 0 := h.resolve_left hcount
    exact ⟨_, (if_neg hcount).trans (if_pos hlen)⟩

/-- What is left of the bound check for a count and a list that are not empty. -/
theorem existingSpan_of_ne_zero (unit : String) {c : Option UInt64} (hcount : c.getD 1 ≠ 0)
    (hlen : len ≠ 0)
    {beyond : Bool} (hbeyond : endsBeyond build index (c.getD 1) len = .ok beyond)
    {stop : UInt64} (hstop : build.add index (c.getD 1) = .ok stop) :
    (beyond = false → existingSpan build index c len unit = .ok ⟨index.toNat, stop.toNat⟩) ∧
      (beyond = true → ∃ err, existingSpan build index c len unit = .error (.error err)) := by
  unfold existingSpan
  simp only [if_neg hcount, if_neg hlen, hbeyond, hstop, bind, Except.bind]
  refine ⟨?_, ?_⟩
  · rintro rfl
    rfl
  · rintro rfl
    exact ⟨_, rfl⟩

/-- Of an exact sum the comparison is the exact one. -/
theorem endsBeyond_of_lt (hpos : 1 ≤ count.toNat) (h : index.toNat + count.toNat < 2 ^ 64) :
    endsBeyond build index count len = .ok (decide (len < index.toNat + count.toNat)) := by
  obtain ⟨hadd, hexact⟩ := Build.add_of_lt build h
  unfold endsBeyond
  by_cases hindex : len ≤ index.toNat
  · have hend : len < index.toNat + count.toNat := by omega
    rw [if_pos hindex, decide_eq_true hend]
  · rw [if_neg hindex, hadd]
    simp only [Except.map, hexact]

/-- Where the sum is exact, or not needed, the bound check is right. -/
theorem existingSpan_checked (unit : String) (c : Option UInt64)
    (h : SumFits build index (c.getD 1) len) :
    SpanChecked index (c.getD 1) len (existingSpan build index c len unit) := by
  unfold SpanChecked
  by_cases hempty : c.getD 1 = 0 ∨ len = 0
  · rw [if_neg ?_]
    · exact existingSpan_error c hempty
    · rintro ⟨hpos, hend⟩
      obtain hcount | hlen := hempty
      · rw [hcount] at hpos
        exact absurd hpos (by decide)
      · omega
  obtain ⟨hcount, hlen⟩ := not_or.1 hempty
  have hpos := toNat_pos hcount
  obtain hsum | hzero | hzero | ⟨rfl, hindex⟩ := h
  · obtain ⟨hadd, hexact⟩ := Build.add_of_lt build hsum
    obtain ⟨hok, herr⟩ :=
      existingSpan_of_ne_zero unit hcount hlen (endsBeyond_of_lt hpos hsum) hadd
    by_cases hin : InList index (c.getD 1) len
    · rw [if_pos hin, hok (decide_eq_false (Nat.not_lt.2 hin.2)), hexact]
    · rw [if_neg hin]
      apply herr
      exact decide_eq_true (Nat.not_le.1 fun hend => hin ⟨hpos, hend⟩)
  · exact absurd hzero hcount
  · exact absurd hzero hlen
  · -- The index is past the list, so the sum that wrapped around is only printed.
    have hin : ¬InList index (c.getD 1) len := by
      rintro ⟨-, hend⟩
      omega
    rw [if_neg hin]
    exact (existingSpan_of_ne_zero unit hcount hlen (if_pos hindex) Build.add_release).2 rfl

/-- Where the sum is needed and passes the largest machine integer, the bound check panics or lets a
span through that ends before it starts. -/
theorem existingSpan_of_not_sumFits (unit : String) (c : Option UInt64)
    (h : ¬SumFits build index (c.getD 1) len) :
    existingSpan build index c len unit = .error .panic ∨
      ∃ stop < index.toNat, existingSpan build index c len unit = .ok ⟨index.toNat, stop⟩ := by
  simp only [SumFits, not_or, not_and, Nat.not_lt] at h
  obtain ⟨hsum, hcount, hlen, hindex⟩ := h
  cases build with
  | dev =>
    have hadd := Build.add_dev hsum
    apply Or.inl
    unfold existingSpan endsBeyond
    simp only [if_neg hcount, if_neg hlen, hadd]
    split <;> rfl
  | release =>
    have hin : index.toNat < len := Nat.not_le.1 (hindex rfl)
    have hwrapped := Build.toNat_add_lt hsum
    have hbeyond : endsBeyond .release index (c.getD 1) len = .ok false := by
      unfold endsBeyond
      rw [if_neg (Nat.not_le.2 hin), Build.add_release]
      exact congrArg Except.ok (decide_eq_false (by omega))
    refine .inr ⟨_, hwrapped, ?_⟩
    exact (existingSpan_of_ne_zero unit hcount hlen hbeyond Build.add_release).1 rfl

/-- The bound check is right exactly where the sum is exact or not needed. -/
theorem spanChecked_iff (c : Option UInt64) :
    SpanChecked index (c.getD 1) len (existingSpan build index c len unit) ↔
      SumFits build index (c.getD 1) len := by
  refine ⟨fun hchecked => ?_, existingSpan_checked unit c⟩
  by_contra h
  unfold SpanChecked at hchecked
  obtain hpanic | ⟨stop, hstop, hok⟩ := existingSpan_of_not_sumFits unit c h
  · rw [hpanic] at hchecked
    split at hchecked
    · exact absurd hchecked (by simp)
    · obtain ⟨err, herr⟩ := hchecked
      exact absurd herr (by simp)
  · rw [hok] at hchecked
    split at hchecked
    · simp only [Except.ok.injEq, Range.mk.injEq] at hchecked
      omega
    · obtain ⟨err, herr⟩ := hchecked
      exact absurd herr (by simp)

/-! ## The operations -/

section

variable {Block : Type*} {reader : BlockReader Block} {blocks added : List Block}
  {target : UInt64} {content : BlockContent Block} {c : Option UInt64}

/-- An operation that returns an error and leaves the blocks alone. -/
def Rejected (outcome : Outcome Block) (blocks : List Block) : Prop :=
  ∃ err, outcome = (.error (.error err), blocks)

/-- `delete_blocks` removes exactly the span. -/
def DeleteExact (build : Build) (blocks : List Block) (index : UInt64) (c : Option UInt64) : Prop :=
  let outcome := deleteBlocks build ⟨index, c⟩ blocks
  let stop := index.toNat + (c.getD 1).toNat
  if InList index (c.getD 1) blocks.length then
    ∃ note, outcome = (.ok note, Spans.outside index.toNat stop blocks)
  else Rejected outcome blocks

/-- `move_blocks` takes the span out and puts it back so that it starts at the target in what
remains. -/
def MoveExact (build : Build) (blocks : List Block) (index : UInt64) (c : Option UInt64)
    (target : UInt64) : Prop :=
  let outcome := moveBlocks build ⟨index, c, target⟩ blocks
  let stop := index.toNat + (c.getD 1).toNat
  let result := Spans.place target.toNat (Spans.inside index.toNat stop blocks)
    (Spans.outside index.toNat stop blocks)
  if InList index (c.getD 1) blocks.length ∧
      target.toNat ≤ blocks.length - (c.getD 1).toNat then
    (∃ note, outcome = (.ok note, result)) ∧
      Spans.Moved index.toNat stop target.toNat blocks result
  else Rejected outcome blocks

/-- `replace_blocks` replaces exactly the span, by blocks that are in order and not too many. -/
def ReplaceExact (build : Build) (reader : BlockReader Block) (blocks : List Block)
    (index : UInt64) (c : Option UInt64) (content : BlockContent Block) : Prop :=
  let outcome := replaceBlocks build reader ⟨index, c, content⟩ blocks
  let stop := index.toNat + (c.getD 1).toNat
  (∃ added note, InList index (c.getD 1) blocks.length ∧
      prepareBlocks reader content = .ok added ∧
      blocks.length - (c.getD 1).toNat + added.length ≤ maxBlocks ∧
      outcome = (.ok note, blocks.take index.toNat ++ added ++ blocks.drop stop)) ∨
    ¬(InList index (c.getD 1) blocks.length ∧ ∃ added, prepareBlocks reader content = .ok added ∧
      blocks.length - (c.getD 1).toNat + added.length ≤ maxBlocks) ∧ Rejected outcome blocks

/-- The operations on a span are exact: the bound check succeeds for the spans in the list, the
operations do to a span what they are for, and anything else is an error that changes nothing. -/
structure Exact (build : Build) (reader : BlockReader Block) (blocks : List Block)
    (index : UInt64) (c : Option UInt64) (target : UInt64) (content : BlockContent Block) :
    Prop where
  check : ∀ unit, SpanChecked index (c.getD 1) blocks.length
    (existingSpan build index c blocks.length unit)
  delete : DeleteExact build blocks index c
  move : MoveExact build blocks index c target
  replace : ReplaceExact build reader blocks index c content

/-- A span that passed the bound check is drained without a panic. -/
theorem drain_of_inList (h : InList index count blocks.length) :
    drain ⟨index.toNat, index.toNat + count.toNat⟩ blocks =
      .ok (Spans.inside index.toNat (index.toNat + count.toNat) blocks,
        Spans.outside index.toNat (index.toNat + count.toNat) blocks) :=
  if_pos ⟨Nat.le_add_right _ _, h.2⟩

theorem len_of_sum : Range.len ⟨index.toNat, index.toNat + count.toNat⟩ = count.toNat :=
  Nat.add_sub_cancel_left _ _

theorem deleteExact_of_sumFits (h : SumFits build index (c.getD 1) blocks.length) :
    DeleteExact build blocks index c := by
  have hchecked := existingSpan_checked "block" c h
  unfold DeleteExact deleteBlocks
  unfold SpanChecked at hchecked
  split at hchecked
  · rename_i hin
    rw [if_pos hin]
    simp only [hchecked, drain_of_inList hin]
    exact ⟨_, rfl⟩
  · rename_i hin
    obtain ⟨err, herr⟩ := hchecked
    rw [if_neg hin]
    simp only [herr]
    exact ⟨err, rfl⟩

/-- What `move_span` does to a span in the list. -/
theorem moveSpan_of_inList (h : InList index count blocks.length) (target : UInt64)
    (unit : String) :
    let moved := Spans.inside index.toNat (index.toNat + count.toNat) blocks
    let rest := Spans.outside index.toNat (index.toNat + count.toNat) blocks
    let outcome := moveSpan blocks ⟨index.toNat, index.toNat + count.toNat⟩ target unit
    (target.toNat ≤ blocks.length - count.toNat →
        outcome = (.ok (), Spans.place target.toNat moved rest)) ∧
      (blocks.length - count.toNat < target.toNat →
        ∃ err, outcome = (.error (.error err), blocks)) := by
  intro moved rest outcome
  have hrest : rest.length = blocks.length - count.toNat := by
    rw [Spans.length_outside (Nat.le_add_right _ _) h.2, Nat.add_sub_cancel_left]
  refine ⟨fun htarget => ?_, fun htarget => ?_⟩
  · have hsplice : splice ⟨target.toNat, target.toNat⟩ moved rest =
        .ok (Spans.place target.toNat moved rest) := by
      apply if_pos
      refine ⟨Nat.le_refl _, ?_⟩
      rwa [hrest]
    simp only [outcome, moveSpan, len_of_sum, if_neg (Nat.not_lt.2 htarget), drain_of_inList h]
    simp only [moved, rest] at hsplice
    simp only [hsplice, moved, rest]
  · simp only [outcome, moveSpan, len_of_sum, if_pos htarget]
    exact ⟨_, rfl⟩

theorem moveExact_of_sumFits (h : SumFits build index (c.getD 1) blocks.length) :
    MoveExact build blocks index c target := by
  have hchecked := existingSpan_checked "block" c h
  unfold MoveExact moveBlocks
  unfold SpanChecked at hchecked
  split at hchecked
  · rename_i hin
    obtain ⟨hmoved, hrejected⟩ := moveSpan_of_inList hin target "block"
    simp only [hchecked]
    by_cases htarget : target.toNat ≤ blocks.length - (c.getD 1).toNat
    · rw [if_pos ⟨hin, htarget⟩, hmoved htarget]
      refine ⟨⟨_, rfl⟩, Spans.moved_place (Nat.le_add_right _ _) hin.2 ?_⟩
      rwa [Nat.add_sub_cancel_left]
    · obtain ⟨err, herr⟩ := hrejected (Nat.not_le.1 htarget)
      rw [if_neg fun hboth => htarget hboth.2, herr]
      exact ⟨err, rfl⟩
  · rename_i hin
    obtain ⟨err, herr⟩ := hchecked
    rw [if_neg fun hboth => hin hboth.1]
    simp only [herr]
    exact ⟨err, rfl⟩

theorem replaceExact_of_sumFits (h : SumFits build index (c.getD 1) blocks.length) :
    ReplaceExact build reader blocks index c content := by
  have hchecked := existingSpan_checked "block" c h
  unfold ReplaceExact replaceBlocks
  unfold SpanChecked at hchecked
  split at hchecked
  · rename_i hin
    simp only [hchecked, len_of_sum]
    cases hprepared : prepareBlocks reader content with
    | error err =>
      refine .inr ⟨?_, err, rfl⟩
      rintro ⟨-, added, hok, -⟩
      exact absurd hok (by simp)
    | ok added =>
      by_cases hcapacity : blocks.length - (c.getD 1).toNat + added.length ≤ maxBlocks
      · have hsplice : splice ⟨index.toNat, index.toNat + (c.getD 1).toNat⟩ added blocks = .ok _ :=
          if_pos ⟨Nat.le_add_right _ _, hin.2⟩
        simp only [ensureCapacity, if_neg (Nat.not_lt.2 hcapacity), hsplice]
        exact .inl ⟨added, _, hin, rfl, hcapacity, rfl⟩
      · simp only [ensureCapacity, if_pos (Nat.not_le.1 hcapacity)]
        refine .inr ⟨?_, _, rfl⟩
        rintro ⟨-, added', hok, hfits⟩
        cases hok
        exact hcapacity hfits
  · rename_i hin
    obtain ⟨err, herr⟩ := hchecked
    simp only [herr]
    exact .inr ⟨fun hboth => hin hboth.1, err, rfl⟩

theorem insertionIndex_cases (i : Option UInt64) (len : ℕ) (unit : String) :
    (∃ position ≤ len, insertionIndex i len unit = .ok position) ∨
      ∃ err, insertionIndex i len unit = .error (.error err) := by
  cases i with
  | none => exact .inl ⟨len, Nat.le_refl _, rfl⟩
  | some i =>
    simp only [insertionIndex]
    split
    · exact .inl ⟨_, ‹_›, rfl⟩
    · exact .inr ⟨_, rfl⟩

/-- The operations on a span are exact, and never panic, if and only if the sum of index and count
does not pass the largest machine integer where the bound check needs it. -/
theorem exact_iff (build : Build) (reader : BlockReader Block) (blocks : List Block)
    (index : UInt64) (c : Option UInt64) (target : UInt64) (content : BlockContent Block) :
    Exact build reader blocks index c target content ↔
      SumFits build index (c.getD 1) blocks.length := by
  refine ⟨fun hexact => (spanChecked_iff c).1 (hexact.check "block"), fun h => ?_⟩
  exact {
    check := fun unit => existingSpan_checked unit c h
    delete := deleteExact_of_sumFits h
    move := moveExact_of_sumFits h
    replace := replaceExact_of_sumFits h }

/-- Where the sum wraps around in a release build, `delete_blocks` panics. -/
theorem deleteBlocks_panic (h : ¬SumFits build index (c.getD 1) blocks.length) :
    deleteBlocks build ⟨index, c⟩ blocks = (.error .panic, blocks) := by
  unfold deleteBlocks
  obtain hpanic | ⟨stop, hstop, hok⟩ := existingSpan_of_not_sumFits "block" c h
  · simp only [hpanic]
  · have hdrain : drain ⟨index.toNat, stop⟩ blocks = .error .panic := by
      apply if_neg
      rintro ⟨horder, -⟩
      exact absurd horder (Nat.not_le.2 hstop)
    simp only [hok, hdrain]

/-- A document of two blocks, and a span that starts at the second with the largest count there is:
the sum wraps around to 0, the bound check lets it through, and taking the blocks out panics. -/
theorem not_exact_maxCount :
    deleteBlocks .release ⟨1, some 0xffffffffffffffff⟩ ["first", "second"] =
        (.error .panic, ["first", "second"]) ∧
      ¬Exact .release ⟨fun _ => [], fun _ block => .ok block⟩ ["first", "second"] 1
        (some 0xffffffffffffffff) 0 ⟨none, none⟩ := by
  have hsum : ¬SumFits .release 1 ((some 0xffffffffffffffff).getD 1) 2 := by
    unfold SumFits
    decide
  refine ⟨deleteBlocks_panic hsum, fun h => ?_⟩
  exact hsum ((spanChecked_iff _).1 (h.check "block"))

end

end DocxOps

end OpenBitFun
