import OpenBitFun.Markdown

/-!
# The texts of an imported document

What the texts of a stream of events are, and where they belong: each character comes with the
innermost item or cell it is in (`payload`). What the blocks are read as: the texts of items and
cells, and the texts outside of these (`readBlocks`). The texts are kept when the blocks are read
as the stream, and no item or cell has characters of another one (`TextsKept`).

The converter keeps them as long as nothing overtakes text that an open container holds, and the
text of an item comes before the next item starts (`keeps`).
-/

namespace OpenBitFun

namespace Markdown

open Text

/-! ## Reading blocks -/

/-- The characters that are no white space. -/
def nonblank (text : List Char) : List Char := text.filter fun c => !isWhitespace c

/-- The characters of runs that are no white space. -/
def readRuns (runs : List Run) : List Char := nonblank (runsText runs)

/-- A text of a document: that of an item or a cell, or one outside of these. -/
structure Segment where
  owned : Bool
  text : List Char
  deriving DecidableEq

/-- The texts of a block in order. -/
def Block.segments : Block → List Segment
  | .heading _ runs | .paragraph runs | .quote runs => [⟨false, readRuns runs⟩]
  | .code text _ => [⟨false, nonblank text⟩]
  | .list _ _ items => items.map fun item => ⟨true, readRuns item.runs⟩
  | .table rows _ => rows.flatten.map fun cell => ⟨true, readRuns cell.runs⟩
  | .image .. | .pageBreak | .horizontalRule | .toc _ => []

/-- Texts without the empty ones. -/
def compact (segments : List Segment) : List Segment :=
  segments.filter fun segment => !segment.text.isEmpty

/-- The texts of a document in order. -/
def readBlocks (blocks : List Block) : List Segment := compact (blocks.flatMap Block.segments)

/-! ## Streams -/

/-- `Tag::to_end`. -/
def Tag.toEnd : Tag → TagEnd
  | .paragraph => .paragraph
  | .heading _ => .heading
  | .blockQuote => .blockQuote
  | .codeBlock _ => .codeBlock
  | .htmlBlock => .htmlBlock
  | .list _ => .list
  | .item => .item
  | .footnoteDefinition => .footnoteDefinition
  | .table _ => .table
  | .tableHead => .tableHead
  | .tableRow => .tableRow
  | .tableCell => .tableCell
  | .emphasis => .emphasis
  | .strong => .strong
  | .strikethrough => .strikethrough
  | .link _ => .link
  | .image _ => .image
  | .metadataBlock => .metadataBlock

/-- `Tag::List(_)`. -/
def Tag.isList : Tag → Bool
  | .list _ => true
  | _ => false

/-- `Tag::Image`. -/
def Tag.isImage : Tag → Bool
  | .image _ => true
  | _ => false

/-- Items and cells own their text. -/
def Tag.isOwner : Tag → Bool
  | .item | .tableCell => true
  | _ => false

/-- Tags with inline content. Items of tight lists have it without a paragraph. -/
def Tag.hasInline : Tag → Bool
  | .paragraph | .heading _ | .item | .tableCell | .emphasis | .strong | .strikethrough
  | .link _ | .image _ => true
  | _ => false

/-- Tags with blocks in them. -/
def Tag.hasBlocks : Tag → Bool
  | .blockQuote | .item => true
  | _ => false

/-- What is open at a place of a stream: the tags, innermost first, with the numbers of their
events; the number of the next event; and the item of the outermost open list that started last. -/
structure Stream where
  opened : List (Tag × ℕ)
  position : ℕ
  newest : Option ℕ

/-- Before the first event. -/
def Stream.initial : Stream := ⟨[], 0, none⟩

/-- The innermost open item or cell. -/
def Stream.owner (stream : Stream) : Option ℕ :=
  (stream.opened.find? fun tag => tag.1.isOwner).map Prod.snd

/-- A tag of this kind is open. -/
def Stream.inside (stream : Stream) (test : Tag → Bool) : Bool :=
  stream.opened.any fun tag => test tag.1

/-- One event. -/
def Stream.step (stream : Stream) : Event → Stream
  | .start tag =>
    ⟨(tag, stream.position) :: stream.opened, stream.position + 1,
      match tag with
      | .item => some stream.position
      | .list _ => if stream.inside Tag.isList then stream.newest else none
      | _ => stream.newest⟩
  | .stop _ => ⟨stream.opened.tail, stream.position + 1, stream.newest⟩
  | _ => ⟨stream.opened, stream.position + 1, stream.newest⟩

/-- The innermost open tag can have the event in it. -/
def accepts (parent : Option Tag) : Event → Bool
  | .start tag =>
    match tag with
    | .paragraph | .heading _ | .blockQuote | .codeBlock _ | .htmlBlock | .list _ | .table _ =>
      parent.all Tag.hasBlocks
    | .item => parent.any Tag.isList
    | .tableHead | .tableRow =>
      match parent with
      | some (.table _) => true
      | _ => false
    | .tableCell => parent = some .tableHead ∨ parent = some .tableRow
    | .emphasis | .strong | .strikethrough | .link _ | .image _ => parent.any Tag.hasInline
    -- The extensions that have these are off.
    | .footnoteDefinition | .metadataBlock => false
  | .stop tag => parent.map Tag.toEnd = some tag
  | .text _ =>
    match parent with
    | some (.codeBlock _) => true
    | _ => parent.any Tag.hasInline
  | .html _ => parent = some .htmlBlock ∨ parent.any Tag.hasInline
  | .rule => parent.all Tag.hasBlocks
  | .code _ | .inlineMath _ | .displayMath _ | .softBreak | .hardBreak | .taskListMarker _
  | .footnoteReference => parent.any Tag.hasInline

/-- The events are those of a parser: tags are nested well, and only tags and texts that can be in a
tag are in it. -/
def wellNested : Stream → List Event → Bool
  | stream, [] => stream.opened.isEmpty
  | stream, event :: events =>
    accepts (stream.opened.head?.map Prod.fst) event && wellNested (stream.step event) events

/-- The text of an event. The alternative text of images is none. -/
def Stream.reads (stream : Stream) (event : Event) : List Char :=
  if stream.inside Tag.isImage then []
  else
    match event with
    | .text text | .code text | .inlineMath text | .displayMath text => nonblank text
    | .taskListMarker checked => nonblank (taskMarker checked)
    | _ => []

/-- The text of an event with the item or cell it is in. -/
def Stream.payload (stream : Stream) (event : Event) : List (Char × Option ℕ) :=
  (stream.reads event).map fun c => (c, stream.owner)

/-- The texts of a stream in order. -/
def payload : Stream → List Event → List (Char × Option ℕ)
  | _, [] => []
  | stream, event :: events => stream.payload event ++ payload (stream.step event) events

/-! ## Texts that are kept -/

/-- A part of a stream, and the item or cell that it is all in, where this is asked for. -/
structure Part where
  owner : Option ℕ
  chars : List (Char × Option ℕ)

/-- The text is the part; if it is the text of an item or a cell, the part is all in one. -/
structure Labels (segment : Segment) (part : Part) : Prop where
  text : segment.text = part.chars.map Prod.fst
  owned : segment.owned = part.owner.isSome
  owner : ∀ owner ∈ part.owner, ∀ c ∈ part.chars, c.2 = some owner

/-- The texts are those of the stream in order, and those of different items and cells are of
different ones in the stream. -/
def Attributed (segments : List Segment) (stream : List (Char × Option ℕ)) : Prop :=
  ∃ parts : List Part, parts.flatMap Part.chars = stream ∧ List.Forall₂ Labels segments parts ∧
    (parts.filterMap Part.owner).Nodup

/-- **The texts are kept**: no text is lost, duplicated, moved or given to another item or cell. -/
def TextsKept (events : List Event) : Prop :=
  Attributed (readBlocks (markdownToBlocks events)) (payload .initial events)

/-! ## Steps that keep them -/

/-- The texts that a container holds until it ends. -/
def Container.segments : Container → List Segment
  | .paragraph | .heading _ => []
  | .quote runs => [⟨false, readRuns runs⟩]
  | .list frame => frame.items.map fun item => ⟨true, readRuns item.runs⟩
  | .table frame =>
    (frame.rows.flatten ++ frame.currentRow).map fun cell => ⟨true, readRuns cell.runs⟩

/-- No container holds text. -/
def holdNothing (stack : List Container) : Bool :=
  stack.all fun container => (compact container.segments).isEmpty

/-- `Container::Paragraph`. -/
def Container.isParagraph : Container → Bool
  | .paragraph => true
  | _ => false

/-- Flushing the text keeps it: it goes to a quote, or to the item it is in, or it becomes a
paragraph that is no marker of a table of contents and overtakes nothing. -/
def flushKeeps (state : State) (stream : Stream) : Bool :=
  let taken := trimRuns state.runs
  taken.isEmpty ||
    match state.stack.find? fun container => !container.isParagraph with
    | some (.quote _) => true
    | some (.list _) => stream.newest.isSome && stream.owner == stream.newest
    | _ => holdNothing state.stack && !isTocMarker taken

/-- The innermost container can be pushed: it has no text, or overtakes nothing. -/
def popKeeps (state : State) : Bool :=
  holdNothing state.stack.tail ||
    ((readRuns state.runs).isEmpty && holdNothing (state.stack.take 1))

/-- **A step that keeps the texts.** -/
def keeps (state : State) (stream : Stream) (event : Event) : Bool :=
  match state.code, state.image with
  | some (text, _), _ =>
    match event with
    | .stop .codeBlock => (nonblank text).isEmpty || holdNothing state.stack
    | _ => true
  | none, some _ =>
    match event with
    -- An image in the alternative text of another one ends it.
    | .start (.image _) => false
    | .stop .image => flushKeeps state stream
    | _ => true
  | none, none =>
    match event with
    | .start (.codeBlock _) | .start .item | .start (.table _) | .stop .paragraph | .stop .item
    | .rule => flushKeeps state stream
    | .start (.list _) =>
      flushKeeps state stream &&
        (!state.stack.any Container.isList || decide (state.listDepth < 255))
    | .stop .heading => (readRuns state.runs).isEmpty || holdNothing state.stack
    | .stop .blockQuote => flushKeeps state stream && popKeeps state
    | .stop .list =>
      flushKeeps state stream && (decide (0 < state.listDepth) || popKeeps state)
    | .stop .table => popKeeps state
    | .displayMath _ => state.stack.any Container.holdsMath || flushKeeps state stream
    | .html html => !isPageBreak html || flushKeeps state stream
    | _ => true

/-- All steps keep the texts, and so does the flush at the end. -/
def keepsAll : State → Stream → List Event → Bool
  | state, stream, [] => flushKeeps state stream
  | state, stream, event :: events =>
    keeps state stream event && keepsAll (state.step event) (stream.step event) events

end Markdown

end OpenBitFun
