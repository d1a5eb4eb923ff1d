import OpenBitFun.Text

/-!
# Importing Markdown

`markdown_to_blocks` of the document crate turns the events of a Markdown parser into the blocks of
a Word document. Inline text is collected in one buffer of runs; where a finished paragraph goes
depends on the innermost open container. Quotes, lists and tables hold their text until they end.
-/

namespace OpenBitFun

namespace Markdown

open Text

/-! ## Documents -/

/-- `MathMode`. -/
inductive MathMode
  | inline
  | display
  deriving DecidableEq

/-- `Run`: a text with its formatting. -/
structure Run where
  text : List Char
  bold : Option Bool
  italic : Option Bool
  strike : Option Bool
  code : Option Bool
  link : Option (List Char)
  math : Option MathMode
  deriving DecidableEq

/-- `Run::plain`. -/
def Run.plain (text : List Char) : Run := ⟨text, none, none, none, none, none, none⟩

/-- `Align`. -/
inductive Align
  | left
  | center
  | right
  deriving DecidableEq

/-- `ListItem`. -/
structure ListItem where
  runs : List Run
  level : ℕ
  deriving DecidableEq

/-- `TableCell`. -/
structure TableCell where
  runs : List Run
  align : Option Align
  deriving DecidableEq

/-- `Block`. -/
inductive Block
  | heading (level : ℕ) (runs : List Run)
  | paragraph (runs : List Run)
  | list (ordered : Bool) (start : Option ℕ) (items : List ListItem)
  | table (rows : List (List TableCell)) (headerRows : ℕ)
  | image (src : List Char) (align : Align) (alt : Option (List Char))
  | code (text : List Char) (language : Option (List Char))
  | quote (runs : List Run)
  | pageBreak
  | horizontalRule
  | toc (levels : ℕ)
  deriving DecidableEq

/-! ## Events -/

/-- `HeadingLevel`. -/
inductive HeadingLevel
  | h1
  | h2
  | h3
  | h4
  | h5
  | h6
  deriving DecidableEq

/-- `heading_level`. -/
def headingLevel : HeadingLevel → ℕ
  | .h1 => 1
  | .h2 => 2
  | .h3 => 3
  | .h4 => 4
  | .h5 => 5
  | .h6 => 6

/-- `Alignment`. -/
inductive Alignment
  | none
  | left
  | center
  | right
  deriving DecidableEq

/-- `Tag`. A code block has the info of its fence, if it has one. -/
inductive Tag
  | paragraph
  | heading (level : HeadingLevel)
  | blockQuote
  | codeBlock (info : Option (List Char))
  | htmlBlock
  | list (start : Option ℕ)
  | item
  | footnoteDefinition
  | table (alignments : List Alignment)
  | tableHead
  | tableRow
  | tableCell
  | emphasis
  | strong
  | strikethrough
  | link (url : List Char)
  | image (url : List Char)
  | metadataBlock
  deriving DecidableEq

/-- `TagEnd`. -/
inductive TagEnd
  | paragraph
  | heading
  | blockQuote
  | codeBlock
  | htmlBlock
  | list
  | item
  | footnoteDefinition
  | table
  | tableHead
  | tableRow
  | tableCell
  | emphasis
  | strong
  | strikethrough
  | link
  | image
  | metadataBlock
  deriving DecidableEq

/-- `Event`; `html` is also `InlineHtml`, which is treated the same. -/
inductive Event
  | start (tag : Tag)
  | stop (tag : TagEnd)
  | text (text : List Char)
  | code (text : List Char)
  | inlineMath (text : List Char)
  | displayMath (text : List Char)
  | softBreak
  | hardBreak
  | rule
  | taskListMarker (checked : Bool)
  | html (html : List Char)
  | footnoteReference
  deriving DecidableEq

/-! ## Runs -/

/-- `InlineState`. -/
structure InlineState where
  bold : ℕ
  italic : ℕ
  strike : ℕ
  link : Option (List Char)

/-- `then_some(true)`. -/
def flag (condition : Bool) : Option Bool := if condition then some true else none

/-- `InlineState::run`. -/
def InlineState.run (state : InlineState) (text : List Char) (code : Bool) : Run :=
  ⟨text, flag (decide (0 < state.bold)), flag (decide (0 < state.italic)),
    flag (decide (0 < state.strike)), flag code, state.link, none⟩

/-- `push_run`. -/
def pushRun (runs : List Run) (run : Run) : List Run :=
  if run.text.isEmpty then runs
  else
    match runs.getLast? with
    | some last =>
      if last.math = none ∧ run.math = none ∧ { last with text := run.text } = run then
        runs.dropLast ++ [{ last with text := last.text ++ run.text }]
      else runs ++ [run]
    | none => [run]

/-- There is nothing but white space. -/
def isBlank (text : List Char) : Bool := (trim text).isEmpty

/-- `trim_runs`. -/
def trimRuns (runs : List Run) : List Run :=
  let runs := runs.rdropWhile fun run => isBlank run.text && run.text != ['\n']
  let runs := runs.dropWhile fun run => isBlank run.text
  let runs := runs.modifyHead fun first => { first with text := trimStart first.text }
  let runs := runs.modify (runs.length - 1) fun last => { last with text := trimEnd last.text }
  runs.filter fun run => !run.text.isEmpty

/-- The text of runs. -/
def runsText (runs : List Run) : List Char := runs.flatMap Run.text

/-- `is_toc_marker`. -/
def isTocMarker (runs : List Run) : Bool :=
  let text := toAsciiLowercase (trim (runsText runs))
  text == ['[', 't', 'o', 'c', ']'] || text == ['[', '[', 't', 'o', 'c', ']', ']']

/-! ## Containers -/

/-- `ListFrame`. -/
structure ListFrame where
  ordered : Bool
  start : Option ℕ
  items : List ListItem
  depth : ℕ

/-- `TableFrame`. -/
structure TableFrame where
  alignments : List Alignment
  rows : List (List TableCell)
  currentRow : List TableCell
  inCell : Bool
  head : Bool

/-- `Container`. -/
inductive Container
  | paragraph
  | heading (level : ℕ)
  | quote (runs : List Run)
  | list (frame : ListFrame)
  | table (frame : TableFrame)

/-- The local variables of `markdown_to_blocks`. The innermost container comes first. -/
structure State where
  blocks : List Block
  runs : List Run
  inline : InlineState
  stack : List Container
  code : Option (List Char × Option (List Char))
  image : Option (List Char × List Char)
  listDepth : ℕ

/-- Before the first event. -/
def State.initial : State := ⟨[], [], ⟨0, 0, 0, none⟩, [], none, none, 0⟩

/-- A block is pushed. -/
def State.push (state : State) (block : Block) : State :=
  { state with blocks := state.blocks ++ [block] }

/-- Runs are added to runs, on a line of their own. -/
def addLine (runs taken : List Run) : List Run :=
  if runs.isEmpty then taken else runs ++ Run.plain ['\n'] :: taken

/-- Runs are added to the last item. -/
def addToLast (items : List ListItem) (taken : List Run) : List ListItem :=
  items.modify (items.length - 1) fun item => { item with runs := addLine item.runs taken }

/-- The runs go to the innermost container that is no paragraph, if this is a quote or a list. -/
def placeRuns (taken : List Run) : List Container → Option (List Container)
  | .paragraph :: rest => (placeRuns taken rest).map (.paragraph :: ·)
  | .quote runs :: rest => some (.quote (addLine runs taken) :: rest)
  | .list frame :: rest => some (.list { frame with items := addToLast frame.items taken } :: rest)
  | _ => none

/-- `flush_paragraph`. -/
def State.flushParagraph (state : State) : State :=
  let taken := trimRuns state.runs
  let state := { state with runs := [] }
  if taken.isEmpty then state
  else
    match placeRuns taken state.stack with
    | some stack => { state with stack }
    | none => state.push (if isTocMarker taken then .toc 3 else .paragraph taken)

/-- An item is added to a list. -/
def ListFrame.addItem (frame : ListFrame) (depth : ℕ) : ListFrame :=
  { frame with depth, items := frame.items ++ [⟨[], min depth 8⟩] }

/-- The innermost list is changed. -/
def modifyList (f : ListFrame → ListFrame) : List Container → List Container
  | [] => []
  | .list frame :: rest => .list (f frame) :: rest
  | container :: rest => container :: modifyList f rest

/-- The innermost container is changed if it is a table. -/
def modifyTable (f : TableFrame → TableFrame) : List Container → List Container
  | .table frame :: rest => .table (f frame) :: rest
  | stack => stack

/-- `matches!(c, Container::List(_))`. -/
def Container.isList : Container → Bool
  | .list _ => true
  | _ => false

/-- The containers in which a displayed equation stays inline. -/
def Container.holdsMath : Container → Bool
  | .paragraph => false
  | _ => true

/-- The language of a code block: the first word of the info of its fence. -/
def language (info : List Char) : Option (List Char) :=
  let word := (trimStart info).takeWhile fun c => !isWhitespace c
  if word.isEmpty then none else some word

/-- The URLs that are kept as links. -/
def isLink (url : List Char) : Bool :=
  let lower := toAsciiLowercase url
  startsWith lower "http://" || startsWith lower "https://" || startsWith lower "mailto:"

/-- The alignment of a cell's column. -/
def cellAlign : Option Alignment → Option Align
  | some .center => some .center
  | some .right => some .right
  | some .left => some .left
  | _ => none

/-! ## Steps -/

/-- `Event::Start`. -/
def State.startTag (state : State) : Tag → State
  | .paragraph => { state with stack := .paragraph :: state.stack }
  | .heading level => { state with stack := .heading (headingLevel level) :: state.stack }
  | .blockQuote => { state with stack := .quote [] :: state.stack }
  | .codeBlock info => { state.flushParagraph with code := some ([], info.bind language) }
  | .list start =>
    let state := state.flushParagraph
    if state.stack.any Container.isList then
      -- The depth is a `u8` that saturates.
      { state with listDepth := min (state.listDepth + 1) 255 }
    else
      { state with
        listDepth := 0
        stack :=
          .list ⟨start.isSome, (start.map (· % 2 ^ 32)).filter (· ≠ 1), [], 0⟩ :: state.stack }
  | .item =>
    let state := state.flushParagraph
    { state with
      stack := modifyList (fun frame => frame.addItem state.listDepth) state.stack }
  | .table alignments =>
    let state := state.flushParagraph
    { state with stack := .table ⟨alignments, [], [], false, false⟩ :: state.stack }
  | .tableHead =>
    { state with stack := modifyTable (fun frame => { frame with head := true }) state.stack }
  | .tableRow => state
  | .tableCell =>
    { state with stack := modifyTable (fun frame => { frame with inCell := true }) state.stack }
  | .emphasis => { state with inline := { state.inline with italic := state.inline.italic + 1 } }
  | .strong => { state with inline := { state.inline with bold := state.inline.bold + 1 } }
  | .strikethrough =>
    { state with inline := { state.inline with strike := state.inline.strike + 1 } }
  | .link url =>
    { state with inline := { state.inline with link := if isLink url then some url else none } }
  | .image url => { state with image := some (url, []) }
  | .htmlBlock | .footnoteDefinition | .metadataBlock => state

/-- `TagEnd::List` at depth zero: a list that was the innermost container is pushed without its
empty items. -/
def State.endList (state : State) : State :=
  match state.stack with
  | .list frame :: stack =>
    let items := frame.items.filter fun item => !item.runs.isEmpty
    let state := { state with stack }
    if items.isEmpty then state else state.push (.list frame.ordered frame.start items)
  | _ => { state with stack := state.stack.tail }

/-- `TagEnd::TableCell`. -/
def State.endCell (state : State) : State :=
  match state.stack with
  | .table frame :: stack =>
    let cell : TableCell :=
      ⟨trimRuns state.runs, cellAlign frame.alignments[frame.currentRow.length]?⟩
    { state with
      runs := []
      stack := .table
        { frame with currentRow := frame.currentRow ++ [cell], inCell := false } :: stack }
  | _ => state

/-- The row of a table is finished. -/
def TableFrame.endRow (frame : TableFrame) : TableFrame :=
  { frame with
    currentRow := []
    rows := if frame.currentRow.isEmpty then frame.rows else frame.rows ++ [frame.currentRow] }

/-- `Event::End`. -/
def State.endTag (state : State) : TagEnd → State
  | .paragraph =>
    let state := state.flushParagraph
    match state.stack with
    | .paragraph :: stack => { state with stack }
    | _ => state
  | .heading =>
    match state.stack with
    | .heading level :: stack =>
      let taken := trimRuns state.runs
      let state := { state with stack, runs := [] }
      if taken.isEmpty then state else state.push (.heading level taken)
    | _ => { state with stack := state.stack.tail }
  | .blockQuote =>
    let state := state.flushParagraph
    match state.stack with
    | .quote runs :: stack =>
      let state := { state with stack }
      if runs.isEmpty then state else state.push (.quote runs)
    | _ => { state with stack := state.stack.tail }
  | .list =>
    let state := state.flushParagraph
    if 0 < state.listDepth then { state with listDepth := state.listDepth - 1 }
    else state.endList
  | .item => state.flushParagraph
  | .tableCell => state.endCell
  | .tableHead | .tableRow =>
    { state with stack := modifyTable TableFrame.endRow state.stack }
  | .table =>
    match state.stack with
    | .table frame :: stack =>
      let state := { state with stack }
      if frame.rows.isEmpty then state
      else state.push (.table frame.rows (if frame.head then 1 else 0))
    | _ => { state with stack := state.stack.tail }
  | .emphasis => { state with inline := { state.inline with italic := state.inline.italic - 1 } }
  | .strong => { state with inline := { state.inline with bold := state.inline.bold - 1 } }
  | .strikethrough =>
    { state with inline := { state.inline with strike := state.inline.strike - 1 } }
  | .link => { state with inline := { state.inline with link := none } }
  | .codeBlock | .htmlBlock | .footnoteDefinition | .image | .metadataBlock => state

/-- A run is added to the buffer. -/
def State.pushRun (state : State) (run : Run) : State :=
  { state with runs := Markdown.pushRun state.runs run }

/-- `Event::DisplayMath`: an equation outside other containers is a paragraph. -/
def State.displayMath (state : State) (text : List Char) : State :=
  let run := state.inline.run text false
  if state.stack.any Container.holdsMath then
    state.pushRun { run with math := some .inline }
  else state.flushParagraph.push (.paragraph [{ run with math := some .display }])

/-- HTML that asks for a page break. -/
def isPageBreak (html : List Char) : Bool :=
  let lower := toAsciiLowercase html
  contains lower "pagebreak".toList || contains lower "page-break".toList

/-- `Event::Html`: page breaks and line breaks. -/
def State.html (state : State) (html : List Char) : State :=
  if isPageBreak html then state.flushParagraph.push .pageBreak
  else if startsWith (trimStart (toAsciiLowercase html)) "<br" then
    state.pushRun (state.inline.run ['\n'] false)
  else state

/-- The marker of a task. -/
def taskMarker (checked : Bool) : List Char := if checked then ['☑', ' '] else ['☐', ' ']

/-- An event outside code blocks and images. -/
def State.handle (state : State) : Event → State
  | .start tag => state.startTag tag
  | .stop tag => state.endTag tag
  | .text text => state.pushRun (state.inline.run text false)
  | .code text => state.pushRun (state.inline.run text true)
  | .inlineMath text =>
    state.pushRun { state.inline.run text false with math := some .inline }
  | .displayMath text => state.displayMath text
  | .softBreak => state.pushRun (state.inline.run [' '] false)
  | .hardBreak => state.pushRun (state.inline.run ['\n'] false)
  | .rule => state.flushParagraph.push .horizontalRule
  | .taskListMarker checked => state.pushRun (Run.plain (taskMarker checked))
  | .html html => state.html html
  | .footnoteReference => state

/-- An event in a code block. -/
def State.inCode (state : State) (text : List Char) (language : Option (List Char)) :
    Event → State
  | .text value => { state with code := some (text ++ value, language) }
  | .stop .codeBlock =>
    { state with code := none }.push (.code (text.rdropWhile (· == '\n')) language)
  | _ => state

/-- An event in an image. -/
def State.inImage (state : State) (src alt : List Char) : Event → State
  | .text value | .code value => { state with image := some (src, alt ++ value) }
  | .stop .image =>
    -- Pictures are blocks: the text before is closed.
    { state with image := none }.flushParagraph.push
      (.image src .center (if isBlank alt then none else some (trim alt)))
  | _ => state

/-- One event. -/
def State.step (state : State) (event : Event) : State :=
  match state.code, state.image with
  | some (text, language), _ => state.inCode text language event
  | none, some (src, alt) => state.inImage src alt event
  | none, none => state.handle event

/-- `markdown_to_blocks`, from the parser's events on. -/
def markdownToBlocks (events : List Event) : List Block :=
  (events.foldl State.step .initial).flushParagraph.blocks

end Markdown

end OpenBitFun
