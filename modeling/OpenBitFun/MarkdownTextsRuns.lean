import OpenBitFun.MarkdownLedger

/-!
# Runs of the converter keep the texts

The containers of the converter are those of the open tags (`Shape`). With the ledger this is an
invariant of its runs: a run whose steps all keep the texts gives blocks that are read as the
stream (`textsKept`).
-/

namespace OpenBitFun

open List

namespace Markdown

open Text

variable {text : List Char} {runs taken : List Run} {items : List ListItem}
  {stack : List Container} {state : State} {stream : Stream} {blocks : List Block}
  {pending : List Char} {read : List (Char × Option ℕ)} {container : Container} {block : Block}

/-! ## Flushing -/

theorem placeRuns_texts {stack' : List Container} (hplace : placeRuns taken stack = some stack')
    (h : Texts blocks stack pending stream read) (htaken : readRuns taken = pending)
    (hlist : ∀ frame, stack.find? (fun container => !container.isParagraph) = some (.list frame) →
      ∃ m, stream.newest = some m ∧ stream.owner = some m ∧ m < stream.position ∧
        ∀ tag ∈ stream.opened, tag.1 = .tableCell → tag.2 ≠ m)
    (hsingle : stack.countP Container.isList ≤ 1) :
    Texts blocks stack' [] stream read := by
  induction stack generalizing stack' with
  | nil => cases hplace
  | cons container stack ih =>
    cases container with
    | paragraph =>
      obtain ⟨rest, hrest, rfl⟩ := Option.map_eq_some_iff.mp hplace
      exact Texts.paragraph_iff.mpr (ih hrest (Texts.paragraph_iff.mp h) hlist hsingle)
    | heading level => cases hplace
    | quote runs =>
      obtain rfl := Option.some.inj hplace
      exact h.flush_quote htaken
    | list frame =>
      obtain rfl := Option.some.inj hplace
      obtain ⟨m, hnewest, howner, hbound, hcells⟩ := hlist frame rfl
      rw [countP_cons_of_pos rfl] at hsingle
      exact h.flush_list htaken hnewest howner hbound hcells
        (any_eq_false.mpr (countP_eq_zero.mp (by omega)))
    | table frame => cases hplace

theorem placeRuns_eq_none (h : placeRuns taken stack = none) :
    ∀ container, stack.find? (fun container => !container.isParagraph) = some container →
      (∀ runs, container ≠ .quote runs) ∧ ∀ frame, container ≠ .list frame := by
  induction stack with
  | nil => exact fun container hfind => by cases hfind
  | cons first stack ih =>
    cases first with
    | paragraph => exact ih (Option.map_eq_none_iff.mp h)
    | heading level =>
      intro container hfind
      obtain rfl := Option.some.inj hfind
      exact ⟨fun _ heq => Container.noConfusion heq, fun _ heq => Container.noConfusion heq⟩
    | quote runs => cases h
    | list frame => cases h
    | table frame =>
      intro container hfind
      obtain rfl := Option.some.inj hfind
      exact ⟨fun _ heq => Container.noConfusion heq, fun _ heq => Container.noConfusion heq⟩

/-- What a container is. -/
inductive Kind
  | paragraph
  | heading
  | quote
  | list
  | table
  deriving DecidableEq

/-- The kind of a container. -/
def Container.kind : Container → Kind
  | .paragraph => .paragraph
  | .heading _ => .heading
  | .quote _ => .quote
  | .list _ => .list
  | .table _ => .table

theorem kind_placeRuns {stack' : List Container} (h : placeRuns taken stack = some stack') :
    stack'.map Container.kind = stack.map Container.kind := by
  induction stack generalizing stack' with
  | nil => cases h
  | cons container stack ih =>
    cases container with
    | paragraph =>
      obtain ⟨rest, hrest, rfl⟩ := Option.map_eq_some_iff.mp h
      rw [map_cons, map_cons, ih hrest]
    | heading level => cases h
    | quote runs =>
      obtain rfl := Option.some.inj h
      rfl
    | list frame =>
      obtain rfl := Option.some.inj h
      rfl
    | table frame => cases h

/-- Flushing empties the buffer; the containers stay what they are, and the rest stays as it is. -/
theorem flushParagraph_fields (state : State) :
    state.flushParagraph.runs = [] ∧ state.flushParagraph.code = state.code ∧
      state.flushParagraph.image = state.image ∧
      state.flushParagraph.listDepth = state.listDepth ∧
      state.flushParagraph.stack.map Container.kind = state.stack.map Container.kind := by
  rw [State.flushParagraph]
  by_cases hempty : (trimRuns state.runs).isEmpty = true
  · simp only [hempty, if_true, and_self]
  · simp only [hempty]
    cases hplace : placeRuns (trimRuns state.runs) state.stack with
    | none => exact ⟨rfl, rfl, rfl, rfl, rfl⟩
    | some stack => exact ⟨rfl, rfl, rfl, rfl, kind_placeRuns hplace⟩

/-- Flushing into the innermost container, a quote or a list, changes nothing else. -/
theorem flush_top {container : Container} (hsplit : state.stack = container :: stack)
    (hkind : container.kind = .quote ∨ container.kind = .list) :
    ∃ container', state.flushParagraph.stack = container' :: stack ∧
      container'.kind = container.kind ∧
      (readRuns state.runs = [] → container'.segments = container.segments) := by
  rw [State.flushParagraph]
  by_cases hempty : (trimRuns state.runs).isEmpty = true
  · simp only [hempty, if_true]
    exact ⟨container, hsplit, rfl, fun _ => rfl⟩
  · simp only [hempty, hsplit]
    cases container with
    | quote runs =>
      refine ⟨.quote (addLine runs (trimRuns state.runs)), rfl, rfl, fun hnil => ?_⟩
      rw [Container.segments, Container.segments, readRuns_addLine, readRuns_trimRuns, hnil,
        append_nil]
    | list frame =>
      refine ⟨.list { frame with items := addToLast frame.items (trimRuns state.runs) }, rfl, rfl,
        fun hnil => ?_⟩
      obtain ⟨ordered, start, items, depth⟩ := frame
      obtain rfl | ⟨init, last, hitems⟩ := eq_nil_or_concat items
      · rfl
      · rw [concat_eq_append] at hitems
        subst hitems
        simp only [Container.segments, addToLast_concat, map_append, map_cons,
          map_nil, readRuns_addLine, readRuns_trimRuns, hnil, append_nil]
    | _ => obtain hkind | hkind := hkind <;> cases hkind

/-- The innermost container, a quote or a list, can be pushed after a flush. -/
theorem nothing_of_popKeeps {container : Container} (hkeeps : popKeeps state)
    (hkind : container.kind = .quote ∨ container.kind = .list)
    (hsplit : state.flushParagraph.stack = container :: stack) :
    compact container.segments = [] ∨ holdNothing stack := by
  have hkinds := (flushParagraph_fields state).2.2.2.2
  rw [hsplit] at hkinds
  cases hstack : state.stack with
  | nil =>
    rw [hstack] at hkinds
    cases hkinds
  | cons first rest =>
    rw [hstack, map_cons, map_cons] at hkinds
    have hfirst := (List.cons.inj hkinds).1
    obtain ⟨container', hsplit', -, hsame⟩ := flush_top hstack (hfirst ▸ hkind)
    obtain ⟨rfl, rfl⟩ := List.cons.inj (hsplit.symm.trans hsplit')
    rw [popKeeps, hstack] at hkeeps
    obtain hnothing | hnothing := Bool.or_eq_true_iff.mp hkeeps
    · exact .inr hnothing
    · obtain ⟨hruns, hfirst'⟩ := Bool.and_eq_true_iff.mp hnothing
      rw [take_succ_cons, holdNothing_cons] at hfirst'
      rw [hsame (isEmpty_iff.mp hruns)]
      exact .inl (isEmpty_iff.mp (Bool.and_eq_true_iff.mp hfirst').1)

/-- A stream's numbers: those of open tags go down, and none has been reached yet by the next
event. -/
structure Stream.Numbered (stream : Stream) : Prop where
  opened : stream.opened.Pairwise fun tag tag' => tag'.2 < tag.2
  bounded : ∀ tag ∈ stream.opened, tag.2 < stream.position
  newest : ∀ m ∈ stream.newest, m < stream.position ∧
    ∀ tag ∈ stream.opened, tag.1 = .tableCell → tag.2 ≠ m

/-- **Flushing** keeps the texts. -/
theorem flush_texts (h : Texts state.blocks state.stack (readRuns state.runs) stream read)
    (hkeeps : flushKeeps state stream) (hnumbered : stream.Numbered)
    (hsingle : state.stack.countP Container.isList ≤ 1) :
    Texts state.flushParagraph.blocks state.flushParagraph.stack [] stream read := by
  have htaken := readRuns_trimRuns state.runs
  rw [flushKeeps] at hkeeps
  rw [State.flushParagraph]
  by_cases hempty : (trimRuns state.runs).isEmpty = true
  · rw [isEmpty_iff.mp hempty] at htaken
    rw [← htaken] at h
    simp only [hempty, if_true]
    exact h
  · simp only [hempty, Bool.false_or] at hkeeps ⊢
    cases hplace : placeRuns (trimRuns state.runs) state.stack with
    | some stack =>
      refine placeRuns_texts hplace h htaken (fun frame hfind => ?_) hsingle
      rw [hfind] at hkeeps
      obtain ⟨hsome, howner⟩ := Bool.and_eq_true_iff.mp hkeeps
      obtain ⟨m, hm⟩ := Option.isSome_iff_exists.mp hsome
      exact ⟨m, hm, (beq_iff_eq.mp howner).trans hm, hnumbered.newest m hm⟩
    | none =>
      have hnone := placeRuns_eq_none hplace
      obtain ⟨hnothing, htoc⟩ : holdNothing state.stack = true ∧
          isTocMarker (trimRuns state.runs) = false := by
        cases hfind : state.stack.find? fun container => !container.isParagraph with
        | none =>
          rw [hfind] at hkeeps
          simpa using hkeeps
        | some container =>
          rw [hfind] at hkeeps
          obtain ⟨hquote, hlist⟩ := hnone container hfind
          cases container with
          | quote runs => exact absurd rfl (hquote runs)
          | list frame => exact absurd rfl (hlist frame)
          | _ => simpa using hkeeps
      simp only [htoc]
      exact h.push_free (by rw [← htaken]; rfl) (.inr hnothing)

theorem kind_modifyTable (f : TableFrame → TableFrame) (stack : List Container) :
    (modifyTable f stack).map Container.kind = stack.map Container.kind := by
  cases stack with
  | nil => rfl
  | cons container stack => cases container <;> rfl

theorem kind_modifyList (f : ListFrame → ListFrame) (stack : List Container) :
    (modifyList f stack).map Container.kind = stack.map Container.kind := by
  induction stack with
  | nil => rfl
  | cons container stack ih =>
    cases container <;> first | rfl | exact congrArg (List.cons _) ih

/-! ## The shape of a state -/

/-- The container that a tag opens. -/
def Tag.kind : Tag → Option Kind
  | .paragraph => some .paragraph
  | .heading _ => some .heading
  | .blockQuote => some .quote
  | .list _ => some .list
  | .table _ => some .table
  | _ => none

/-- The containers of open tags. Lists in lists have none of their own. -/
def kinds : List Tag → List Kind
  | [] => []
  | tag :: tags =>
    match tag.kind with
    | none => kinds tags
    | some .list => if tags.any Tag.isList then kinds tags else .list :: kinds tags
    | some kind => kind :: kinds tags

/-- `Tag::CodeBlock(_)`. -/
def Tag.isCode : Tag → Bool
  | .codeBlock _ => true
  | _ => false

/-- Tags in which no text comes to the buffer. -/
def Tag.isGap : Tag → Bool
  | .codeBlock _ | .list _ | .table _ | .tableHead | .tableRow => true
  | _ => false

/-- `Tag::Table(_)`. -/
def Tag.isTable : Tag → Bool
  | .table _ => true
  | _ => false

/-- A table on top has no row that is not finished. -/
def RowFinished (stack : List Container) : Prop :=
  ∀ frame rest, stack = .table frame :: rest → frame.currentRow = []

/-- Every open tag is accepted in the one around it. -/
def Nested : List Tag → Prop
  | [] => True
  | tag :: tags => accepts tags.head? (.start tag) ∧ Nested tags

/-- **The shape of a state** is that of the open tags. -/
structure Shape (state : State) (tags : List Tag) : Prop where
  kinds : state.stack.map Container.kind = kinds tags
  depth : state.listDepth = tags.countP Tag.isList - 1
  code : state.code.isSome = tags.head?.any Tag.isCode
  image : state.image.isSome = tags.any Tag.isImage
  single : tags.countP Tag.isImage ≤ 1
  gap : tags.head?.any Tag.isGap → state.runs = []
  plain : tags.head?.any Tag.isCode → tags.any Tag.isImage = false
  nested : Nested tags
  row : tags.head?.any Tag.isTable → RowFinished state.stack

theorem list_mem_kinds (tags : List Tag) : .list ∈ kinds tags ↔ tags.any Tag.isList := by
  induction tags with
  | nil => simp [kinds]
  | cons tag tags ih =>
    cases tag with
    | list start =>
      by_cases hany : tags.any Tag.isList = true
      · simp only [kinds, Tag.kind, hany, if_true, ih, any_cons, Bool.or_true]
      · simp only [kinds, Tag.kind, hany, any_cons, Tag.isList, Bool.true_or]
        exact iff_of_true mem_cons_self trivial
    | _ => simp [kinds, Tag.kind, Tag.isList, ih]

theorem count_list_kinds (tags : List Tag) : (kinds tags).count .list ≤ 1 := by
  induction tags with
  | nil => simp [kinds]
  | cons tag tags ih =>
    cases tag with
    | list start =>
      by_cases hany : tags.any Tag.isList = true
      · rw [kinds, Tag.kind]
        simpa only [hany, if_true] using ih
      · have hzero : (kinds tags).count .list = 0 :=
          count_eq_zero.mpr fun hmem => hany ((list_mem_kinds tags).mp hmem)
        rw [kinds, Tag.kind]
        simp [hany, hzero]
    | _ => simpa [kinds, Tag.kind] using ih

namespace Shape

variable {tags : List Tag} {tag : Tag}

/-- There is a list on the stack exactly if one is open. -/
theorem any_isList (h : Shape state tags) :
    state.stack.any Container.isList = tags.any Tag.isList := by
  have hmem : state.stack.any Container.isList = true ↔ .list ∈ state.stack.map Container.kind := by
    rw [any_eq_true, mem_map]
    refine exists_congr fun container => and_congr_right fun _ => ?_
    cases container <;> simp [Container.isList, Container.kind]
  rw [h.kinds, list_mem_kinds] at hmem
  exact Bool.eq_iff_iff.mpr hmem

theorem countP_isList (h : Shape state tags) : state.stack.countP Container.isList ≤ 1 := by
  have hcount : state.stack.countP Container.isList =
      (state.stack.map Container.kind).count .list := by
    rw [List.count, countP_map]
    refine countP_congr fun container _ => ?_
    cases container <;> simp [Container.isList, Container.kind]
  rw [hcount, h.kinds]
  exact count_list_kinds tags

/-- The shape depends on what is flushed only through the buffer. -/
theorem flush (h : Shape state tags) : Shape state.flushParagraph tags := by
  obtain ⟨hruns, hcode, himage, hdepth, hstack⟩ := flushParagraph_fields state
  refine ⟨hstack.trans h.kinds, hdepth.trans h.depth, ?_, ?_, h.single, fun _ => hruns, h.plain,
    h.nested, fun htable => ?_⟩
  · rw [hcode]
    exact h.code
  · rw [himage]
    exact h.image
  · -- Directly in a table there is nothing to flush.
    have hgap : tags.head?.any Tag.isGap = true := by
      generalize tags.head? = parent at htable
      cases parent with
      | none => cases htable
      | some parent => cases parent <;> first | rfl | cases htable
    have hself : state.flushParagraph.stack = state.stack := by
      rw [State.flushParagraph, h.gap hgap]
      rfl
    rw [hself]
    exact h.row htable

theorem start (h : Shape state tags) {state' : State} (haccepts : accepts tags.head? (.start tag))
    (hstack : state'.stack.map Container.kind = Markdown.kinds (tag :: tags))
    (hdepth : state'.listDepth = (tag :: tags).countP Tag.isList - 1)
    (hcode : state'.code.isSome = tag.isCode) (himage : state'.image.isSome =
      (tag.isImage || state.image.isSome)) (hnone : state.image = none)
    (hruns : tag.isGap → state'.runs = []) (hrow : tag.isTable → RowFinished state'.stack) :
    Shape state' (tag :: tags) := by
  have hany : tags.any Tag.isImage = false := by
    rw [← h.image, hnone]
    rfl
  have hzero : tags.countP Tag.isImage = 0 :=
    countP_eq_zero.mpr fun tag htag => any_eq_false.mp hany tag htag
  refine ⟨hstack, hdepth, hcode, ?_, ?_, hruns, fun hcode' => ?_,
    ⟨haccepts, h.nested⟩, hrow⟩
  · rw [himage, h.image, any_cons]
  · rw [countP_cons, hzero]
    split <;> omega
  · rw [any_cons, hany, Bool.or_false]
    cases tag <;> first | rfl | cases hcode'

theorem start_quiet (h : Shape state tags) {state' : State}
    (haccepts : accepts tags.head? (.start tag)) (hkind : tag.kind = none)
    (hcode : tag.isCode = false) (himage : tag.isImage = false)
    (hstack : state'.stack.map Container.kind = state.stack.map Container.kind)
    (hdepth : state'.listDepth = state.listDepth) (hcode' : state'.code = none)
    (himage' : state'.image = none) (hnone : state.image = none)
    (hruns : tag.isGap → state'.runs = []) : Shape state' (tag :: tags) := by
  have hlist : tag.isList = false := by
    cases tag <;> first | rfl | cases hkind
  refine h.start haccepts ?_ ?_ ?_ ?_ hnone hruns fun htable => ?_
  · rw [hstack, h.kinds, Markdown.kinds, hkind]
  · rw [hdepth, h.depth, countP_cons_of_neg (by simp [hlist])]
  · rw [hcode', hcode]
    rfl
  · rw [himage', himage, hnone]
    rfl
  · cases tag <;> first | exact absurd htable Bool.false_ne_true | cases hkind

/-- A tag is not in a code block, and tags in a tag with text in the buffer are no gaps. -/
theorem of_accepts {parent : Option Tag} (h : accepts parent (.start tag)) :
    parent.any Tag.isCode = false ∧ (tag.hasInline → tag.isOwner = false →
      parent.any Tag.isGap = false) ∧ (tag = .htmlBlock → parent.any Tag.isGap = false) ∧
    (parent.any Tag.isTable → tag = .tableHead ∨ tag = .tableRow) := by
  cases parent with
  | none => exact ⟨rfl, fun _ _ => rfl, fun _ => rfl, nofun⟩
  | some parent => cases parent <;> cases tag <;> simp_all [accepts, Tag.isCode, Tag.isGap,
      Tag.hasInline, Tag.hasBlocks, Tag.isOwner, Tag.isList, Tag.isTable]

theorem stop (h : Shape state (tag :: tags)) {state' : State}
    (hstack : state'.stack.map Container.kind = Markdown.kinds tags)
    (hdepth : state'.listDepth = tags.countP Tag.isList - 1) (hcode : state'.code = none)
    (himage : state'.image.isSome = tags.any Tag.isImage)
    (hruns : tags.head?.any Tag.isGap → state'.runs = [])
    (hrow : tag = .tableHead ∨ tag = .tableRow → RowFinished state'.stack) :
    Shape state' tags := by
  obtain ⟨haccepts, hnested⟩ := h.nested
  have hparent := (of_accepts haccepts).1
  refine ⟨hstack, hdepth, ?_, himage, ?_, hruns, fun hyes => ?_, hnested,
    fun htable => hrow ((of_accepts haccepts).2.2.2 htable)⟩
  · rw [hcode, hparent]
    rfl
  · have hsingle := h.single
    rw [countP_cons] at hsingle
    omega
  · rw [hparent] at hyes
    cases hyes

end Shape

/-! ## Streams -/

theorem Stream.Numbered.step (h : stream.Numbered) (event : Event) :
    (stream.step event).Numbered := by
  have hbounded : ∀ tag ∈ stream.opened, tag.2 < stream.position + 1 :=
    fun tag htag => Nat.lt_succ_of_lt (h.bounded tag htag)
  have hnewest : ∀ m ∈ stream.newest, m < stream.position + 1 ∧
      ∀ tag ∈ stream.opened, tag.1 = .tableCell → tag.2 ≠ m :=
    fun m hm => ⟨Nat.lt_succ_of_lt (h.newest m hm).1, (h.newest m hm).2⟩
  cases event with
  | start tag =>
    refine ⟨.cons (fun tag' htag' => h.bounded tag' htag') h.opened,
      forall_mem_cons.mpr ⟨Nat.lt_succ_self _, hbounded⟩, fun m hm => ?_⟩
    -- The newest item is the one that starts, or an older one.
    have hcases : (tag = .item ∧ m = stream.position) ∨ m ∈ stream.newest := by
      cases tag with
      | item => exact .inl ⟨rfl, (Option.some.inj hm).symm⟩
      | list start =>
        simp only [Stream.step] at hm
        split at hm
        · exact .inr hm
        · cases hm
      | _ => exact .inr hm
    obtain ⟨rfl, rfl⟩ | hm := hcases
    · refine ⟨Nat.lt_succ_self _, forall_mem_cons.mpr ⟨fun hcell => ?_,
        fun tag' htag' _ => ?_⟩⟩
      · cases hcell
      · exact (h.bounded tag' htag').ne
    · exact ⟨(hnewest m hm).1, forall_mem_cons.mpr
        ⟨fun _ => (h.newest m hm).1.ne', (h.newest m hm).2⟩⟩
  | stop tag =>
    exact ⟨h.opened.tail, fun tag' htag' => hbounded tag' (mem_of_mem_tail htag'),
      fun m hm => ⟨(hnewest m hm).1, fun tag' htag' => (h.newest m hm).2 tag'
        (mem_of_mem_tail htag')⟩⟩
  | _ => exact ⟨h.opened, hbounded, hnewest⟩

/-- An event that opens and closes nothing. -/
def Event.isPlain : Event → Bool
  | .start _ | .stop _ => false
  | _ => true

theorem step_plain (stream : Stream) {event : Event} (h : event.isPlain) :
    stream.step event = ⟨stream.opened, stream.position + 1, stream.newest⟩ := by
  cases event <;> first | rfl | cases h

namespace Texts

/-- An event that opens and closes nothing. -/
theorem step_plain (h : Texts blocks stack pending stream read) {event : Event}
    (hevent : event.isPlain) : Texts blocks stack pending (stream.step event) read := by
  rw [Markdown.step_plain stream hevent]
  exact h.restream (.inr rfl) rfl (Nat.le_succ _) fun tag htag _ => .inl htag

/-- A tag that is neither an item nor a list is opened. -/
theorem step_start (h : Texts blocks stack pending stream read) (tag : Tag)
    (howner : pending = [] ∨ tag.isOwner = false)
    (hnewest : (stream.step (.start tag)).newest = stream.newest) :
    Texts blocks stack pending (stream.step (.start tag)) read := by
  refine h.restream (howner.imp_right fun howner => ?_) hnewest (Nat.le_succ _)
    fun tag' htag' _ => ?_
  · have hopened : (stream.step (.start tag)).opened = (tag, stream.position) :: stream.opened :=
      rfl
    rw [Stream.owner, hopened, find?_cons_of_neg (by simp [howner])]
    rfl
  · obtain rfl | htag' := mem_cons.mp htag'
    · exact .inr le_rfl
    · exact .inl htag'

theorem step_stop (h : Texts blocks stack pending stream read) {tag : Tag} {n : ℕ}
    {opened : List (Tag × ℕ)} (hopened : stream.opened = (tag, n) :: opened)
    (howner : pending = [] ∨ tag.isOwner = false) (tagEnd : TagEnd) :
    Texts blocks stack pending (stream.step (.stop tagEnd)) read := by
  refine h.restream (howner.imp_right fun howner => ?_) rfl (Nat.le_succ _) fun tag' htag' _ => ?_
  · have htail : (stream.step (.stop tagEnd)).opened = opened := by
      rw [Stream.step, hopened]
      rfl
    rw [Stream.owner, Stream.owner, htail, hopened, find?_cons_of_neg (by simp [howner])]
  · exact .inl (mem_of_mem_tail htag')

end Texts

/-! ## Steps -/

/-- The text that is in no block and in no container. -/
def State.unplaced (state : State) : List Char :=
  readRuns state.runs ++ state.code.elim [] fun code => nonblank code.1

/-- **The invariant of a run.** -/
structure Inv (state : State) (stream : Stream) (read : List (Char × Option ℕ)) : Prop where
  shape : Shape state (stream.opened.map Prod.fst)
  texts : Texts state.blocks state.stack state.unplaced stream read
  numbered : stream.Numbered

theorem unplaced_of_none (h : state.code = none) : state.unplaced = readRuns state.runs := by
  rw [State.unplaced, h]
  exact append_nil _

theorem payload_of_inside (h : stream.inside Tag.isImage) (event : Event) :
    stream.payload event = [] := by
  have hreads : stream.reads event = [] := if_pos h
  rw [Stream.payload, hreads]
  rfl

/-- Only texts and the markers of tasks are read. -/
theorem payload_of_text (h : stream.inside Tag.isImage = false) {event : Event}
    (hevent : event = .text text ∨ event = .code text ∨ event = .inlineMath text ∨
      event = .displayMath text ∨ ∃ checked, event = .taskListMarker checked ∧
        text = taskMarker checked) :
    stream.payload event = (nonblank text).map fun c => (c, stream.owner) := by
  have hinside : ¬stream.inside Tag.isImage = true := by
    rw [h]
    exact Bool.false_ne_true
  have hreads : stream.reads event = nonblank text := by
    obtain rfl | rfl | rfl | rfl | ⟨checked, rfl, rfl⟩ := hevent <;> exact if_neg hinside
  rw [Stream.payload, hreads]

/-- The events that have no text. -/
def Event.isSilent : Event → Bool
  | .text _ | .code _ | .inlineMath _ | .displayMath _ | .taskListMarker _ => false
  | _ => true

theorem payload_of_silent {event : Event} (h : event.isSilent) : stream.payload event = [] := by
  have hreads : stream.reads event = [] := by
    cases event <;> first | exact ite_self _ | cases h
  rw [Stream.payload, hreads]
  rfl

theorem inside_eq (stream : Stream) (test : Tag → Bool) :
    stream.inside test = (stream.opened.map Prod.fst).any test := by
  rw [Stream.inside, any_map]
  rfl

/-- Tags of inline content. -/
def Tag.isSpan : Tag → Bool
  | .emphasis | .strong | .strikethrough | .link _ | .image _ => true
  | _ => false

theorem isSpan_of_accepts {parent tag : Tag} (hparent : parent.isSpan)
    (h : accepts (some parent) (.start tag)) : tag.isSpan := by
  cases parent <;> cases tag <;> simp_all [accepts, Tag.isSpan, Tag.hasBlocks, Tag.isList]

/-- In an image there is only inline content. -/
theorem isSpan_of_image {tags : List Tag} (h : Nested tags) (himage : tags.any Tag.isImage) :
    ∃ tag ∈ tags.head?, tag.isSpan := by
  induction tags with
  | nil => cases himage
  | cons tag tags ih =>
    refine ⟨tag, rfl, ?_⟩
    by_cases hfirst : tag.isImage = true
    · cases tag <;> first | rfl | cases hfirst
    · have hrest : tags.any Tag.isImage = true := by simpa [hfirst] using himage
      obtain ⟨parent, hparent, hspan⟩ := ih h.2 hrest
      have haccepts := h.1
      rw [Option.mem_def.mp hparent] at haccepts
      exact isSpan_of_accepts hspan haccepts

namespace Inv

variable {event : Event}

theorem step_code (h : Inv state stream read) {language : Option (List Char)}
    (hcode : state.code = some (text, language))
    (haccepts : accepts (stream.opened.head?.map Prod.fst) event)
    (hkeeps : keeps state stream event) :
    Inv (state.step event) (stream.step event) (read ++ stream.payload event) := by
  obtain ⟨hshape, htexts, hnumbered⟩ := h
  obtain ⟨opened, position, newest⟩ := stream
  have hhead := hshape.code
  rw [hcode] at hhead
  obtain ⟨info, n, rest, rfl⟩ : ∃ info n rest, opened = (.codeBlock info, n) :: rest := by
    cases opened with
    | nil => cases hhead
    | cons tag rest =>
      obtain ⟨tag, n⟩ := tag
      cases tag with
      | codeBlock info => exact ⟨info, n, rest, rfl⟩
      | _ => cases hhead
  have hruns : state.runs = [] := hshape.gap rfl
  have hplain : Stream.inside ⟨(.codeBlock info, n) :: rest, position, newest⟩ Tag.isImage =
      false := by
    rw [inside_eq]
    exact hshape.plain rfl
  have hunplaced : state.unplaced = nonblank text := by
    rw [State.unplaced, hruns, hcode]
    rfl
  rw [hunplaced] at htexts
  have himage : state.image = none := by
    have hnone := hshape.image
    rw [← inside_eq ⟨(.codeBlock info, n) :: rest, position, newest⟩, hplain] at hnone
    exact Option.not_isSome_iff_eq_none.mp (by rw [hnone]; exact Bool.false_ne_true)
  have hstep : state.step event = state.inCode text language event := by
    rw [State.step, hcode]
  rw [hstep]
  cases event with
  | text value =>
    refine ⟨⟨hshape.kinds, hshape.depth, hhead, hshape.image, hshape.single, fun _ => hruns,
      hshape.plain, hshape.nested, hshape.row⟩, ?_, hnumbered.step _⟩
    have hevent : Event.isPlain (.text value) = true := rfl
    have hvalue := (htexts.reads (nonblank value)).step_plain hevent
    rw [payload_of_text hplain (.inl rfl)]
    simpa only [State.inCode, State.unplaced, hruns, readRuns_nil, nil_append,
      Option.elim_some, nonblank_append] using hvalue
  | stop tag =>
    obtain rfl : TagEnd.codeBlock = tag := by
      simpa [accepts, Tag.toEnd] using haccepts
    have hnewline : ∀ c : Char, (c == '\n') = true → isWhitespace c := by
      intro c hc
      rw [beq_iff_eq.mp hc]
      rfl
    have hblock : Block.segments (.code (text.rdropWhile (· == '\n')) language) =
        [⟨false, nonblank text⟩] := by
      rw [Block.segments, nonblank_rdropWhile hnewline]
    have hnothing : nonblank text = [] ∨ holdNothing state.stack = true := by
      rw [keeps.eq_def, hcode] at hkeeps
      obtain hnil | hnothing := Bool.or_eq_true_iff.mp hkeeps
      · exact .inl (isEmpty_iff.mp hnil)
      · exact .inr hnothing
    have hpushed := (htexts.push_free hblock hnothing).step_stop rfl (.inl rfl) .codeBlock
    rw [payload_of_silent rfl, append_nil]
    refine ⟨hshape.stop hshape.kinds ?_ rfl hshape.image (fun _ => hruns) nofun, ?_,
      hnumbered.step _⟩
    · exact hshape.depth
    · have hnone : State.unplaced (state.inCode text language (.stop .codeBlock)) = [] := by
        rw [unplaced_of_none rfl]
        exact congrArg readRuns hruns
      rw [hnone]
      exact hpushed
  | start tag => cases tag <;> cases haccepts
  | html html =>
    simp [accepts, Tag.hasInline] at haccepts
  | _ => cases haccepts

/-- A flush keeps the texts where there is no code block. -/
theorem flush (h : Inv state stream read) (hcode : state.code = none)
    (hkeeps : flushKeeps state stream) :
    Texts state.flushParagraph.blocks state.flushParagraph.stack [] stream read := by
  have htexts := h.texts
  rw [unplaced_of_none hcode] at htexts
  exact flush_texts htexts hkeeps h.numbered h.shape.countP_isList

theorem exists_opened {tag : Tag} (h : (stream.opened.map Prod.fst).head? = some tag) :
    ∃ n rest, stream.opened = (tag, n) :: rest := by
  cases hopened : stream.opened with
  | nil =>
    rw [hopened] at h
    cases h
  | cons first rest =>
    rw [hopened] at h
    obtain rfl := Option.some.inj h
    exact ⟨first.2, rest, rfl⟩

theorem head?_opened (stream : Stream) :
    stream.opened.head?.map Prod.fst = (stream.opened.map Prod.fst).head? :=
  head?_map.symm

/-- An event that opens and closes nothing and leaves the containers as they are. -/
theorem plain (h : Inv state stream read) (hevent : event.isPlain) {state' : State}
    (hblocks : state'.blocks = state.blocks) (hstack : state'.stack = state.stack)
    (hdepth : state'.listDepth = state.listDepth) (hcode : state'.code = state.code)
    (himage : state'.image.isSome = state.image.isSome)
    (hgap : (stream.opened.map Prod.fst).head?.any Tag.isGap → state'.runs = [])
    (hunplaced : state'.unplaced =
      state.unplaced ++ (stream.payload event).map Prod.fst) :
    Inv state' (stream.step event) (read ++ stream.payload event) := by
  have hstream := step_plain stream hevent
  have hopened : (stream.step event).opened = stream.opened := by rw [hstream]
  have hpayload : stream.payload event =
      ((stream.payload event).map Prod.fst).map fun c => (c, stream.owner) := by
    rw [Stream.payload, map_map, map_map]
    rfl
  refine ⟨?_, ?_, h.numbered.step event⟩
  · rw [hopened]
    refine ⟨?_, hdepth.trans h.shape.depth, ?_, himage.trans h.shape.image, h.shape.single, hgap,
      h.shape.plain, h.shape.nested, ?_⟩
    · rw [hstack]
      exact h.shape.kinds
    · rw [hcode]
      exact h.shape.code
    · rw [hstack]
      exact h.shape.row
  · have htexts := (h.texts.reads ((stream.payload event).map Prod.fst)).step_plain hevent
    rw [← hpayload] at htexts
    rw [hblocks, hstack, hunplaced]
    exact htexts

theorem step_image (h : Inv state stream read) (hcode : state.code = none) {src alt : List Char}
    (himage : state.image = some (src, alt))
    (haccepts : accepts (stream.opened.head?.map Prod.fst) event)
    (hkeeps : keeps state stream event) :
    Inv (state.step event) (stream.step event) (read ++ stream.payload event) := by
  have hany : (stream.opened.map Prod.fst).any Tag.isImage = true := by
    rw [← h.shape.image, himage]
    rfl
  have hpayload : stream.payload event = [] :=
    payload_of_inside ((inside_eq stream Tag.isImage).trans hany) event
  obtain ⟨parent, hparent, hspan⟩ := isSpan_of_image h.shape.nested hany
  obtain ⟨n, rest, hopened⟩ := exists_opened hparent
  rw [head?_opened, Option.mem_def.mp hparent] at haccepts
  have hgap : (stream.opened.map Prod.fst).head?.any Tag.isGap = false := by
    rw [Option.mem_def.mp hparent]
    cases parent <;> first | rfl | cases hspan
  have hstep : state.step event = state.inImage src alt event := by
    rw [State.step, hcode, himage]
  rw [hstep]
  rw [keeps.eq_def, hcode, himage] at hkeeps
  by_cases hplain : event.isPlain = true
  · have hquiet : ∃ image, state.inImage src alt event = { state with image } ∧ image.isSome := by
      cases event <;> first
        | exact absurd hplain Bool.false_ne_true
        | exact ⟨_, rfl, rfl⟩
        | exact ⟨some (src, alt), by rw [← himage]; rfl, rfl⟩
    obtain ⟨image, hquiet, hsome⟩ := hquiet
    rw [hquiet]
    refine h.plain hplain rfl rfl rfl rfl (by rw [hsome, himage]; rfl) (fun hyes => ?_) ?_
    · rw [hgap] at hyes
      cases hyes
    · rw [hpayload]
      exact (append_nil _).symm
  rw [hpayload, append_nil]
  cases event with
  | start tag =>
    have htag : tag.isSpan := isSpan_of_accepts hspan haccepts
    have hnoimage : tag.isImage = false := by
      cases tag <;> first | rfl | cases hkeeps
    refine ⟨?_, h.texts.step_start _ (.inr ?_) ?_, h.numbered.step _⟩
    · have hkinds : kinds (tag :: stream.opened.map Prod.fst) =
          kinds (stream.opened.map Prod.fst) := by
        cases tag <;> first | rfl | cases htag
      have hcount : (tag :: stream.opened.map Prod.fst).countP Tag.isList =
          (stream.opened.map Prod.fst).countP Tag.isList := by
        refine countP_cons_of_neg ?_
        cases tag <;> first | exact Bool.false_ne_true | cases htag
      have hcount' : (tag :: stream.opened.map Prod.fst).countP Tag.isImage =
          (stream.opened.map Prod.fst).countP Tag.isImage :=
        countP_cons_of_neg (by rw [hnoimage]; exact Bool.false_ne_true)
      have hgap' : tag.isGap = false ∧ tag.isCode = false := by
        cases tag <;> first | exact ⟨rfl, rfl⟩ | cases htag
      refine ⟨h.shape.kinds.trans hkinds.symm,
        h.shape.depth.trans (congrArg (· - 1) hcount.symm), ?_, ?_,
        hcount'.le.trans h.shape.single, fun hyes => ?_, fun hyes => ?_, ⟨?_, h.shape.nested⟩,
        fun hyes => ?_⟩
      · exact (congrArg Option.isSome hcode).trans hgap'.2.symm
      · refine h.shape.image.trans ?_
        exact (by rw [any_cons, hnoimage, Bool.false_or] :
          (tag :: stream.opened.map Prod.fst).any Tag.isImage = _).symm
      · exact absurd (hgap'.1.symm.trans hyes) Bool.false_ne_true
      · exact absurd (hgap'.2.symm.trans hyes) Bool.false_ne_true
      · rw [Option.mem_def.mp hparent]
        exact haccepts
      · exfalso
        cases tag <;> first | exact absurd hyes Bool.false_ne_true | cases htag
    · cases tag <;> first | rfl | cases htag
    · cases tag <;> first | rfl | cases htag
  | stop tagEnd =>
    obtain rfl : parent.toEnd = tagEnd := by
      simpa [accepts] using haccepts
    have htail : (stream.step (.stop parent.toEnd)).opened = rest := by
      rw [Stream.step, hopened]
      rfl
    have hshape := h.shape
    rw [hopened] at hshape
    have hspan' : kinds (parent :: rest.map Prod.fst) = kinds (rest.map Prod.fst) ∧
        (parent :: rest.map Prod.fst).countP Tag.isList = (rest.map Prod.fst).countP Tag.isList ∧
        parent.isOwner = false ∧ parent.hasInline = true ∧
        ¬(parent = .tableHead ∨ parent = .tableRow) := by
      cases parent <;> first
        | exact ⟨rfl, countP_cons_of_neg Bool.false_ne_true, rfl, rfl, by simp⟩
        | cases hspan
    obtain ⟨hkinds, hcount, howner, hinline, hnorow⟩ := hspan'
    by_cases hend : parent.isImage = true
    · -- The image ends: the text before is flushed.
      obtain hend' : parent.toEnd = .image := by
        cases parent <;> first | rfl | cases hend
      rw [hend'] at hkeeps ⊢
      have htexts := h.texts
      rw [unplaced_of_none hcode] at htexts
      have hflush : Texts (State.flushParagraph { state with image := none }).blocks
          (State.flushParagraph { state with image := none }).stack [] stream read :=
        flush_texts htexts hkeeps h.numbered h.shape.countP_isList
      obtain ⟨hruns, hcode', himage', hdepth, hstack⟩ :=
        flushParagraph_fields { state with image := none }
      have hnone : (rest.map Prod.fst).any Tag.isImage = false := by
        have hsingle := hshape.single
        rw [map_cons, countP_cons_of_pos hend] at hsingle
        exact any_eq_false.mpr (countP_eq_zero.mp (by omega))
      have hpushed := (hflush.push_none (.image src .center
        (if isBlank alt then none else some (trim alt))) rfl).step_stop hopened (.inl rfl) .image
      refine ⟨?_, ?_, h.numbered.step _⟩
      · rw [hend'] at htail
        rw [htail]
        refine hshape.stop (hstack.trans (hshape.kinds.trans hkinds))
          (hdepth.trans (hshape.depth.trans (congrArg (· - 1) hcount))) (hcode'.trans hcode) ?_
          (fun _ => hruns) fun hrow => absurd hrow hnorow
        rw [hnone]
        exact congrArg Option.isSome himage'
      · have hunplaced : State.unplaced (state.inImage src alt (.stop .image)) = [] := by
          have hcode'' : (state.inImage src alt (.stop .image)).code = none := hcode'.trans hcode
          rw [unplaced_of_none hcode'']
          exact congrArg readRuns hruns
        rw [hunplaced]
        exact hpushed
    · have hself : state.inImage src alt (.stop parent.toEnd) = state := by
        cases parent <;> first | rfl | exact absurd rfl hend
      rw [hself]
      refine ⟨?_, h.texts.step_stop hopened (.inr howner) _, h.numbered.step _⟩
      rw [htail]
      refine hshape.stop (hshape.kinds.trans hkinds) (hshape.depth.trans (congrArg (· - 1) hcount))
        hcode (hshape.image.trans ?_) (fun hyes => ?_) fun hrow => absurd hrow hnorow
      · exact (by rw [any_cons, Bool.eq_false_iff.mpr hend, Bool.false_or] :
          (parent :: rest.map Prod.fst).any Tag.isImage = _)
      · rw [(Shape.of_accepts hshape.nested.1).2.1 hinline howner] at hyes
        cases hyes
  | _ => exact absurd rfl hplain

theorem started (h : Inv state stream read) {state' : State} {tag : Tag}
    (hshape : Shape state' (tag :: stream.opened.map Prod.fst))
    (htexts : Texts state'.blocks state'.stack state'.unplaced (stream.step (.start tag)) read) :
    Inv state' (stream.step (.start tag)) (read ++ stream.payload (.start tag)) := by
  rw [payload_of_silent rfl, append_nil]
  exact ⟨hshape, htexts, h.numbered.step _⟩

theorem stopped (h : Inv state stream read) {state' : State} {tag : Tag} {n : ℕ}
    {rest : List (Tag × ℕ)} {tagEnd : TagEnd} (hopened : stream.opened = (tag, n) :: rest)
    (hshape : Shape state' (rest.map Prod.fst))
    (htexts : Texts state'.blocks state'.stack state'.unplaced (stream.step (.stop tagEnd)) read) :
    Inv state' (stream.step (.stop tagEnd)) (read ++ stream.payload (.stop tagEnd)) := by
  have htail : (stream.step (.stop tagEnd)).opened = rest := by
    rw [Stream.step, hopened]
    rfl
  rw [payload_of_silent rfl, append_nil]
  refine ⟨?_, htexts, h.numbered.step _⟩
  rw [htail]
  exact hshape

/-- A tag is opened with nothing in the buffer. -/
theorem startedBlank (h : Inv state stream read) {state' : State} {tag : Tag}
    (hshape : Shape state' (tag :: stream.opened.map Prod.fst)) (hunplaced : state'.unplaced = [])
    (htexts : Texts state'.blocks state'.stack [] (stream.step (.start tag)) read) :
    Inv state' (stream.step (.start tag)) (read ++ stream.payload (.start tag)) :=
  h.started hshape (by rw [hunplaced]; exact htexts)

/-- A tag is closed outside images with nothing in the buffer. -/
theorem stoppedBlank (h : Inv state stream read) {state' : State} {tag : Tag} {n : ℕ}
    {rest : List (Tag × ℕ)} {tagEnd : TagEnd} (hopened : stream.opened = (tag, n) :: rest)
    (hnone : state.image = none) (hcode : state'.code = none) (himage : state'.image = none)
    (hruns : state'.runs = []) (hstack : state'.stack.map Container.kind = kinds (rest.map Prod.fst))
    (hdepth : state'.listDepth = (rest.map Prod.fst).countP Tag.isList - 1)
    (hrow : tag = .tableHead ∨ tag = .tableRow → RowFinished state'.stack)
    (htexts : Texts state'.blocks state'.stack [] stream read) :
    Inv state' (stream.step (.stop tagEnd)) (read ++ stream.payload (.stop tagEnd)) := by
  have hshape := h.shape
  rw [hopened] at hshape
  have hany : (rest.map Prod.fst).any Tag.isImage = false := by
    have hall := hshape.image
    rw [hnone] at hall
    exact (Bool.or_eq_false_iff.mp hall.symm).2
  have hunplaced : state'.unplaced = [] := by
    rw [unplaced_of_none hcode, hruns]
    rfl
  refine h.stopped hopened (hshape.stop hstack hdepth hcode ?_ (fun _ => hruns) hrow) ?_
  · rw [himage, hany]
    rfl
  · rw [hunplaced]
    exact htexts.step_stop hopened (.inl rfl) _

/-- The tag of a container that is no list is opened. -/
theorem start_container (h : Inv state stream read) (hcode : state.code = none)
    (himage : state.image = none) {tag : Tag} {container : Container}
    (haccepts : accepts (stream.opened.map Prod.fst).head? (.start tag))
    (hkind : tag.kind = some container.kind) (hlist : container.isList = false)
    (hempty : compact container.segments = []) (hruns : tag.isGap → state.runs = [])
    (hrow : tag.isTable → RowFinished (container :: state.stack)) :
    Inv { state with stack := container :: state.stack } (stream.step (.start tag))
      (read ++ stream.payload (.start tag)) := by
  have htag : tag.isList = false ∧ tag.isCode = false ∧ tag.isImage = false ∧
      tag.isOwner = false ∧ (stream.step (.start tag)).newest = stream.newest := by
    cases tag with
    | paragraph | heading | blockQuote | table => exact ⟨rfl, rfl, rfl, rfl, rfl⟩
    | list start => cases container <;> simp_all [Tag.kind, Container.kind, Container.isList]
    | _ => simp [Tag.kind] at hkind
  obtain ⟨hnolist, hnocode, hnoimage, howner, hnewest⟩ := htag
  refine h.started (h.shape.start haccepts ?_ ?_ ?_ ?_ himage hruns hrow) ?_
  · have hkinds : kinds (tag :: stream.opened.map Prod.fst) =
        container.kind :: kinds (stream.opened.map Prod.fst) := by
      rw [kinds, hkind]
      cases container <;> first | rfl | cases hlist
    rw [hkinds, map_cons, h.shape.kinds]
  · rw [countP_cons_of_neg (by rw [hnolist]; exact Bool.false_ne_true)]
    exact h.shape.depth
  · exact (congrArg Option.isSome hcode).trans hnocode.symm
  · rw [hnoimage]
    rfl
  · exact (h.texts.push_container hempty hlist).step_start _ (.inr howner) hnewest

/-- A tag without a container of its own is opened, and only the formatting changes. -/
theorem start_quiet (h : Inv state stream read) (hcode : state.code = none)
    (himage : state.image = none) {tag : Tag}
    (haccepts : accepts (stream.opened.map Prod.fst).head? (.start tag))
    (hspan : tag.isSpan ∨ tag = .htmlBlock) (himage' : tag.isImage = false)
    (inline : InlineState) :
    Inv { state with inline } (stream.step (.start tag))
      (read ++ stream.payload (.start tag)) := by
  have htag : tag.kind = none ∧ tag.isCode = false ∧ tag.isGap = false ∧ tag.isOwner = false ∧
      (stream.step (.start tag)).newest = stream.newest := by
    obtain hspan | rfl := hspan
    · cases tag <;> first | exact ⟨rfl, rfl, rfl, rfl, rfl⟩ | cases hspan
    · exact ⟨rfl, rfl, rfl, rfl, rfl⟩
  obtain ⟨hkind, hnocode, hgap, howner, hnewest⟩ := htag
  refine h.started (h.shape.start_quiet haccepts hkind hnocode himage' rfl rfl hcode himage himage
    fun hyes => ?_) (h.texts.step_start _ (.inr howner) hnewest)
  rw [hgap] at hyes
  cases hyes

/-- Rows and cells are where no text comes to the buffer. -/
theorem gap (h : Inv state stream read) (hcode : state.code = none) {tag : Tag}
    (haccepts : accepts (stream.opened.map Prod.fst).head? (.start tag))
    (htag : tag = .tableHead ∨ tag = .tableRow ∨ tag = .tableCell) :
    state.runs = [] ∧ state.unplaced = [] ∧ Texts state.blocks state.stack [] stream read := by
  have hgap : (stream.opened.map Prod.fst).head?.any Tag.isGap = true := by
    generalize (stream.opened.map Prod.fst).head? = parent at haccepts
    cases parent with
    | none => obtain rfl | rfl | rfl := htag <;> simp [accepts] at haccepts
    | some parent =>
      obtain rfl | rfl | rfl := htag <;> cases parent <;> first | rfl | simp [accepts] at haccepts
  have hruns := h.shape.gap hgap
  have hunplaced : state.unplaced = [] := by
    rw [unplaced_of_none hcode, hruns]
    rfl
  refine ⟨hruns, hunplaced, ?_⟩
  rw [← hunplaced]
  exact h.texts

/-- A tag is opened outside code blocks and images. -/
theorem start (h : Inv state stream read) (hcode : state.code = none) (himage : state.image = none)
    {tag : Tag} (haccepts : accepts (stream.opened.map Prod.fst).head? (.start tag))
    (hkeeps : keeps state stream (.start tag)) :
    Inv (state.startTag tag) (stream.step (.start tag))
      (read ++ stream.payload (.start tag)) := by
  obtain ⟨hruns, hcode', himage', hdepth, hstack⟩ := flushParagraph_fields state
  have hflushed : state.flushParagraph.unplaced = [] := by
    rw [unplaced_of_none (hcode'.trans hcode), hruns]
    rfl
  have hshape := h.shape.flush
  rw [keeps.eq_def, hcode, himage] at hkeeps
  cases tag with
  | paragraph => exact h.start_container hcode himage haccepts rfl rfl rfl nofun nofun
  | heading level => exact h.start_container hcode himage haccepts rfl rfl rfl nofun nofun
  | blockQuote => exact h.start_container hcode himage haccepts rfl rfl rfl nofun nofun
  | codeBlock info =>
    exact h.startedBlank (hshape.start haccepts hshape.kinds hshape.depth rfl rfl
      (himage'.trans himage) (fun _ => hruns) nofun) (congrArg (· ++ []) (congrArg readRuns hruns))
      ((h.flush hcode hkeeps).step_start _ (.inl rfl) rfl)
  | htmlBlock => exact h.start_quiet hcode himage haccepts (.inr rfl) rfl state.inline
  | emphasis => exact h.start_quiet hcode himage haccepts (.inl rfl) rfl _
  | strong => exact h.start_quiet hcode himage haccepts (.inl rfl) rfl _
  | strikethrough => exact h.start_quiet hcode himage haccepts (.inl rfl) rfl _
  | link url => exact h.start_quiet hcode himage haccepts (.inl rfl) rfl _
  | image url =>
    refine h.started (h.shape.start haccepts h.shape.kinds h.shape.depth
      (congrArg Option.isSome hcode) rfl himage nofun nofun) ?_
    exact h.texts.step_start _ (.inr rfl) rfl
  | footnoteDefinition => cases haccepts
  | metadataBlock => cases haccepts
  | tableHead =>
    obtain ⟨hblank, hunplaced, htexts⟩ := h.gap hcode haccepts (.inl rfl)
    have htable : Texts state.blocks (modifyTable (fun frame => { frame with head := true })
        state.stack) [] stream read := htexts.modifyTable fun _ => rfl
    exact h.startedBlank (h.shape.start_quiet haccepts rfl rfl rfl (kind_modifyTable _ _) rfl hcode
      himage himage fun _ => hblank) hunplaced (htable.step_start _ (.inl rfl) rfl)
  | tableRow =>
    obtain ⟨hblank, hunplaced, htexts⟩ := h.gap hcode haccepts (.inr (.inl rfl))
    refine h.started (h.shape.start_quiet haccepts rfl rfl rfl rfl rfl hcode himage himage
      fun _ => hblank) ?_
    exact h.texts.step_start _ (.inl hunplaced) rfl
  | tableCell =>
    obtain ⟨hblank, hunplaced, htexts⟩ := h.gap hcode haccepts (.inr (.inr rfl))
    have htable : Texts state.blocks (modifyTable (fun frame => { frame with inCell := true })
        state.stack) [] stream read := htexts.modifyTable fun _ => rfl
    exact h.startedBlank (h.shape.start_quiet haccepts rfl rfl rfl (kind_modifyTable _ _) rfl hcode
      himage himage nofun) hunplaced (htable.step_start _ (.inl rfl) rfl)
  | table alignments =>
    have hflush : Inv state.flushParagraph stream read :=
      ⟨hshape, by rw [hflushed]; exact h.flush hcode hkeeps, h.numbered⟩
    refine hflush.start_container (hcode'.trans hcode) (himage'.trans himage) haccepts rfl rfl rfl
      (fun _ => hruns) fun _ frame stack hsplit => ?_
    obtain rfl := Container.table.inj (List.cons.inj hsplit).1
    rfl
  | item =>
    have htexts := (h.flush hcode hkeeps).push_item hshape.countP_isList
      state.flushParagraph.listDepth
    exact h.startedBlank (hshape.start_quiet haccepts rfl rfl rfl (kind_modifyList _ _) rfl
      (hcode'.trans hcode) (himage'.trans himage) (himage'.trans himage) nofun) hflushed htexts
  | list start =>
    obtain ⟨hflush, hdeep⟩ := Bool.and_eq_true_iff.mp hkeeps
    have htexts := h.flush hcode hflush
    have hany : state.flushParagraph.stack.any Container.isList =
        (stream.opened.map Prod.fst).any Tag.isList := hshape.any_isList
    have hany' : state.stack.any Container.isList =
        (stream.opened.map Prod.fst).any Tag.isList := h.shape.any_isList
    rw [← inside_eq] at hany hany'
    by_cases hinside : stream.inside Tag.isList = true
    · -- A list in a list has no container.
      have hstart : state.startTag (.list start) =
          { state.flushParagraph with
            listDepth := min (state.flushParagraph.listDepth + 1) 255 } := by
        rw [State.startTag]
        exact if_pos (hany.trans hinside)
      have hlow : state.listDepth < 255 := by
        rw [hany', hinside] at hdeep
        simpa using hdeep
      have hcount : 1 ≤ (stream.opened.map Prod.fst).countP Tag.isList := by
        rw [inside_eq, any_eq_true] at hinside
        exact countP_pos_iff.mpr hinside
      have hkinds : kinds (.list start :: stream.opened.map Prod.fst) =
          kinds (stream.opened.map Prod.fst) := by
        rw [inside_eq] at hinside
        simp only [kinds, Tag.kind, hinside, if_true]
      rw [hstart]
      refine h.startedBlank (hshape.start haccepts (hshape.kinds.trans hkinds.symm) ?_
        (congrArg Option.isSome (hcode'.trans hcode)) rfl (himage'.trans himage) (fun _ => hruns)
        nofun) hflushed (htexts.step_start _ (.inl rfl) (if_pos hinside))
      have hdepth' := h.shape.depth
      rw [countP_cons_of_pos rfl]
      simp only [hdepth]
      omega
    · have hstart : state.startTag (.list start) =
          { state.flushParagraph with
            listDepth := 0
            stack := .list ⟨start.isSome, (start.map (· % 2 ^ 32)).filter (· ≠ 1), [], 0⟩ ::
              state.flushParagraph.stack } := by
        rw [State.startTag]
        exact if_neg (by rw [hany]; exact hinside)
      have hcount : (stream.opened.map Prod.fst).countP Tag.isList = 0 := by
        rw [inside_eq, Bool.not_eq_true] at hinside
        exact countP_eq_zero.mpr (any_eq_false.mp hinside)
      have hkinds : kinds (.list start :: stream.opened.map Prod.fst) =
          .list :: kinds (stream.opened.map Prod.fst) := by
        rw [inside_eq] at hinside
        simp only [kinds, Tag.kind, hinside]
        rfl
      rw [hstart]
      refine h.startedBlank (hshape.start haccepts ?_ ?_ (congrArg Option.isSome
        (hcode'.trans hcode)) rfl (himage'.trans himage) (fun _ => hruns) nofun) hflushed ?_
      · rw [hkinds, map_cons, hshape.kinds]
        rfl
      · rw [countP_cons_of_pos rfl, hcount]
      · refine htexts.push_list (hany.trans (Bool.not_eq_true _ ▸ hinside)) rfl (if_neg hinside)
          (Nat.le_succ _) fun tag htag hcell => ?_
        obtain rfl | htag := mem_cons.mp htag
        · cases hcell
        · exact htag

/-- The innermost container is that of the tag. -/
theorem exists_container {tags : List Tag} {tag : Tag} {kind : Kind} (h : Shape state (tag :: tags))
    (hkinds : kinds (tag :: tags) = kind :: kinds tags) :
    ∃ container rest, state.stack = container :: rest ∧ container.kind = kind ∧
      rest.map Container.kind = kinds tags := by
  have hstack := h.kinds
  rw [hkinds] at hstack
  cases hrest : state.stack with
  | nil =>
    rw [hrest] at hstack
    cases hstack
  | cons container rest =>
    rw [hrest, map_cons] at hstack
    exact ⟨container, rest, rfl, (List.cons.inj hstack).1, (List.cons.inj hstack).2⟩

/-- A tag without a container of its own is closed, and only the formatting changes. -/
theorem stop_quiet (h : Inv state stream read) (hcode : state.code = none) {tag : Tag} {n : ℕ}
    {rest : List (Tag × ℕ)} (hopened : stream.opened = (tag, n) :: rest)
    (hspan : tag.isSpan ∨ tag = .htmlBlock) (himage : tag.isImage = false)
    (inline : InlineState) (tagEnd : TagEnd) :
    Inv { state with inline } (stream.step (.stop tagEnd))
      (read ++ stream.payload (.stop tagEnd)) := by
  have hshape := h.shape
  rw [hopened] at hshape
  have htag : kinds (tag :: rest.map Prod.fst) = kinds (rest.map Prod.fst) ∧
      tag.isList = false ∧ tag.isOwner = false ∧ ¬(tag = .tableHead ∨ tag = .tableRow) ∧
      (tag.hasInline = true ∨ tag = .htmlBlock) := by
    obtain hspan | rfl := hspan
    · cases tag <;> first | exact ⟨rfl, rfl, rfl, nofun, .inl rfl⟩ | cases hspan
    · exact ⟨rfl, rfl, rfl, nofun, .inr rfl⟩
  obtain ⟨hkinds, hlist, howner, hnorow, hgap⟩ := htag
  have hcount : (tag :: rest.map Prod.fst).countP Tag.isList =
      (rest.map Prod.fst).countP Tag.isList :=
    countP_cons_of_neg (by rw [hlist]; exact Bool.false_ne_true)
  have hany : (tag :: rest.map Prod.fst).any Tag.isImage = (rest.map Prod.fst).any Tag.isImage := by
    rw [any_cons, himage, Bool.false_or]
  have hparent : (rest.map Prod.fst).head?.any Tag.isGap = false := by
    obtain ⟨-, hinline, hhtml, -⟩ := Shape.of_accepts hshape.nested.1
    exact hgap.elim (fun h => hinline h howner) hhtml
  refine h.stopped hopened (hshape.stop (hshape.kinds.trans hkinds)
    (hshape.depth.trans (congrArg (· - 1) hcount)) hcode (hshape.image.trans hany) (fun hyes => ?_)
    fun hrow => absurd hrow hnorow) (h.texts.step_stop hopened (.inr howner) _)
  rw [hparent] at hyes
  cases hyes

theorem segments_endRow (frame : TableFrame) :
    Container.segments (.table frame.endRow) = Container.segments (.table frame) := by
  rw [TableFrame.endRow, Container.segments, Container.segments]
  by_cases hempty : frame.currentRow.isEmpty = true
  · rw [isEmpty_iff.mp hempty]
    rfl
  · simp [hempty]

theorem stop_row (h : Inv state stream read) (hcode : state.code = none)
    (himage : state.image = none) {tag : Tag} {n : ℕ} {rest : List (Tag × ℕ)}
    (hopened : stream.opened = (tag, n) :: rest) (htag : tag = .tableHead ∨ tag = .tableRow) :
    Inv (state.endTag tag.toEnd) (stream.step (.stop tag.toEnd))
      (read ++ stream.payload (.stop tag.toEnd)) := by
  have hshape := h.shape
  rw [hopened] at hshape
  have hfacts : tag.isGap = true ∧ tag.isList = false ∧
      kinds (tag :: rest.map Prod.fst) = kinds (rest.map Prod.fst) ∧
      state.endTag tag.toEnd =
        { state with stack := modifyTable TableFrame.endRow state.stack } := by
    obtain rfl | rfl := htag <;> exact ⟨rfl, rfl, rfl, rfl⟩
  obtain ⟨hgap, hnolist, hkinds, hend⟩ := hfacts
  have hblank : state.runs = [] := hshape.gap hgap
  have hnil : state.unplaced = [] := by
    rw [unplaced_of_none hcode, hblank]
    rfl
  have htexts := h.texts
  rw [hnil] at htexts
  rw [hend]
  refine h.stoppedBlank hopened himage hcode himage hblank ?_ ?_ (fun _ => ?_)
    (htexts.modifyTable segments_endRow)
  · rw [kind_modifyTable]
    exact hshape.kinds.trans hkinds
  · have hdepth := hshape.depth
    rw [map_cons, countP_cons_of_neg (by rw [hnolist]; exact Bool.false_ne_true)]
      at hdepth
    exact hdepth
  · intro frame stack hsplit
    cases hstack : state.stack with
    | nil =>
      rw [hstack] at hsplit
      cases hsplit
    | cons container rest =>
      rw [hstack] at hsplit
      cases container with
      | table frame' =>
        obtain rfl := Container.table.inj (List.cons.inj hsplit).1
        rfl
      | _ => cases (List.cons.inj hsplit).1

theorem exists_table {tags : List Tag} (h : Shape state (.tableCell :: tags)) :
    ∃ frame rest, state.stack = .table frame :: rest := by
  obtain ⟨haccepts, hnested⟩ := h.nested
  have hkinds := h.kinds
  cases tags with
  | nil => simp [accepts] at haccepts
  | cons row tags =>
    have hrow : row = .tableHead ∨ row = .tableRow := by
      simpa [accepts] using haccepts
    obtain ⟨haccepts', -⟩ := hnested
    cases tags with
    | nil => obtain rfl | rfl := hrow <;> simp [accepts] at haccepts'
    | cons table tags =>
      obtain ⟨alignments, rfl⟩ : ∃ alignments, table = .table alignments := by
        obtain rfl | rfl := hrow <;> cases table <;>
          first | exact ⟨_, rfl⟩ | simp [accepts] at haccepts'
      have htable : kinds (.tableCell :: row :: .table alignments :: tags) =
          .table :: kinds tags := by
        obtain rfl | rfl := hrow <;> rfl
      rw [htable] at hkinds
      cases hstack : state.stack with
      | nil =>
        rw [hstack] at hkinds
        cases hkinds
      | cons container rest =>
        rw [hstack] at hkinds
        have hkind := (List.cons.inj hkinds).1
        cases container <;> first | exact ⟨_, _, rfl⟩ | cases hkind

/-- A tag is closed outside code blocks and images. -/
theorem stop (h : Inv state stream read) (hcode : state.code = none) (himage : state.image = none)
    {tag : Tag} {n : ℕ} {rest : List (Tag × ℕ)} (hopened : stream.opened = (tag, n) :: rest)
    (hkeeps : keeps state stream (.stop tag.toEnd)) :
    Inv (state.endTag tag.toEnd) (stream.step (.stop tag.toEnd))
      (read ++ stream.payload (.stop tag.toEnd)) := by
  obtain ⟨hruns, hcode', himage', hdepth, hstack⟩ := flushParagraph_fields state
  replace hcode' := hcode'.trans hcode
  replace himage' := himage'.trans himage
  have hshape := h.shape
  rw [hopened] at hshape
  have hshape' := hshape.flush
  have hunplaced := unplaced_of_none hcode
  have htexts := h.texts
  rw [keeps.eq_def, hcode, himage] at hkeeps
  have htag : tag.isImage = false := by
    have hany := hshape.image
    rw [himage] at hany
    exact (Bool.or_eq_false_iff.mp hany.symm).1
  cases tag with
  | paragraph =>
    obtain ⟨container, stack, hsplit, hkind, hkinds⟩ := exists_container hshape' rfl
    obtain rfl : container = .paragraph := by
      cases container <;> first | rfl | cases hkind
    have hend : state.endTag .paragraph = { state.flushParagraph with stack } := by
      simp only [State.endTag, hsplit]
    have hpop := h.flush hcode hkeeps
    rw [hsplit] at hpop
    rw [Tag.toEnd, hend]
    exact h.stoppedBlank hopened himage hcode' himage' hruns hkinds hshape'.depth (by simp)
      (hpop.drop rfl)
  | heading level =>
    obtain ⟨container, stack, hsplit, hkind, hkinds⟩ := exists_container hshape rfl
    obtain ⟨level', rfl⟩ : ∃ level, container = .heading level := by
      cases container <;> first | exact ⟨_, rfl⟩ | cases hkind
    rw [hsplit, hunplaced] at htexts
    have hpop := htexts.drop rfl
    have hnothing : readRuns state.runs = [] ∨ holdNothing stack = true := by
      obtain hnil | hnothing := Bool.or_eq_true_iff.mp hkeeps
      · exact .inl (isEmpty_iff.mp hnil)
      · rw [hsplit, holdNothing_cons] at hnothing
        exact .inr (Bool.and_eq_true_iff.mp hnothing).2
    by_cases hempty : (trimRuns state.runs).isEmpty = true
    · have hend : state.endTag .heading = { state with stack, runs := [] } := by
        simp only [State.endTag, hsplit, hempty, if_true]
      have hnil : readRuns state.runs = [] := by
        rw [← readRuns_trimRuns, isEmpty_iff.mp hempty]
        rfl
      rw [hnil] at hpop
      rw [Tag.toEnd, hend]
      exact h.stoppedBlank hopened himage hcode himage rfl hkinds hshape.depth (by simp) hpop
    · have hend : state.endTag .heading = State.push { state with stack, runs := [] }
          (.heading level' (trimRuns state.runs)) := by
        simp only [State.endTag, hsplit, hempty]
        rfl
      rw [Tag.toEnd, hend]
      refine h.stoppedBlank hopened himage hcode himage rfl hkinds hshape.depth (by simp)
        (hpop.push_free ?_ hnothing)
      rw [← readRuns_trimRuns]
      rfl
  | blockQuote =>
    obtain ⟨hkeeps', hpops⟩ := Bool.and_eq_true_iff.mp hkeeps
    obtain ⟨container, stack, hsplit, hkind, hkinds⟩ := exists_container hshape' rfl
    obtain ⟨runs, rfl⟩ : ∃ runs, container = .quote runs := by
      cases container <;> first | exact ⟨_, rfl⟩ | cases hkind
    have hpop := h.flush hcode hkeeps'
    have hnothing := nothing_of_popKeeps hpops (.inl rfl) hsplit
    rw [hsplit] at hpop
    by_cases hempty : runs.isEmpty = true
    · have hend : state.endTag .blockQuote = { state.flushParagraph with stack } := by
        simp only [State.endTag, hsplit, hempty, if_true]
      rw [Tag.toEnd, hend]
      refine h.stoppedBlank hopened himage hcode' himage' hruns hkinds hshape'.depth (by simp)
        (hpop.drop ?_)
      rw [isEmpty_iff.mp hempty]
      rfl
    · have hend : state.endTag .blockQuote =
          State.push { state.flushParagraph with stack } (.quote runs) := by
        simp only [State.endTag, hsplit, hempty]
        rfl
      rw [Tag.toEnd, hend]
      refine h.stoppedBlank hopened himage hcode' himage' hruns hkinds hshape'.depth (by simp)
        (hpop.close ?_ hnothing)
      rw [State.push, readBlocks, flatMap_append, compact_append]
      rfl
  | codeBlock info =>
    have hyes := hshape.code
    rw [hcode] at hyes
    cases hyes
  | list start =>
    obtain ⟨hkeeps', hpops⟩ := Bool.and_eq_true_iff.mp hkeeps
    have hpop := h.flush hcode hkeeps'
    have hcount : (.list start :: rest.map Prod.fst).countP Tag.isList =
        (rest.map Prod.fst).countP Tag.isList + 1 := countP_cons_of_pos rfl
    have hdepth' : state.flushParagraph.listDepth = (rest.map Prod.fst).countP Tag.isList := by
      have hdepth'' := hshape.depth
      rw [map_cons, hcount] at hdepth''
      rw [hdepth, hdepth'', Nat.add_sub_cancel]
    by_cases hany : (rest.map Prod.fst).any Tag.isList = true
    · -- The list has no container.
      have hpos : 0 < state.flushParagraph.listDepth := by
        rw [hdepth']
        exact countP_pos_iff.mpr (any_eq_true.mp hany)
      have hend : state.endTag .list = { state.flushParagraph with
          listDepth := state.flushParagraph.listDepth - 1 } := if_pos hpos
      have hkinds : kinds (.list start :: rest.map Prod.fst) = kinds (rest.map Prod.fst) := by
        simp only [kinds, Tag.kind, hany, if_true]
      rw [Tag.toEnd, hend]
      exact h.stoppedBlank hopened himage hcode' himage' hruns (hshape'.kinds.trans hkinds)
        (congrArg (· - 1) hdepth') (by simp) hpop
    · have hkinds : kinds (.list start :: rest.map Prod.fst) =
          .list :: kinds (rest.map Prod.fst) := by
        simp only [kinds, Tag.kind, hany]
        rfl
      have hzero : (rest.map Prod.fst).countP Tag.isList = 0 :=
        countP_eq_zero.mpr (any_eq_false.mp (Bool.not_eq_true _ ▸ hany))
      rw [hzero] at hdepth'
      obtain ⟨container, stack, hsplit, hkind, hkinds'⟩ := exists_container hshape' hkinds
      obtain ⟨frame, rfl⟩ : ∃ frame, container = .list frame := by
        cases container <;> first | exact ⟨_, rfl⟩ | cases hkind
      have hnothing : compact (Container.segments (.list frame)) = [] ∨ holdNothing stack := by
        refine nothing_of_popKeeps ?_ (.inr rfl) hsplit
        rw [← hdepth, hdepth'] at hpops
        exact hpops
      rw [hsplit] at hpop
      have hfilter := compact_filter frame.items
      have hend : state.endTag .list = state.flushParagraph.endList :=
        if_neg (by rw [hdepth']; exact Nat.lt_irrefl 0)
      have hdepth'' : state.flushParagraph.listDepth =
          (rest.map Prod.fst).countP Tag.isList - 1 := by
        rw [hdepth', hzero]
      rw [Tag.toEnd, hend]
      by_cases hempty : (frame.items.filter fun item => !item.runs.isEmpty).isEmpty = true
      · have hend' : state.flushParagraph.endList = { state.flushParagraph with stack } := by
          simp only [State.endList, hsplit, hempty, if_true]
        rw [hend']
        refine h.stoppedBlank hopened himage hcode' himage' hruns hkinds' hdepth'' (by simp)
          (hpop.drop ?_)
        rw [Container.segments, ← hfilter, isEmpty_iff.mp hempty]
        rfl
      · have hend' : state.flushParagraph.endList = State.push { state.flushParagraph with stack }
            (.list frame.ordered frame.start
              (frame.items.filter fun item => !item.runs.isEmpty)) := by
          simp only [State.endList, hsplit, hempty]
          rfl
        rw [hend']
        refine h.stoppedBlank hopened himage hcode' himage' hruns hkinds' hdepth'' (by simp)
          (hpop.close ?_ hnothing)
        rw [State.push, readBlocks, flatMap_append, compact_append, flatMap_singleton,
          Block.segments, hfilter]
        rfl
  | item =>
    exact h.stoppedBlank hopened himage hcode' himage' hruns hshape'.kinds hshape'.depth (by simp)
      (h.flush hcode hkeeps)
  | table alignments =>
    have hblank : state.runs = [] := hshape.gap rfl
    have hnil : state.unplaced = [] := by
      rw [hunplaced, hblank]
      rfl
    rw [hnil] at htexts
    obtain ⟨container, stack, hsplit, hkind, hkinds⟩ := exists_container hshape rfl
    obtain ⟨frame, rfl⟩ : ∃ frame, container = .table frame := by
      cases container <;> first | exact ⟨_, rfl⟩ | cases hkind
    have hrow : frame.currentRow = [] := hshape.row rfl frame stack hsplit
    have hsegments : Container.segments (.table frame) =
        frame.rows.flatten.map fun cell => ⟨true, readRuns cell.runs⟩ := by
      rw [Container.segments, hrow, append_nil]
    have hnothing : compact (Container.segments (.table frame)) = [] ∨ holdNothing stack := by
      rw [popKeeps, hsplit] at hkeeps
      obtain hnothing | hnothing := Bool.or_eq_true_iff.mp hkeeps
      · exact .inr hnothing
      · obtain ⟨-, hfirst⟩ := Bool.and_eq_true_iff.mp hnothing
        rw [take_succ_cons, holdNothing_cons] at hfirst
        exact .inl (isEmpty_iff.mp (Bool.and_eq_true_iff.mp hfirst).1)
    rw [hsplit] at htexts
    by_cases hempty : frame.rows.isEmpty = true
    · have hend : state.endTag .table = { state with stack } := by
        simp only [State.endTag, hsplit, hempty, if_true]
      rw [Tag.toEnd, hend]
      refine h.stoppedBlank hopened himage hcode himage hblank hkinds hshape.depth (by simp)
        (htexts.drop ?_)
      rw [hsegments, isEmpty_iff.mp hempty]
      rfl
    · have hend : state.endTag .table = State.push { state with stack }
          (.table frame.rows (if frame.head then 1 else 0)) := by
        simp only [State.endTag, hsplit, hempty]
        rfl
      rw [Tag.toEnd, hend]
      refine h.stoppedBlank hopened himage hcode himage hblank hkinds hshape.depth (by simp)
        (htexts.close ?_ hnothing)
      rw [State.push, readBlocks, flatMap_append, compact_append, flatMap_singleton,
        Block.segments, hsegments]
      rfl
  | tableHead => exact h.stop_row hcode himage hopened (.inl rfl)
  | tableRow => exact h.stop_row hcode himage hopened (.inr rfl)
  | tableCell =>
    obtain ⟨frame, stack, hsplit⟩ := exists_table hshape
    have hend : state.endTag .tableCell =
        { state with
          runs := []
          stack := .table
            { frame with
              currentRow := frame.currentRow ++
                [⟨trimRuns state.runs, cellAlign frame.alignments[frame.currentRow.length]?⟩]
              inCell := false } :: stack } := by
      simp only [State.endTag, State.endCell, hsplit]
    have hkinds := hshape.kinds
    rw [hsplit] at htexts hkinds
    rw [hunplaced] at htexts
    rw [Tag.toEnd, hend]
    refine h.stopped hopened (hshape.stop hkinds hshape.depth hcode hshape.image (fun _ => rfl)
      (by simp)) ?_
    rw [State.unplaced, hcode]
    have hnumbered := h.numbered
    have hpairwise := hnumbered.opened
    have hmem : ((.tableCell, n) : Tag × ℕ) ∈ stream.opened := by
      rw [hopened]
      exact mem_cons_self
    rw [hopened] at hpairwise
    refine htexts.flush_cell ?_ hopened ?_ (hnumbered.bounded _ hmem)
      (fun tag htag => ((pairwise_cons.mp hpairwise).1 tag htag).ne)
      fun newest hnewest => ((hnumbered.newest newest hnewest).2 _ hmem rfl).symm
    · simp only [Container.segments, map_append, map_cons, map_nil,
        readRuns_trimRuns, append_assoc]
    · rw [Stream.owner, hopened]
      rfl
  | image url => cases htag
  | emphasis => exact h.stop_quiet hcode hopened (.inl rfl) rfl _ _
  | strong => exact h.stop_quiet hcode hopened (.inl rfl) rfl _ _
  | strikethrough => exact h.stop_quiet hcode hopened (.inl rfl) rfl _ _
  | link url => exact h.stop_quiet hcode hopened (.inl rfl) rfl _ _
  | htmlBlock => exact h.stop_quiet hcode hopened (.inr rfl) rfl state.inline _
  | footnoteDefinition => cases hshape.nested.1
  | metadataBlock => cases hshape.nested.1

/-- Texts come only to tags with text in the buffer. -/
theorem noGap (h : Inv state stream read) (hcode : state.code = none)
    (haccepts : accepts (stream.opened.map Prod.fst).head? event) (hevent : event.isPlain) :
    (stream.opened.map Prod.fst).head?.any Tag.isGap = false := by
  have hnocode := h.shape.code
  rw [hcode] at hnocode
  generalize (stream.opened.map Prod.fst).head? = parent at haccepts hnocode
  cases parent with
  | none => rfl
  | some parent =>
    cases parent <;> cases event <;>
      simp_all [accepts, Tag.isGap, Tag.isCode, Tag.hasInline, Tag.hasBlocks, Event.isPlain]

theorem pushRun (h : Inv state stream read) (hcode : state.code = none)
    (haccepts : accepts (stream.opened.map Prod.fst).head? event) (hevent : event.isPlain)
    (run : Run) (hrun : nonblank run.text = (stream.payload event).map Prod.fst) :
    Inv (state.pushRun run) (stream.step event) (read ++ stream.payload event) := by
  refine h.plain hevent rfl rfl rfl rfl rfl (fun hyes => ?_) ?_
  · rw [h.noGap hcode haccepts hevent] at hyes
    cases hyes
  · have hcode' : (state.pushRun run).code = none := hcode
    rw [unplaced_of_none hcode, unplaced_of_none hcode', State.pushRun, readRuns_pushRun, hrun]

/-- The buffer is flushed, and a block is pushed. -/
theorem pushed (h : Inv state stream read) (hcode : state.code = none) (hevent : event.isPlain)
    (block : Block) (htexts : Texts (state.flushParagraph.push block).blocks
      state.flushParagraph.stack [] stream (read ++ stream.payload event)) :
    Inv (state.flushParagraph.push block) (stream.step event) (read ++ stream.payload event) := by
  obtain ⟨hruns, hcode', -⟩ := flushParagraph_fields state
  have hopened : (stream.step event).opened = stream.opened := by rw [step_plain stream hevent]
  have hshape := h.shape.flush
  have hunplaced : (state.flushParagraph.push block).unplaced = [] :=
    (unplaced_of_none (hcode'.trans hcode)).trans (congrArg readRuns hruns)
  refine ⟨?_, ?_, h.numbered.step event⟩
  · rw [hopened]
    exact ⟨hshape.kinds, hshape.depth, hshape.code, hshape.image, hshape.single, hshape.gap,
      hshape.plain, hshape.nested, hshape.row⟩
  · rw [hunplaced]
    exact htexts.step_plain hevent

/-- The buffer is flushed, and a block without text is pushed. -/
theorem flushPush (h : Inv state stream read) (hcode : state.code = none)
    (hevent : event.isPlain) (hsilent : event.isSilent) (hkeeps : flushKeeps state stream)
    (block : Block) (hblock : block.segments = []) :
    Inv (state.flushParagraph.push block) (stream.step event) (read ++ stream.payload event) := by
  refine h.pushed hcode hevent block ?_
  rw [payload_of_silent hsilent, append_nil]
  exact (h.flush hcode hkeeps).push_none block hblock

theorem displayMath (h : Inv state stream read) (hcode : state.code = none)
    (himage : state.image = none) (text : List Char)
    (haccepts : accepts (stream.opened.map Prod.fst).head? (.displayMath text))
    (hkeeps : keeps state stream (.displayMath text)) :
    Inv (state.displayMath text) (stream.step (.displayMath text))
      (read ++ stream.payload (.displayMath text)) := by
  have hinside : stream.inside Tag.isImage = false := by
    rw [inside_eq, ← h.shape.image, himage]
    rfl
  have hpayload := payload_of_text hinside
    (.inr (.inr (.inr (.inl (Eq.refl (Event.displayMath text))))))
  have hchars : (stream.payload (.displayMath text)).map Prod.fst = nonblank text := by
    rw [hpayload, map_map]
    exact map_id _
  by_cases hmath : state.stack.any Container.holdsMath = true
  · have hinline : state.displayMath text =
        state.pushRun { state.inline.run text false with math := some .inline } := if_pos hmath
    rw [hinline]
    exact h.pushRun hcode haccepts rfl _ hchars.symm
  · have hdisplay : state.displayMath text = state.flushParagraph.push
        (.paragraph [{ state.inline.run text false with math := some .display }]) := if_neg hmath
    have hflush : flushKeeps state stream = true := by
      rw [keeps.eq_def, hcode, himage] at hkeeps
      exact (Bool.or_eq_true_iff.mp hkeeps).resolve_left hmath
    obtain ⟨-, -, -, -, hstack⟩ := flushParagraph_fields state
    -- Outside other containers nothing is held.
    have hnothing : holdNothing state.flushParagraph.stack = true := by
      refine all_eq_true.mpr fun container hmem => ?_
      have hkind : container.kind ∈ state.stack.map Container.kind := by
        rw [← hstack]
        exact mem_map_of_mem hmem
      obtain ⟨container', hmem', hkind'⟩ := mem_map.mp hkind
      have hparagraph := any_eq_false.mp (Bool.not_eq_true _ ▸ hmath) container' hmem'
      cases container' <;> cases container <;>
        first | rfl | exact absurd rfl hparagraph | cases hkind'
    rw [hdisplay]
    refine h.pushed hcode rfl _ ?_
    rw [hpayload]
    refine ((h.flush hcode hflush).reads (nonblank text)).push_free ?_ (.inr hnothing)
    rw [Block.segments, readRuns_cons, readRuns_nil, append_nil, nil_append]
    rfl

/-- **One step**, outside code blocks and images. -/
theorem handle (h : Inv state stream read) (hcode : state.code = none)
    (himage : state.image = none)
    (haccepts : accepts (stream.opened.map Prod.fst).head? event)
    (hkeeps : keeps state stream event) :
    Inv (state.handle event) (stream.step event) (read ++ stream.payload event) := by
  have hinside : stream.inside Tag.isImage = false := by
    rw [inside_eq, ← h.shape.image, himage]
    rfl
  have hchars {text : List Char} {event : Event} (hevent : stream.payload event =
      (nonblank text).map fun c => (c, stream.owner)) :
      nonblank text = (stream.payload event).map Prod.fst := by
    rw [hevent, map_map]
    exact (map_id _).symm
  have hsilent {event : Event} (hevent : event.isSilent) :
      [] = (stream.payload event).map Prod.fst := by
    rw [payload_of_silent hevent]
    rfl
  cases event with
  | start tag => exact h.start hcode himage haccepts hkeeps
  | stop tagEnd =>
    cases hopened : stream.opened with
    | nil =>
      rw [hopened] at haccepts
      cases haccepts
    | cons first rest =>
      obtain ⟨tag, n⟩ := first
      rw [hopened] at haccepts
      obtain rfl : tag.toEnd = tagEnd := by
        simpa [accepts] using haccepts
      exact h.stop hcode himage hopened hkeeps
  | text text =>
    exact h.pushRun hcode haccepts rfl _ (hchars (payload_of_text hinside (.inl rfl)))
  | code text =>
    exact h.pushRun hcode haccepts rfl _ (hchars (payload_of_text hinside (.inr (.inl rfl))))
  | inlineMath text =>
    exact h.pushRun hcode haccepts rfl _
      (hchars (payload_of_text hinside (.inr (.inr (.inl rfl)))))
  | displayMath text => exact h.displayMath hcode himage text haccepts hkeeps
  | softBreak => exact h.pushRun hcode haccepts rfl _ (hsilent rfl)
  | hardBreak => exact h.pushRun hcode haccepts rfl _ (hsilent rfl)
  | rule =>
    rw [keeps.eq_def, hcode, himage] at hkeeps
    exact h.flushPush hcode rfl rfl hkeeps _ rfl
  | taskListMarker checked =>
    exact h.pushRun hcode haccepts rfl _
      (hchars (payload_of_text hinside (.inr (.inr (.inr (.inr ⟨checked, rfl, rfl⟩))))))
  | html html =>
    rw [keeps.eq_def, hcode, himage] at hkeeps
    by_cases hbreak : isPageBreak html = true
    · have hhtml : state.handle (.html html) = state.flushParagraph.push .pageBreak :=
        if_pos hbreak
      have hflush : flushKeeps state stream = true := by
        simpa [hbreak] using hkeeps
      rw [hhtml]
      exact h.flushPush hcode rfl rfl hflush _ rfl
    · by_cases hline : startsWith (trimStart (toAsciiLowercase html)) "<br" = true
      · have hhtml : state.handle (.html html) = state.pushRun (state.inline.run ['\n'] false) :=
          (if_neg hbreak).trans (if_pos hline)
        rw [hhtml]
        exact h.pushRun hcode haccepts rfl _ (hsilent rfl)
      · have hhtml : state.handle (.html html) = state :=
          (if_neg hbreak).trans (if_neg hline)
        rw [hhtml]
        exact h.plain rfl rfl rfl rfl rfl rfl h.shape.gap
          (by rw [← hsilent rfl, append_nil])
  | footnoteReference =>
    exact h.plain rfl rfl rfl rfl rfl rfl h.shape.gap (by rw [← hsilent rfl, append_nil]; rfl)

/-- **One step.** -/
theorem step (h : Inv state stream read)
    (haccepts : accepts (stream.opened.head?.map Prod.fst) event)
    (hkeeps : keeps state stream event) :
    Inv (state.step event) (stream.step event) (read ++ stream.payload event) := by
  cases hcode : state.code with
  | some code => exact h.step_code hcode haccepts hkeeps
  | none =>
    cases himage : state.image with
    | some image => exact h.step_image hcode himage haccepts hkeeps
    | none =>
      have hstep : state.step event = state.handle event := by
        rw [State.step, hcode, himage]
      rw [hstep]
      rw [head?_opened] at haccepts
      exact h.handle hcode himage haccepts hkeeps

theorem initial : Inv .initial .initial [] where
  shape := ⟨rfl, rfl, rfl, rfl, Nat.zero_le 1, nofun, nofun, trivial, nofun⟩
  texts := .initial
  numbered := ⟨.nil, forall_mem_nil _, nofun⟩

/-- **The run**: what holds for a step holds for all, up to the flush at the end. -/
theorem run {events : List Event} (h : Inv state stream read)
    (hnested : wellNested stream events) (hkeeps : keepsAll state stream events) :
    Attributed (readBlocks (events.foldl State.step state).flushParagraph.blocks)
      (read ++ payload stream events) := by
  induction events generalizing state stream read with
  | nil =>
    have hopened : stream.opened = [] := isEmpty_iff.mp hnested
    have hshape := h.shape
    rw [hopened] at hshape
    have hcode : state.code = none := by
      have hnone := hshape.code
      cases hcode : state.code with
      | none => rfl
      | some code =>
        rw [hcode] at hnone
        cases hnone
    have hstack : state.flushParagraph.stack = [] := by
      have hkinds := hshape.flush.kinds
      exact map_eq_nil_iff.mp hkinds
    have hflush := h.flush hcode hkeeps
    rw [hstack] at hflush
    obtain ⟨⟨done, held, waiting⟩, hread, hdone, hheld, hwaiting, -, hfresh⟩ := hflush
    cases hheld
    obtain rfl := map_eq_nil_iff.mp hwaiting
    have hparts : Ledger.parts ⟨done, [], []⟩ = done := append_nil _
    rw [hparts, append_nil] at hread
    rw [hparts] at hfresh
    rw [payload, append_nil]
    exact ⟨done, hread.symm, hdone, hfresh.nodup⟩
  | cons event events ih =>
    obtain ⟨haccepts, hnested⟩ := Bool.and_eq_true_iff.mp hnested
    obtain ⟨hkeep, hkeeps⟩ := Bool.and_eq_true_iff.mp hkeeps
    rw [payload, ← append_assoc]
    exact ih (h.step haccepts hkeep) hnested hkeeps

end Inv

/-- **The texts are kept** in document order, and by the items and cells they are in, in every run
whose steps all keep them. -/
theorem textsKept {events : List Event} (hnested : wellNested .initial events)
    (hkeeps : keepsAll .initial .initial events) : TextsKept events :=
  Inv.initial.run hnested hkeeps

/-- A list in an item of a list: its text comes after that of the item around it. -/
theorem textsKept_nested :
    TextsKept [.start (.list none), .start .item, .text ['a'], .start (.list none), .start .item,
      .text ['b'], .stop .item, .stop .list, .stop .item, .start .item, .text ['c'], .stop .item,
      .stop .list] :=
  textsKept (by decide) (by decide)

/-- **Text is moved** when there is a code block in an item behind its text: the block is pushed
before the list is. -/
theorem textsKept_fails :
    ¬∀ events : List Event, wellNested .initial events → TextsKept events := by
  intro hall
  obtain ⟨parts, hparts, hlabels, -⟩ :=
    hall [.start (.list none), .start .item, .text ['a'], .start (.codeBlock none), .text ['b'],
      .stop .codeBlock, .stop .item, .stop .list] (by decide)
  have hread := chars_of_labels hlabels
  rw [hparts] at hread
  exact absurd hread (by decide)

end Markdown

end OpenBitFun
