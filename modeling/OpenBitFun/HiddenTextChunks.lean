import Mathlib
import OpenBitFun.HiddenText

/-!
# Hidden text does not depend on the chunks

A text is divided into visible segments and blocks, from the left: a block runs from the first
opening tag to the first closing tag after it (`Division`). The parser's output is that of the
division of the whole text, however the text is cut into chunks. What carries the proof is one
relation, `Moves`: from a text the parser has emitted an output and still has some pending text, and
whatever comes after it, a division of what is pending gives a division of the whole.
-/

namespace OpenBitFun

open List

namespace HiddenText

/-! ## Divisions -/

/-- A piece of a text. -/
inductive Segment where
  | visible (text : List Char)
  | hidden (tag : HiddenTextTag) (payload : List Char) (closed : Bool)

namespace Segment

/-- The text of a segment, with the tags. -/
def text : Segment → List Char
  | visible text => text
  | hidden tag payload closed =>
    tag.openTag ++ payload ++ if closed then tag.closeTag else []

/-- What is shown of a segment. -/
def visibleText : Segment → List Char
  | visible text => text
  | hidden .. => []

/-- The block of a segment. -/
def block : Segment → Option HiddenTextBlock
  | visible _ => none
  | hidden tag payload _ => some ⟨tag.name, payload⟩

end Segment

/-- What is shown and hidden of a text that is divided into segments. -/
def outputOf (segments : List Segment) : HiddenTextChunk where
  visibleText := segments.flatMap Segment.visibleText
  hiddenBlocks := segments.filterMap Segment.block

@[simp] theorem outputOf_visible_cons (text : List Char) (segments : List Segment) :
    outputOf (.visible text :: segments) =
      ⟨text ++ (outputOf segments).visibleText, (outputOf segments).hiddenBlocks⟩ := rfl

@[simp] theorem outputOf_hidden_cons (tag : HiddenTextTag) (payload : List Char) (closed : Bool)
    (segments : List Segment) :
    outputOf (.hidden tag payload closed :: segments) =
      ⟨(outputOf segments).visibleText, ⟨tag.name, payload⟩ :: (outputOf segments).hiddenBlocks⟩ :=
  rfl

/-- What is shown among the first characters of a divided text. -/
def shown : ℕ → List Segment → List Char
  | _, [] => []
  | k, .visible text :: segments => text.take k ++ shown (k - text.length) segments
  | k, segment :: segments => shown (k - segment.text.length) segments

/-- The first opening tag of a text. Where several start at one place, the first of them counts. -/
structure Opens (tags : List HiddenTextTag) (text before : List Char) (tag : HiddenTextTag)
    (rest : List Char) : Prop where
  append : text = before ++ (tag.openTag ++ rest)
  first : ∀ k < before.length, ∀ tag ∈ tags, ¬tag.openTag <+: text.drop k
  chosen : (tags.find? fun tag' => tag'.openTag.isPrefixOf (tag.openTag ++ rest)) = some tag

/-- The division of a text: text before the first opening tag is visible, and a block ends at the
first closing tag, or with the text. -/
inductive Division (tags : List HiddenTextTag) : List Char → List Segment → Prop
  | plain {text : List Char} (hnone : ∀ k, ∀ tag ∈ tags, ¬tag.openTag <+: text.drop k) :
      Division tags text [.visible text]
  | unclosed {text before rest : List Char} {tag : HiddenTextTag}
      (hopen : Opens tags text before tag rest) (hnone : ∀ k, ¬tag.closeTag <+: rest.drop k) :
      Division tags text [.visible before, .hidden tag rest false]
  | closed {text before payload after : List Char} {tag : HiddenTextTag} {segments : List Segment}
      (hopen : Opens tags text before tag (payload ++ (tag.closeTag ++ after)))
      (hfirst : ∀ k < payload.length, ¬tag.closeTag <+:
        (payload ++ (tag.closeTag ++ after)).drop k)
      (hrest : Division tags after segments) :
      Division tags text (.visible before :: .hidden tag payload true :: segments)

variable {tags : List HiddenTextTag} {text before before' rest rest' : List Char}
  {tag tag' : HiddenTextTag} {segments segments' : List Segment} {k : ℕ}

@[simp] theorem shown_zero (segments : List Segment) : shown 0 segments = [] := by
  induction segments with
  | nil => rfl
  | cons segment segments ih => cases segment <;> simp [shown, ih]

/-- The segments of a division make up the text. -/
theorem Division.flatMap_text (h : Division tags text segments) :
    segments.flatMap Segment.text = text := by
  induction h with
  | plain => simp [Segment.text]
  | unclosed hopen => simp [Segment.text, hopen.append]
  | closed hopen _ _ ih => simp [Segment.text, hopen.append, ih]

theorem Opens.mem (h : Opens tags text before tag rest) : tag ∈ tags :=
  mem_of_find?_eq_some h.chosen

/-- The tag starts where the text before it ends. -/
theorem Opens.start (h : Opens tags text before tag rest) :
    tag.openTag <+: text.drop before.length := by
  rw [h.append, drop_left]
  exact prefix_append _ _

theorem Opens.unique (h : Opens tags text before tag rest)
    (h' : Opens tags text before' tag' rest') : before = before' ∧ tag = tag' ∧ rest = rest' := by
  have hlen : before.length = before'.length := by
    apply Nat.le_antisymm
    · exact Nat.le_of_not_lt fun hlt => h.first _ hlt _ h'.mem h'.start
    · exact Nat.le_of_not_lt fun hlt => h'.first _ hlt _ h.mem h.start
  obtain ⟨hbefore, hrest⟩ := append_inj (h.append.symm.trans h'.append) hlen
  have htag : tag = tag' := by
    have hchosen := h.chosen
    rw [hrest, h'.chosen] at hchosen
    exact (Option.some.inj hchosen).symm
  subst htag
  exact ⟨hbefore, rfl, append_cancel_left hrest⟩

/-- There is one first place where a pattern starts. -/
theorem first_unique {pattern payload payload' after after' : List Char}
    (h : payload ++ (pattern ++ after) = payload' ++ (pattern ++ after'))
    (hfirst : ∀ k < payload.length, ¬pattern <+: (payload ++ (pattern ++ after)).drop k)
    (hfirst' : ∀ k < payload'.length, ¬pattern <+: (payload' ++ (pattern ++ after')).drop k) :
    payload = payload' ∧ after = after' := by
  have hlen : payload.length = payload'.length := by
    apply Nat.le_antisymm
    · refine Nat.le_of_not_lt fun hlt => hfirst _ hlt ?_
      rw [h, drop_left]
      exact prefix_append _ _
    · refine Nat.le_of_not_lt fun hlt => hfirst' _ hlt ?_
      rw [← h, drop_left]
      exact prefix_append _ _
  obtain ⟨hpayload, hrest⟩ := append_inj h hlen
  exact ⟨hpayload, append_cancel_left hrest⟩

/-- **A text has one division.** -/
theorem Division.unique (h : Division tags text segments) (h' : Division tags text segments') :
    segments = segments' := by
  induction h generalizing segments' with
  | plain hnone =>
    cases h' with
    | plain => rfl
    | unclosed hopen => exact absurd hopen.start (hnone _ _ hopen.mem)
    | closed hopen => exact absurd hopen.start (hnone _ _ hopen.mem)
  | unclosed hopen hnone =>
    cases h' with
    | plain hnone' => exact absurd hopen.start (hnone' _ _ hopen.mem)
    | unclosed hopen' =>
      obtain ⟨rfl, rfl, rfl⟩ := hopen.unique hopen'
      rfl
    | @closed _ _ payload after _ _ hopen' =>
      obtain ⟨rfl, rfl, rfl⟩ := hopen.unique hopen'
      refine absurd ?_ (hnone payload.length)
      rw [drop_left]
      exact prefix_append _ _
  | @closed _ _ payload after _ _ hopen hfirst hrest ih =>
    cases h' with
    | plain hnone' => exact absurd hopen.start (hnone' _ _ hopen.mem)
    | unclosed hopen' hnone' =>
      obtain ⟨rfl, rfl, rfl⟩ := hopen.unique hopen'
      refine absurd ?_ (hnone' payload.length)
      rw [drop_left]
      exact prefix_append _ _
    | closed hopen' hfirst' hrest' =>
      obtain ⟨rfl, rfl, heq⟩ := hopen.unique hopen'
      obtain ⟨rfl, rfl⟩ := first_unique heq hfirst hfirst'
      rw [ih hrest']

/-- Visible text in front of a divided text. -/
theorem Division.extend (h : Division tags text segments) {front : List Char}
    (hfront : ∀ k < front.length, ∀ tag ∈ tags, ¬tag.openTag <+: (front ++ text).drop k) :
    ∃ first segments', segments = .visible first :: segments' ∧
      Division tags (front ++ text) (.visible (front ++ first) :: segments') := by
  have hopens : ∀ {before rest : List Char} {tag : HiddenTextTag},
      Opens tags text before tag rest → Opens tags (front ++ text) (front ++ before) tag rest := by
    intro before rest tag hopen
    refine ⟨by rw [hopen.append, append_assoc], fun k hk tag' htag' => ?_, hopen.chosen⟩
    by_cases hlt : k < front.length
    · exact hfront k hlt tag' htag'
    · rw [drop_append, drop_eq_nil_of_le (Nat.le_of_not_lt hlt), nil_append]
      rw [length_append] at hk
      exact hopen.first _ (by omega) tag' htag'
  cases h with
  | plain hnone =>
    refine ⟨text, [], rfl, .plain fun k tag htag => ?_⟩
    by_cases hlt : k < front.length
    · exact hfront k hlt tag htag
    · rw [drop_append, drop_eq_nil_of_le (Nat.le_of_not_lt hlt), nil_append]
      exact hnone _ tag htag
  | unclosed hopen hnone => exact ⟨_, _, rfl, .unclosed (hopens hopen) hnone⟩
  | closed hopen hfirst hrest => exact ⟨_, _, rfl, .closed (hopens hopen) hfirst hrest⟩

/-! ## Moving on in a text -/

/-- Segments say the same as others, after some characters with an output. -/
structure Adds (size : ℕ) (out : HiddenTextChunk) (segments' segments : List Segment) : Prop where
  output : outputOf segments = out.append (outputOf segments')
  shown : ∀ k, shown (size + k) segments = out.visibleText ++ shown k segments'

/-- From a text some output was emitted and some text is pending. Whatever comes after it, a
division of what is pending gives one of the whole. -/
def Moves (tags : List HiddenTextTag) (text : List Char) (out : HiddenTextChunk)
    (pending : List Char) : Prop :=
  ∃ past, text = past ++ pending ∧ ∀ future segments', Division tags (pending ++ future) segments' →
    ∃ segments, Division tags (text ++ future) segments ∧ Adds past.length out segments' segments

variable {out out' : HiddenTextChunk} {pending pending' : List Char}

theorem Moves.refl (text : List Char) : Moves tags text .default text := by
  refine ⟨[], rfl, fun future segments' h => ⟨segments', h, rfl, fun k => ?_⟩⟩
  simp [HiddenTextChunk.default]

theorem Moves.trans (h : Moves tags text out pending) (h' : Moves tags pending out' pending') :
    Moves tags text (out.append out') pending' := by
  obtain ⟨past, rfl, hdivision⟩ := h
  obtain ⟨past', rfl, hdivision'⟩ := h'
  refine ⟨past ++ past', by rw [append_assoc], fun future segments'' hrest => ?_⟩
  obtain ⟨segments', hmid, hadds'⟩ := hdivision' future segments'' hrest
  obtain ⟨segments, hall, hadds⟩ := hdivision future segments' hmid
  refine ⟨segments, hall, ?_, fun k => ?_⟩
  · rw [hadds.output, hadds'.output, HiddenTextChunk.append_assoc]
  · rw [length_append, Nat.add_assoc, hadds.shown, hadds'.shown]
    simp [HiddenTextChunk.append]

theorem Moves.append (h : Moves tags text out pending) (more : List Char) :
    Moves tags (text ++ more) out (pending ++ more) := by
  obtain ⟨past, rfl, hdivision⟩ := h
  refine ⟨past, by rw [append_assoc], fun future segments' hrest => ?_⟩
  rw [append_assoc] at hrest
  obtain ⟨segments, hall, hadds⟩ := hdivision (more ++ future) segments' hrest
  exact ⟨segments, by simpa using hall, hadds⟩

/-- Emitting text in which no opening tag starts. -/
theorem Moves.emit {front : List Char} (hfront : ∀ future, ∀ k < front.length, ∀ tag ∈ tags,
    ¬tag.openTag <+: (front ++ pending ++ future).drop k) :
    Moves tags (front ++ pending) ⟨front, []⟩ pending := by
  refine ⟨front, rfl, fun future segments' hrest => ?_⟩
  have hstarts := hfront future
  rw [append_assoc] at hstarts ⊢
  obtain ⟨first, segments', rfl, hall⟩ := hrest.extend hstarts
  refine ⟨_, hall, ?_, fun k => ?_⟩
  · simp [HiddenTextChunk.append]
  · have hsub : front.length + k - (front.length + first.length) = k - first.length := by omega
    have htake : front.take (front.length + k) = front := take_of_length_le (by omega)
    simp [shown, take_append, hsub, htake]

theorem Moves.block {payload : List Char}
    (hchosen : ∀ rest, (tags.find? fun tag' => tag'.openTag.isPrefixOf (tag.openTag ++ rest)) =
      some tag)
    (hfirst : ∀ future, ∀ k < payload.length, ¬tag.closeTag <+:
      (payload ++ (tag.closeTag ++ (pending ++ future))).drop k) :
    Moves tags (tag.openTag ++ (payload ++ (tag.closeTag ++ pending)))
      ⟨[], [⟨tag.name, payload⟩]⟩ pending := by
  refine ⟨tag.openTag ++ (payload ++ tag.closeTag), by simp, fun future segments' hrest => ?_⟩
  have hopen : Opens tags (tag.openTag ++ (payload ++ (tag.closeTag ++ pending)) ++ future) [] tag
      (payload ++ (tag.closeTag ++ (pending ++ future))) := ⟨by simp, by simp, hchosen _⟩
  refine ⟨_, .closed hopen (hfirst future) hrest, ?_, fun k => ?_⟩
  · simp [HiddenTextChunk.append]
  · simp [shown, Segment.text]

/-! ## The loop -/

variable {buffer : List Char}

/-- A pattern between the start and the end of another one occurs in it. -/
theorem infix_of_inside {pattern pattern' : List Char} {start : ℕ} (hk : k ≤ start)
    (h : pattern <+: text.drop start) (h' : pattern' <+: text.drop k)
    (hlen : start + pattern.length ≤ k + pattern'.length) : pattern <:+: pattern' := by
  have hdrop : pattern'.drop (start - k) <+: text.drop start := by
    have hsum : text.drop start = (text.drop k).drop (start - k) := by
      rw [drop_drop]
      congr 1
      omega
    rw [hsum]
    exact h'.drop _
  have hpre : pattern <+: pattern'.drop (start - k) := by
    refine prefix_of_prefix_length_le h hdrop ?_
    rw [length_drop]
    omega
  exact hpre.isInfix.trans (drop_suffix _ _).isInfix

/-- Before the next opening tag none starts, whatever comes after the buffer. -/
theorem Unnested.not_before_next (hnest : Unnested tags)
    (delimited : ∀ tag ∈ tags, tag.isDelimited) {start : ℕ} {index : Fin tags.length}
    (hnext : findNextOpenTag tags buffer = some (start, index)) (future : List Char)
    (hk : k < start) (htag : tag ∈ tags) : ¬tag.openTag <+: (buffer ++ future).drop k := by
  intro hstart
  obtain ⟨hopen, hfirst, -⟩ := findNextOpenTag_eq_some hnext
  obtain ⟨i, rfl⟩ := exists_index htag
  have hlen := hopen.length_le
  rw [length_drop] at hlen
  have hpos := length_pos_of_ne_nil
    (openTag_ne_nil (delimited tags[index] (getElem_mem index.2)))
  have hopen' : tags[index].openTag <+: (buffer ++ future).drop start := by
    rw [drop_append_of_le_length (by omega)]
    exact hopen.trans (prefix_append _ _)
  by_cases hinside : k + tags[i].openTag.length ≤ buffer.length
  · exact hfirst k hk i (Text.prefix_of_append hstart hinside)
  · -- the tag that starts earlier ends later, so the other one would occur in it
    have hinfix := infix_of_inside (Nat.le_of_lt hk) hopen' hstart (by omega)
    have heq := hnest tags[index] (getElem_mem index.2) _ htag hinfix
    have heqlen := congrArg List.length heq
    omega

/-- What is not kept back starts no opening tag, whatever comes after the buffer. -/
theorem not_before_kept (hnext : findNextOpenTag tags buffer = none) (future : List Char)
    (hk : k < buffer.length - longestTagPrefixSuffixLen buffer tags) (htag : tag ∈ tags) :
    ¬tag.openTag <+: (buffer ++ future).drop k := by
  intro hstart
  obtain ⟨i, rfl⟩ := exists_index htag
  by_cases hinside : k + tags[i].openTag.length ≤ buffer.length
  · exact findNextOpenTag_eq_none hnext k i (Text.prefix_of_append hstart hinside)
  · have hle := le_longestTagPrefixSuffixLen i (by omega : k < buffer.length) (by omega)
      (Text.drop_start hstart (by omega) (by omega))
    omega

/-- **The loop** of `drain` moves on in the text as far as it can. -/
theorem drainFrom_moves (hnest : Unnested tags) (delimited : ∀ tag ∈ tags, tag.isDelimited)
    (finish : Bool) (state : ParserState tags.length) (buffer : List Char)
    (out : HiddenTextChunk) (hchosen : state.Chosen tags) :
    ∃ (out' : HiddenTextChunk) (state' : ParserState tags.length) (buffer' : List Char),
      state'.Chosen tags ∧ state'.Stuck tags buffer' ∧
        Moves tags (pendingText tags state buffer) out' (pendingText tags state' buffer') ∧
        drainFrom tags delimited finish state buffer out =
          settle tags finish (out.append out') buffer' state' := by
  fun_induction drainFrom tags delimited finish state buffer out with
  | case1 buffer out start index hnext ih =>
    obtain ⟨hopen, -, hindex⟩ := findNextOpenTag_eq_some hnext
    have hbuffer := Text.eq_append_of_prefix hopen
    have hstart : ParserState.Chosen tags (.hidden index) := by
      intro i hi heq
      rw [← heq] at hopen
      exact hindex i hi hopen
    obtain ⟨out', state', buffer', hchosen', hstuck, hmoves, heq⟩ := ih hstart
    have hemit : Moves tags buffer ⟨buffer.take start, []⟩
        (pendingText tags (.hidden index)
          (buffer.drop (start + tags[index].openTag.length))) := by
      have hstarts : ∀ future, ∀ k < (buffer.take start).length, ∀ tag ∈ tags,
          ¬tag.openTag <+: (buffer ++ future).drop k := by
        intro future k hk tag htag
        refine hnest.not_before_next delimited hnext future ?_ htag
        exact Nat.lt_of_lt_of_le hk (length_take_le _ _)
      nth_rewrite 1 [hbuffer]
      refine Moves.emit ?_
      rwa [← hbuffer]
    refine ⟨_, state', buffer', hchosen', hstuck, hemit.trans hmoves, ?_⟩
    rw [heq]
    simp [HiddenTextChunk.append]
  | case2 buffer out hnext keep emitLen =>
    refine ⟨.default, .visible, buffer, hchosen, hnext, Moves.refl _, ?_⟩
    rw [HiddenTextChunk.append_default]
    simp [settle, HiddenTextChunk.append, emitLen, keep]
  | case3 buffer out index stop hfind ih =>
    obtain ⟨hclose, hfirst⟩ := Text.find_eq_some hfind
    obtain ⟨out', state', buffer', hchosen', hstuck, hmoves, heq⟩ := ih trivial
    have hblock : Moves tags (tags[index].openTag ++ buffer)
        ⟨[], [⟨tags[index].name, buffer.take stop⟩]⟩
        (buffer.drop (stop + tags[index].closeTag.length)) := by
      have hbuffer := Text.eq_append_of_prefix hclose
      nth_rewrite 1 [hbuffer]
      refine Moves.block (hchosen.find? hnest) fun future k hk hstart => ?_
      rw [← append_assoc tags[index].closeTag, ← append_assoc, ← hbuffer] at hstart
      have hlen := hclose.length_le
      have hne := closeTag_ne_nil (delimited tags[index] (getElem_mem index.2))
      have hpos := length_pos_of_ne_nil hne
      have htake := length_take_le stop buffer
      rw [length_drop] at hlen
      exact hfirst k (by omega) (Text.prefix_of_append hstart (by omega))
    refine ⟨_, state', buffer', hchosen', hstuck, hblock.trans hmoves, ?_⟩
    rw [heq]
    simp [HiddenTextChunk.append]
  | case4 buffer out index hfind hfinish =>
    refine ⟨.default, .hidden index, buffer, hchosen, hfind, Moves.refl _, ?_⟩
    rw [HiddenTextChunk.append_default]
    simp [settle, hfinish, HiddenTextChunk.append]
  | case5 buffer out index hfind hfinish =>
    refine ⟨.default, .hidden index, buffer, hchosen, hfind, Moves.refl _, ?_⟩
    rw [HiddenTextChunk.append_default]
    simp [settle, hfinish]

variable {state : ParserState tags.length}

/-- Without `finish` the parser moves on once more, up to what it keeps back. -/
theorem settle_moves (hchosen : state.Chosen tags) (hstuck : state.Stuck tags buffer)
    (out : HiddenTextChunk) :
    ∃ (out' : HiddenTextChunk) (state' : ParserState tags.length) (buffer' : List Char),
      settle tags false out buffer state = (out.append out', state', buffer') ∧
        state'.Chosen tags ∧
        Moves tags (pendingText tags state buffer) out' (pendingText tags state' buffer') := by
  cases state with
  | hidden index =>
    refine ⟨.default, .hidden index, buffer, ?_, hchosen, Moves.refl _⟩
    rw [HiddenTextChunk.append_default]
    rfl
  | visible =>
    refine ⟨_, .visible, _, rfl, trivial, ?_⟩
    generalize hlen : buffer.length - longestTagPrefixSuffixLen buffer tags = emitLen
    have hstarts : ∀ future, ∀ k < (buffer.take emitLen).length, ∀ tag ∈ tags,
        ¬tag.openTag <+: (buffer ++ future).drop k := by
      intro future k hk tag htag
      refine not_before_kept hstuck future ?_ htag
      rw [hlen]
      exact Nat.lt_of_lt_of_le hk (length_take_le _ _)
    have hbuffer := (take_append_drop emitLen buffer).symm
    simp only [Bool.false_eq_true, if_false, hlen, pendingText]
    nth_rewrite 1 [hbuffer]
    refine Moves.emit ?_
    rwa [← hbuffer]

/-- With `finish` the parser ends the division of what is pending. -/
theorem settle_division (hnest : Unnested tags) (hchosen : state.Chosen tags)
    (hstuck : state.Stuck tags buffer) (out : HiddenTextChunk) :
    ∃ segments, Division tags (pendingText tags state buffer) segments ∧
      (settle tags true out buffer state).1 = out.append (outputOf segments) := by
  cases state with
  | visible =>
    refine ⟨[.visible buffer], .plain fun k tag htag => ?_, ?_⟩
    · obtain ⟨i, rfl⟩ := exists_index htag
      exact findNextOpenTag_eq_none hstuck k i
    · have hall : settle tags true out buffer .visible =
          (out.append ⟨buffer.take (buffer.length - 0), []⟩, .visible, _) := rfl
      rw [hall, Nat.sub_zero, take_length, outputOf_visible_cons]
      simp [outputOf]
  | hidden index =>
    have hopen : Opens tags (tags[index].openTag ++ buffer) [] tags[index] buffer :=
      ⟨by simp, by simp, hchosen.find? hnest buffer⟩
    exact ⟨_, .unclosed hopen (Text.find_eq_none hstuck), rfl⟩

/-! ## The parser -/

namespace HiddenTextStreamParser

/-- What the parser has not emitted. -/
def heldBack (p : HiddenTextStreamParser) : List Char := pendingText p.tags p.state p.buffer

/-- Several `push_str` calls, with their outputs together. -/
def pushAll (p : HiddenTextStreamParser) : List (List Char) →
    HiddenTextChunk × HiddenTextStreamParser
  | [] => (.default, p)
  | chunk :: chunks =>
    let pushed := p.pushStr chunk
    let rest := pushed.2.pushAll chunks
    (pushed.1.append rest.1, rest.2)

/-- `push_str` calls and then `finish`. -/
def run (p : HiddenTextStreamParser) (chunks : List (List Char)) : HiddenTextChunk :=
  let pushed := p.pushAll chunks
  pushed.1.append pushed.2.finish.1

variable {p : HiddenTextStreamParser}

/-- A parser between its calls: the tag of its block is the first with its opening, and without
tags nothing is held back. -/
structure Ready (p : HiddenTextStreamParser) : Prop where
  chosen : p.state.Chosen p.tags
  idle : p.tags = [] → p.buffer = []

/-- A parser that has read some text with an output. -/
structure Reads (tags : List HiddenTextTag) (text : List Char) (out : HiddenTextChunk)
    (p : HiddenTextStreamParser) : Prop where
  tags : p.tags = tags
  ready : p.Ready
  moves : Moves p.tags text out p.heldBack

theorem pushStr_reads (hnest : Unnested p.tags) (hready : p.Ready) (chunk : List Char) :
    (p.pushStr chunk).2.Reads p.tags (p.heldBack ++ chunk) (p.pushStr chunk).1 := by
  obtain ⟨tags, delimited, state, buffer⟩ := p
  rw [pushStr]
  split
  · next hempty =>
    simp only [List.isEmpty_iff] at hempty
    subst hempty
    cases state with
    | hidden index => exact index.elim0
    | visible =>
      refine ⟨rfl, hready, ?_⟩
      have hbuffer : buffer = [] := hready.idle rfl
      subst hbuffer
      have hmoves : Moves [] (chunk ++ []) ⟨chunk, []⟩ [] := Moves.emit (by simp)
      simpa [heldBack, pendingText] using hmoves
  · next hempty =>
    obtain ⟨out, state', buffer', hchosen', hstuck, hmoves, hdrain⟩ :=
      drainFrom_moves hnest delimited false state (buffer ++ chunk) .default hready.chosen
    obtain ⟨out', state'', buffer'', hsettle, hchosen'', hmoves'⟩ :=
      settle_moves hchosen' hstuck (HiddenTextChunk.default.append out)
    rw [hsettle] at hdrain
    have happend : pendingText tags state (buffer ++ chunk) =
        pendingText tags state buffer ++ chunk := by
      cases state with
      | visible => rfl
      | hidden index => simp [pendingText]
    rw [happend] at hmoves
    simp only [drain, hdrain]
    refine ⟨rfl, ⟨hchosen'', fun hnil => absurd hnil (by simpa using hempty)⟩, ?_⟩
    exact hmoves.trans hmoves'

theorem pushAll_reads {tags : List HiddenTextTag} (hnest : Unnested tags)
    (chunks : List (List Char)) : ∀ p : HiddenTextStreamParser, p.tags = tags → p.Ready →
      (p.pushAll chunks).2.Reads tags (p.heldBack ++ chunks.flatten) (p.pushAll chunks).1 := by
  induction chunks with
  | nil =>
    rintro p rfl hready
    refine ⟨rfl, hready, ?_⟩
    rw [flatten_nil, append_nil]
    exact Moves.refl p.heldBack
  | cons chunk chunks ih =>
    rintro p rfl hready
    obtain ⟨htags, hready', hmoves⟩ := pushStr_reads hnest hready chunk
    obtain ⟨htags', hready'', hmoves'⟩ := ih _ htags hready'
    refine ⟨htags', hready'', ?_⟩
    rw [htags] at hmoves
    rw [htags'] at hmoves'
    rw [pushAll, htags', flatten_cons, ← append_assoc]
    exact (hmoves.append _).trans hmoves'

/-- `finish` ends the division of what was held back. -/
theorem finish_division (hnest : Unnested p.tags) (hready : p.Ready) :
    ∃ segments, Division p.tags p.heldBack segments ∧ p.finish.1 = outputOf segments := by
  obtain ⟨tags, delimited, state, buffer⟩ := p
  rw [finish]
  split
  · next hempty =>
    simp only [List.isEmpty_iff] at hempty
    subst hempty
    cases state with
    | hidden index => exact index.elim0
    | visible => exact ⟨[.visible buffer], .plain (by simp), by simp [outputOf, Segment.visibleText,
        Segment.block]⟩
  · obtain ⟨out, state', buffer', hchosen', hstuck, ⟨past, happ, hmoves⟩, hdrain⟩ :=
      drainFrom_moves hnest delimited true state buffer .default hready.chosen
    obtain ⟨segments', hrest, hsettle⟩ :=
      settle_division hnest hchosen' hstuck (HiddenTextChunk.default.append out)
    obtain ⟨segments, hall, hadds⟩ := hmoves [] segments' (by simpa using hrest)
    rw [append_nil] at hall
    refine ⟨segments, hall, ?_⟩
    rw [hadds.output, drain, hdrain]
    exact hsettle

theorem ready_new (tags : List HiddenTextTag) : (new tags).Ready := ⟨trivial, fun _ => rfl⟩

theorem run_division {tags : List HiddenTextTag} (hnest : Unnested tags)
    (htags : p.tags = tags) (hready : p.Ready) (hempty : p.heldBack = [])
    (chunks : List (List Char)) :
    ∃ segments, Division tags chunks.flatten segments ∧ p.run chunks = outputOf segments := by
  obtain ⟨htags', hready', past, happ, hmoves⟩ := pushAll_reads hnest chunks p htags hready
  obtain ⟨segments', hrest, hfinish⟩ := finish_division (htags' ▸ hnest) hready'
  obtain ⟨segments, hall, hadds⟩ := hmoves [] segments' (by simpa using hrest)
  refine ⟨segments, ?_, ?_⟩
  · simpa [hempty, htags'] using hall
  · rw [run, hfinish, hadds.output]

end HiddenTextStreamParser

open HiddenTextStreamParser

/-- Tags with delimiters are all kept by `new`. -/
theorem tags_new (h : ∀ tag ∈ tags, tag.isDelimited) : (new tags).tags = tags :=
  filter_eq_self.2 h

/-- **Filtering does not depend on the chunks**: the output is that of the whole text, which is
that of the one division of the text; and what was shown before the text was complete are the
visible characters of the complete text, among those that had arrived. -/
theorem filtering_ignores_chunks {tags : List HiddenTextTag}
    (hdelimited : ∀ tag ∈ tags, tag.openTag ≠ [] ∧ tag.closeTag ≠ []) (hnest : Unnested tags)
    (chunks : List (List Char)) :
    (new tags).run chunks = (new tags).run [chunks.flatten] ∧
      (∃ segments, Division tags chunks.flatten segments ∧
        segments.flatMap Segment.text = chunks.flatten ∧
        (new tags).run chunks = outputOf segments) ∧
      ∀ future segments, Division tags (chunks.flatten ++ future) segments →
        ∃ k ≤ chunks.flatten.length,
          ((new tags).pushAll chunks).1.visibleText = shown k segments := by
  have htags : (new tags).tags = tags := by
    refine tags_new fun tag htag => ?_
    simp [HiddenTextTag.isDelimited, hdelimited tag htag]
  obtain ⟨segments, hdivision, hrun⟩ := run_division hnest htags (ready_new tags) rfl chunks
  refine ⟨?_, ⟨segments, hdivision, hdivision.flatMap_text, hrun⟩, ?_⟩
  · obtain ⟨segments', hdivision', hrun'⟩ :=
      run_division hnest htags (ready_new tags) rfl [chunks.flatten]
    rw [flatten_singleton] at hdivision'
    rw [hrun, hrun', hdivision.unique hdivision']
  · intro future segments' hall
    obtain ⟨htags', -, past, happ, hmoves⟩ := pushAll_reads hnest chunks _ htags (ready_new tags)
    rw [htags'] at hmoves
    -- what is held back and comes after it has a division: that of a run
    obtain ⟨rest, hrest, -⟩ := run_division hnest htags (ready_new tags) rfl
      [((new tags).pushAll chunks).2.heldBack ++ future]
    rw [flatten_singleton] at hrest
    obtain ⟨segments, hdivision', hadds⟩ := hmoves future rest hrest
    have hnone : (new tags).heldBack = [] := rfl
    rw [hnone, nil_append] at happ hdivision'
    refine ⟨past.length, ?_, ?_⟩
    · rw [happ, length_append]
      exact Nat.le_add_right _ _
    · have hshown := hadds.shown 0
      rw [hall.unique hdivision']
      simpa using hshown.symm

/-- The tag of memory citations. -/
def memoryTag : HiddenTextTag where
  name := "memory_citation"
  openTag := "<openbitfun-mem-citation>".toList
  closeTag := "</openbitfun-mem-citation>".toList

/-- `filtering_ignores_chunks` for a citation that is cut in its opening tag. -/
theorem filtering_ignores_chunks_of_citation :
    (new [memoryTag]).run ["hello <openbitfun-mem-".toList,
        "citation>doc</openbitfun-mem-citation> world".toList] =
      (new [memoryTag]).run
        ["hello <openbitfun-mem-citation>doc</openbitfun-mem-citation> world".toList] :=
  (filtering_ignores_chunks (by decide) (by simp [Unnested]) _).1.trans (by congr 1)

end HiddenText

end OpenBitFun
