import Mathlib
import OpenBitFun.Text

/-!
# Hidden text in a stream

A model's text comes in chunks, and blocks between certain tags are taken out of it before it is
shown (`hidden_text.rs`). The parser keeps back what could still become an opening tag, and in a
block everything. Chunks are strings, so they are cut between characters, and so is the buffer: the
byte positions of the program are numbers of characters here.
-/

namespace OpenBitFun

open List

namespace HiddenText

/-! ## Tags and blocks -/

/-- `HiddenTextTag`. -/
structure HiddenTextTag where
  name : String
  openTag : List Char
  closeTag : List Char
  deriving DecidableEq

/-- A tag that the parser keeps: both delimiters have characters. -/
def HiddenTextTag.isDelimited (tag : HiddenTextTag) : Bool :=
  !tag.openTag.isEmpty && !tag.closeTag.isEmpty

/-- `HiddenTextBlock`. -/
structure HiddenTextBlock where
  name : String
  payload : List Char
  deriving DecidableEq

/-- `HiddenTextChunk`. -/
structure HiddenTextChunk where
  visibleText : List Char
  hiddenBlocks : List HiddenTextBlock
  deriving DecidableEq

/-- The default chunk is empty. -/
def HiddenTextChunk.default : HiddenTextChunk := ⟨[], []⟩

/-- One output after another. -/
def HiddenTextChunk.append (out out' : HiddenTextChunk) : HiddenTextChunk where
  visibleText := out.visibleText ++ out'.visibleText
  hiddenBlocks := out.hiddenBlocks ++ out'.hiddenBlocks

@[simp] theorem HiddenTextChunk.default_append (out : HiddenTextChunk) :
    HiddenTextChunk.default.append out = out := rfl

@[simp] theorem HiddenTextChunk.append_default (out : HiddenTextChunk) :
    out.append .default = out := by
  simp [HiddenTextChunk.append, HiddenTextChunk.default]

theorem HiddenTextChunk.append_assoc (a b c : HiddenTextChunk) :
    (a.append b).append c = a.append (b.append c) := by
  simp [HiddenTextChunk.append]

/-- `ParserState`: inside of a block, with the index of its tag. -/
inductive ParserState (n : ℕ) where
  | visible
  | hidden (tagIndex : Fin n)

/-- `HiddenTextStreamParser`, with tags whose delimiters have characters. -/
structure HiddenTextStreamParser where
  tags : List HiddenTextTag
  delimited : ∀ tag ∈ tags, tag.isDelimited
  state : ParserState tags.length
  buffer : List Char

/-! ## Searching -/

/-- `min_by_key`: the first element with the least key. -/
def minByKey {α : Type} (key : α → ℕ) : List α → Option α
  | [] => none
  | a :: l =>
    match minByKey key l with
    | none => some a
    | some b => if key a ≤ key b then some a else some b

/-- `find_next_open_tag`. -/
def findNextOpenTag (tags : List HiddenTextTag) (buffer : List Char) :
    Option (ℕ × Fin tags.length) :=
  minByKey Prod.fst ((List.finRange tags.length).filterMap fun index =>
    (Text.find buffer tags[index].openTag).map fun start => (start, index))

/-- The lengths of the ends of a text that an opening tag could go on from. -/
def tagPrefixSuffixLens (text : List Char) (tags : List HiddenTextTag) : List ℕ :=
  (tags.filter fun tag => !tag.openTag.isEmpty).flatMap fun tag =>
    (List.range' 1 (tag.openTag.length - 1)).filter fun len =>
      decide (len ≤ text.length) && (text.drop (text.length - len)).isPrefixOf tag.openTag

/-- `longest_tag_prefix_suffix_len`. -/
def longestTagPrefixSuffixLen (text : List Char) (tags : List HiddenTextTag) : ℕ :=
  (tagPrefixSuffixLens text tags).max?.getD 0

/-! ## What the searches find -/

variable {tags : List HiddenTextTag} {buffer text : List Char}

theorem minByKey_eq_none {α : Type} {key : α → ℕ} {l : List α} (h : minByKey key l = none) :
    l = [] := by
  cases l with
  | nil => rfl
  | cons a l =>
    rw [minByKey] at h
    split at h
    · simp at h
    · split at h
      · simp at h
      · simp at h

/-- The first element with the least key: no key is less, and those before it are greater. -/
theorem minByKey_eq_some {α : Type} {key : α → ℕ} {l : List α} {m : α}
    (h : minByKey key l = some m) :
    ∃ before after, l = before ++ m :: after ∧ (∀ a ∈ before, key m < key a) ∧
      ∀ a ∈ after, key m ≤ key a := by
  induction l generalizing m with
  | nil => simp [minByKey] at h
  | cons a l ih =>
    rw [minByKey] at h
    cases hrest : minByKey key l with
    | none =>
      have hnil := minByKey_eq_none hrest
      simp only [hrest, Option.some.injEq] at h
      subst h
      exact ⟨[], l, rfl, by simp, by simp [hnil]⟩
    | some b =>
      obtain ⟨before, after, rfl, hbefore, hafter⟩ := ih hrest
      simp only [hrest] at h
      by_cases hle : key a ≤ key b
      · rw [if_pos hle, Option.some.injEq] at h
        subst h
        refine ⟨[], before ++ b :: after, rfl, by simp, ?_⟩
        intro x hx
        rcases mem_append.1 hx with hx | hx
        · have := hbefore x hx
          omega
        · rcases mem_cons.1 hx with rfl | hx
          · exact hle
          · have := hafter x hx
            omega
      · rw [if_neg hle, Option.some.injEq] at h
        subst h
        refine ⟨a :: before, after, rfl, ?_, hafter⟩
        intro x hx
        rcases mem_cons.1 hx with rfl | hx
        · omega
        · exact hbefore x hx

/-- The openings that are found, in the order of their tags. -/
theorem mem_found {start : ℕ} {index : Fin tags.length} :
    (start, index) ∈ ((List.finRange tags.length).filterMap fun index =>
      (Text.find buffer tags[index].openTag).map fun start => (start, index)) ↔
        Text.find buffer tags[index].openTag = some start := by
  simp only [mem_filterMap, mem_finRange, true_and, Option.map_eq_some_iff,
    Prod.mk.injEq]
  refine ⟨?_, fun h => ⟨index, start, h, rfl, rfl⟩⟩
  rintro ⟨index', start', h, rfl, rfl⟩
  exact h

theorem pairwise_found : ((List.finRange tags.length).filterMap fun index =>
    (Text.find buffer tags[index].openTag).map fun start => (start, index)).Pairwise
      fun a b => a.2 < b.2 := by
  refine pairwise_filterMap.2 ((pairwise_lt_finRange _).imp ?_)
  intro i j hij a ha b hb
  obtain ⟨p, -, rfl⟩ := Option.map_eq_some_iff.1 ha
  obtain ⟨q, -, rfl⟩ := Option.map_eq_some_iff.1 hb
  exact hij

/-- A pattern that starts somewhere is found there or before. -/
theorem find_of_prefix {s pattern : List Char} {k : ℕ} (h : pattern <+: s.drop k) :
    ∃ n ≤ k, Text.find s pattern = some n := by
  cases hfind : Text.find s pattern with
  | none => exact absurd h (Text.find_eq_none hfind k)
  | some n =>
    refine ⟨n, ?_, rfl⟩
    by_contra hlt
    exact (Text.find_eq_some hfind).2 k (by omega) h

/-- The next opening tag: none starts before it, and none of an earlier tag starts there. -/
theorem findNextOpenTag_eq_some {start : ℕ} {index : Fin tags.length}
    (h : findNextOpenTag tags buffer = some (start, index)) :
    tags[index].openTag <+: buffer.drop start ∧
      (∀ k < start, ∀ i : Fin tags.length, ¬tags[i].openTag <+: buffer.drop k) ∧
      ∀ i < index, ¬tags[i].openTag <+: buffer.drop start := by
  obtain ⟨before, after, hl, hbefore, hafter⟩ := minByKey_eq_some h
  have hmem := fun n i => (@mem_found tags buffer n i).symm
  have hpair := @pairwise_found tags buffer
  simp only [hl] at hmem hpair
  have hleast : ∀ (n : ℕ) (i : Fin tags.length), Text.find buffer tags[i].openTag = some n → start ≤ n := by
    intro n i hn
    rcases mem_append.1 ((hmem n i).1 hn) with hin | hin
    · exact Nat.le_of_lt (hbefore _ hin)
    rcases mem_cons.1 hin with heq | hin
    · exact Nat.le_of_eq (congrArg Prod.fst heq).symm
    · exact hafter _ hin
  refine ⟨(Text.find_eq_some ((hmem start index).2 (by simp))).1, ?_, ?_⟩
  · intro k hk i hstart
    obtain ⟨n, hn, hfind⟩ := find_of_prefix hstart
    have := hleast n i hfind
    omega
  · intro i hi hstart
    obtain ⟨n, hn, hfind⟩ := find_of_prefix hstart
    have hstart := hleast n i hfind
    -- found at the same place, so it stands after the tag that was chosen
    rcases mem_append.1 ((hmem n i).1 hfind) with hin | hin
    · have := hbefore _ hin
      omega
    rcases mem_cons.1 hin with heq | hin
    · cases heq
      exact absurd hi (lt_irrefl _)
    · have hlt := rel_of_pairwise_cons (pairwise_append.1 hpair).2.1 hin
      exact absurd hi (not_lt_of_gt hlt)

/-- Without a next opening tag none starts anywhere. -/
theorem findNextOpenTag_eq_none (h : findNextOpenTag tags buffer = none) (k : ℕ)
    (i : Fin tags.length) : ¬tags[i].openTag <+: buffer.drop k := by
  have hnil := minByKey_eq_none h
  intro hstart
  obtain ⟨n, -, hfind⟩ := find_of_prefix hstart
  have hmem := mem_found.2 hfind
  rw [hnil] at hmem
  simp at hmem

/-- What is kept back is as long as any end of the text that an opening tag could go on from. -/
theorem le_longestTagPrefixSuffixLen {k : ℕ} (i : Fin tags.length) (hk : k < text.length)
    (hlen : text.length - k < tags[i].openTag.length)
    (hsuffix : text.drop k <+: tags[i].openTag) :
    text.length - k ≤ longestTagPrefixSuffixLen text tags := by
  have hmem : text.length - k ∈ tagPrefixSuffixLens text tags := by
    have hdrop : text.length - (text.length - k) = k := by omega
    have hopen : tags[i].openTag ≠ [] := ne_nil_of_length_pos (by omega)
    refine mem_flatMap.2 ⟨tags[i], ?_, ?_⟩
    · exact mem_filter.2 ⟨getElem_mem i.2, by simpa using hopen⟩
    · refine mem_filter.2 ⟨mem_range'_1.2 (by omega), ?_⟩
      simpa [hdrop] using hsuffix
  rw [longestTagPrefixSuffixLen]
  cases hmax : (tagPrefixSuffixLens text tags).max? with
  | none =>
    rw [max?_eq_none_iff.1 hmax] at hmem
    simp at hmem
  | some n => exact (max?_eq_some_iff.1 hmax).2 _ hmem

/-! ## The parser -/

theorem openTag_ne_nil {tag : HiddenTextTag} (h : tag.isDelimited) : tag.openTag ≠ [] := by
  rw [HiddenTextTag.isDelimited, Bool.and_eq_true] at h
  simpa using h.1

theorem closeTag_ne_nil {tag : HiddenTextTag} (h : tag.isDelimited) : tag.closeTag ≠ [] := by
  rw [HiddenTextTag.isDelimited, Bool.and_eq_true] at h
  simpa using h.2

/-- The loop of `drain`, from a state with an output. -/
def drainFrom (tags : List HiddenTextTag) (delimited : ∀ tag ∈ tags, tag.isDelimited)
    (finish : Bool) (state : ParserState tags.length) (buffer : List Char)
    (out : HiddenTextChunk) : HiddenTextChunk × ParserState tags.length × List Char :=
  match state with
  | .visible =>
    match h : findNextOpenTag tags buffer with
    | some (start, tagIndex) =>
      drainFrom tags delimited finish (.hidden tagIndex)
        (buffer.drop (start + tags[tagIndex].openTag.length))
        { out with visibleText := out.visibleText ++ buffer.take start }
    | none =>
      let keep := if finish then 0 else longestTagPrefixSuffixLen buffer tags
      let emitLen := buffer.length - keep
      ({ out with visibleText := out.visibleText ++ buffer.take emitLen }, .visible,
        buffer.drop emitLen)
  | .hidden tagIndex =>
    match h : Text.find buffer tags[tagIndex].closeTag with
    | some stop =>
      drainFrom tags delimited finish .visible
        (buffer.drop (stop + tags[tagIndex].closeTag.length))
        { out with
          hiddenBlocks := out.hiddenBlocks ++ [⟨tags[tagIndex].name, buffer.take stop⟩] }
    | none =>
      if finish then
        ({ out with hiddenBlocks := out.hiddenBlocks ++ [⟨tags[tagIndex].name, buffer⟩] },
          .visible, [])
      else
        (out, .hidden tagIndex, buffer)
termination_by buffer.length
decreasing_by
  · exact Text.drop_lt (findNextOpenTag_eq_some h).1 (openTag_ne_nil (delimited _ (by simp)))
  · exact Text.drop_lt (Text.find_eq_some h).1 (closeTag_ne_nil (delimited _ (by simp)))

namespace HiddenTextStreamParser

/-- `new`: tags with an empty delimiter are left out. -/
def new (tags : List HiddenTextTag) : HiddenTextStreamParser where
  tags := tags.filter HiddenTextTag.isDelimited
  delimited := fun _ htag => (mem_filter.1 htag).2
  state := .visible
  buffer := []

/-- `drain`. -/
def drain (p : HiddenTextStreamParser) (finish : Bool) :
    HiddenTextChunk × HiddenTextStreamParser :=
  let drained := drainFrom p.tags p.delimited finish p.state p.buffer .default
  (drained.1, { p with state := drained.2.1, buffer := drained.2.2 })

/-- `push_str`. -/
def pushStr (p : HiddenTextStreamParser) (chunk : List Char) :
    HiddenTextChunk × HiddenTextStreamParser :=
  if p.tags.isEmpty then (⟨chunk, []⟩, p)
  else drain { p with buffer := p.buffer ++ chunk } false

/-- `finish`. -/
def finish (p : HiddenTextStreamParser) : HiddenTextChunk × HiddenTextStreamParser :=
  if p.tags.isEmpty then (⟨p.buffer, []⟩, { p with buffer := [] })
  else p.drain true

end HiddenTextStreamParser

/-! ## What the loop leaves -/

/-- What the parser has not emitted: in a block, with the opening tag. -/
def pendingText (tags : List HiddenTextTag) : ParserState tags.length → List Char → List Char
  | .visible, buffer => buffer
  | .hidden index, buffer => tags[index].openTag ++ buffer

/-- The tag of a block is the first with its opening. -/
def ParserState.Chosen (tags : List HiddenTextTag) : ParserState tags.length → Prop
  | .visible => True
  | .hidden index => ∀ i < index, tags[i].openTag ≠ tags[index].openTag

/-- No opening tag occurs in another one. -/
def Unnested (tags : List HiddenTextTag) : Prop :=
  ∀ tag ∈ tags, ∀ tag' ∈ tags, tag.openTag <:+: tag'.openTag → tag.openTag = tag'.openTag

/-- Of two patterns that start in a text at one place, one occurs in the other. -/
theorem Unnested.eq_of_prefix {tag tag' : HiddenTextTag} (h : Unnested tags) (htag : tag ∈ tags)
    (htag' : tag' ∈ tags) (hstart : tag.openTag <+: text) (hstart' : tag'.openTag <+: text) :
    tag.openTag = tag'.openTag := by
  rcases prefix_or_prefix_of_prefix hstart hstart' with hpre | hpre
  · exact h _ htag _ htag' hpre.isInfix
  · exact (h _ htag' _ htag hpre.isInfix).symm

theorem ParserState.Chosen.find? {index : Fin tags.length}
    (h : ParserState.Chosen tags (.hidden index)) (hnest : Unnested tags) (rest : List Char) :
    (tags.find? fun tag => tag.openTag.isPrefixOf (tags[index].openTag ++ rest)) =
      some tags[index] := by
  refine find?_eq_some_iff_getElem.2 ⟨by simp, index, index.2, rfl, fun j hj => ?_⟩
  simp only [Bool.not_eq_true', ← Bool.not_eq_true, isPrefixOf_iff_prefix]
  intro hpre
  refine h ⟨j, by omega⟩ hj ?_
  exact hnest.eq_of_prefix (getElem_mem _) (getElem_mem _) hpre
    (prefix_append _ _)

theorem exists_index {tag : HiddenTextTag} (htag : tag ∈ tags) :
    ∃ i : Fin tags.length, tags[i] = tag := by
  obtain ⟨i, hi, htag⟩ := getElem_of_mem htag
  exact ⟨⟨i, hi⟩, htag⟩

/-- Where the loop of `drain` stops. -/
def ParserState.Stuck (tags : List HiddenTextTag) (buffer : List Char) :
    ParserState tags.length → Prop
  | .visible => findNextOpenTag tags buffer = none
  | .hidden index => Text.find buffer tags[index].closeTag = none

/-- What the loop of `drain` does when it stops. -/
def settle (tags : List HiddenTextTag) (finish : Bool) (out : HiddenTextChunk)
    (buffer : List Char) : ParserState tags.length →
      HiddenTextChunk × ParserState tags.length × List Char
  | .visible =>
    let emitLen := buffer.length - if finish then 0 else longestTagPrefixSuffixLen buffer tags
    (out.append ⟨buffer.take emitLen, []⟩, .visible, buffer.drop emitLen)
  | .hidden index =>
    if finish then (out.append ⟨[], [⟨tags[index].name, buffer⟩]⟩, .visible, [])
    else (out, .hidden index, buffer)

end HiddenText

end OpenBitFun
