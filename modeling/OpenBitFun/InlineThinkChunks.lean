import OpenBitFun.InlineThink

/-!
# Chunks of text with thinking

The parser of inline thinking does not depend on how its text is cut into chunks: what it emits is,
up to where segments of one kind are cut, the division of the whole text at its tags.
-/

namespace OpenBitFun

open List

namespace InlineThink

universe u

/-! ## Segments -/

/-- The kind of a segment. -/
def InlineThinkSegment.mode : InlineThinkSegment → InlineThinkMode
  | .text _ => .text
  | .thinking _ => .thinking

/-- The characters of a segment. -/
def InlineThinkSegment.content : InlineThinkSegment → List Char
  | .text content => content
  | .thinking content => content

namespace InlineThinkMode

variable (mode : InlineThinkMode) (content : List Char)

@[simp] theorem mode_segment : (mode.segment content).mode = mode := by
  cases mode with
  | text => rfl
  | thinking => rfl

@[simp] theorem content_segment : (mode.segment content).content = content := by
  cases mode with
  | text => rfl
  | thinking => rfl

end InlineThinkMode

@[simp] theorem segment_mode_content (s : InlineThinkSegment) :
    s.mode.segment s.content = s := by
  cases s with
  | text content => rfl
  | thinking content => rfl

/-- A segment in front of others: it is joined to the first if that is of its kind. -/
def joinFront (s : InlineThinkSegment) : List InlineThinkSegment → List InlineThinkSegment
  | [] => [s]
  | t :: rest =>
    if s.mode = t.mode then s.mode.segment (s.content ++ t.content) :: rest else s :: t :: rest

/-- Segments, after joining adjacent ones of the same kind. -/
def joined : List InlineThinkSegment → List InlineThinkSegment
  | [] => []
  | s :: rest => joinFront s (joined rest)

/-- The characters of segments, each with the kind of its segment. -/
def tagged (segments : List InlineThinkSegment) : List (InlineThinkMode × Char) :=
  segments.flatMap fun s => s.content.map fun c => (s.mode, c)

/-- Groups characters of one kind. -/
def grouped : List (InlineThinkMode × Char) → List InlineThinkSegment
  | [] => []
  | (mode, c) :: rest => joinFront (mode.segment [c]) (grouped rest)

@[simp] theorem tagged_nil : tagged [] = [] := rfl

@[simp] theorem tagged_cons (s : InlineThinkSegment) (segments : List InlineThinkSegment) :
    tagged (s :: segments) = (s.content.map fun c => (s.mode, c)) ++ tagged segments := rfl

@[simp] theorem tagged_append (xs ys : List InlineThinkSegment) :
    tagged (xs ++ ys) = tagged xs ++ tagged ys := by
  simp [tagged]

/-- Joining two pieces of one kind in turn. -/
theorem joinFront_append (mode : InlineThinkMode) (a b : List Char)
    (rest : List InlineThinkSegment) :
    joinFront (mode.segment (a ++ b)) rest =
      joinFront (mode.segment a) (joinFront (mode.segment b) rest) := by
  cases rest with
  | nil => simp [joinFront]
  | cons t rest =>
    by_cases h : mode = t.mode
    · simp [joinFront, h]
    · simp [joinFront, h]

theorem grouped_content (mode : InlineThinkMode) {content : List Char} (h : content ≠ [])
    (rest : List (InlineThinkMode × Char)) :
    grouped ((content.map fun c => (mode, c)) ++ rest) =
      joinFront (mode.segment content) (grouped rest) := by
  induction content with
  | nil => exact absurd rfl h
  | cons c content ih =>
    cases content with
    | nil => rfl
    | cons d content =>
      rw [map_cons, cons_append, grouped, ih (cons_ne_nil d content),
        ← joinFront_append]
      rfl

/-- Joining segments that have characters only depends on the characters and their kinds. -/
theorem joined_eq_grouped {segments : List InlineThinkSegment}
    (h : ∀ s ∈ segments, s.content ≠ []) : joined segments = grouped (tagged segments) := by
  induction segments with
  | nil => rfl
  | cons s rest ih =>
    obtain ⟨hs, hrest⟩ := forall_mem_cons.1 h
    rw [joined, ih hrest, tagged_cons, grouped_content s.mode hs, segment_mode_content]

/-- Pieces of one kind are joined to one segment. -/
theorem joined_same (mode : InlineThinkMode) {contents : List (List Char)} (h : contents ≠ []) :
    joined (contents.map mode.segment) = [mode.segment contents.flatten] := by
  induction contents with
  | nil => exact absurd rfl h
  | cons content contents ih =>
    cases contents with
    | nil => simp [joined, joinFront]
    | cons d contents =>
      rw [map_cons, joined, ih (cons_ne_nil d contents), joinFront]
      simp

/-! ## The division of a text -/

/-- The text, divided at each tag that ends the mode it is found in. -/
def alternate (mode : InlineThinkMode) (text : List Char) : List InlineThinkSegment :=
  match _h : Text.find text mode.marker with
  | some idx =>
    mode.segment (text.take idx) :: alternate mode.other (text.drop (idx + mode.marker.length))
  | none => [mode.segment text]
termination_by text.length
decreasing_by exact Text.drop_lt (Text.find_eq_some _h).1 mode.marker_ne_nil

/-- What the segments of a text are: an opening tag in front, behind white space, makes the text
alternate, and any other text is one segment. -/
def segmentsOf (text : List Char) : List InlineThinkSegment :=
  if openTag <+: Text.trimStart text then alternate .text text else [.text text]

/-- Puts back the tags between segments. -/
def withTags (mode : InlineThinkMode) : List InlineThinkSegment → List Char
  | [] => []
  | [s] => s.content
  | s :: t :: rest => s.content ++ mode.marker ++ withTags mode.other (t :: rest)

variable {mode : InlineThinkMode} {text front rest future data : List Char}

theorem alternate_of_find {idx : ℕ} (h : Text.find text mode.marker = some idx) :
    alternate mode text = mode.segment (text.take idx) ::
      alternate mode.other (text.drop (idx + mode.marker.length)) := by
  rw [alternate]
  split
  · next h' =>
    obtain rfl : _ = idx := Option.some.inj (h'.symm.trans h)
    rfl
  · next h' => exact nomatch h'.symm.trans h

theorem alternate_of_find_none (h : Text.find text mode.marker = none) :
    alternate mode text = [mode.segment text] := by
  rw [alternate]
  split
  · next h' => exact nomatch h'.symm.trans h
  · rfl

theorem alternate_ne_nil (mode : InlineThinkMode) (text : List Char) :
    alternate mode text ≠ [] := by
  cases h : Text.find text mode.marker with
  | none => simp [alternate_of_find_none h]
  | some idx => simp [alternate_of_find h]

/-- The segments are all of the text but its tags. -/
theorem withTags_alternate (mode : InlineThinkMode) (text : List Char) :
    withTags mode (alternate mode text) = text := by
  induction mode, text using alternate.induct with
  | case1 mode text idx h ih =>
    rw [alternate_of_find h]
    obtain ⟨t, ts, hrest⟩ := exists_cons_of_ne_nil
      (alternate_ne_nil mode.other (text.drop (idx + mode.marker.length)))
    rw [hrest] at ih
    rw [hrest, withTags, ih, InlineThinkMode.content_segment, append_assoc]
    exact (Text.eq_append_of_prefix (Text.find_eq_some h).1).symm
  | case2 mode text h =>
    rw [alternate_of_find_none h]
    exact mode.content_segment text

/-- A text in front of which no tag starts is of the kind of the mode. -/
theorem tagged_alternate_append
    (h : ∀ k < front.length, ¬mode.marker <+: (front ++ rest).drop k) :
    tagged (alternate mode (front ++ rest)) =
      (front.map fun c => (mode, c)) ++ tagged (alternate mode rest) := by
  have hfind := Text.find_append h
  cases hrest : Text.find rest mode.marker with
  | none =>
    rw [hrest] at hfind
    rw [alternate_of_find_none hfind, alternate_of_find_none hrest]
    simp
  | some idx =>
    rw [hrest] at hfind
    rw [Option.map_some] at hfind
    rw [alternate_of_find hfind, alternate_of_find hrest, Nat.add_assoc,
      take_length_add_append, drop_length_add_append]
    simp

theorem tagged_alternate_marker (mode : InlineThinkMode) (rest : List Char) :
    tagged (alternate mode (mode.marker ++ rest)) = tagged (alternate mode.other rest) := by
  have hfind : Text.find (mode.marker ++ rest) mode.marker = some 0 := by
    rw [Text.find.eq_def, if_pos (List.isPrefixOf_iff_prefix.2 (prefix_append _ _))]
  rw [alternate_of_find hfind]
  simp

/-! ## What is kept back -/

/-- The greatest length that passes a test is at least any length that passes it. -/
theorem le_find?_reverse {test : ℕ → Bool} {len n : ℕ} (hpos : 1 ≤ len) (hn : len ≤ n)
    (htest : test len) : len ≤ ((List.range' 1 n).reverse.find? test).getD 0 := by
  induction n with
  | zero => omega
  | succ n ih =>
    rw [range'_1_concat, reverse_concat, find?_cons]
    split
    · simp only [Option.getD_some]
      omega
    · next hlast =>
      refine ih (Nat.le_of_lt_succ (Nat.lt_of_le_of_ne hn ?_))
      rintro rfl
      rw [Nat.succ_eq_one_add, hlast] at htest
      exact Bool.false_ne_true htest

theorem find?_reverse_le (test : ℕ → Bool) (n : ℕ) :
    ((List.range' 1 n).reverse.find? test).getD 0 ≤ n := by
  cases h : (List.range' 1 n).reverse.find? test with
  | none => exact Nat.zero_le n
  | some len =>
    have hmem := mem_of_find?_eq_some h
    rw [mem_reverse, mem_range'_1] at hmem
    simp only [Option.getD_some]
    omega

/-- What is kept back is as long as any end of the text that a marker could go on from. -/
theorem le_longestSuffixPrefixLen {marker : List Char} {k : ℕ} (hk : k < data.length)
    (hlen : data.length - k < marker.length) (hstart : data.drop k <+: marker) :
    data.length - k ≤ longestSuffixPrefixLen data marker := by
  refine le_find?_reverse (by omega) (by omega) ?_
  have htake : marker.take (data.length - k) = data.drop k := by
    have hstart := prefix_iff_eq_take.1 hstart
    rw [hstart, length_drop]
  rw [htake, isSuffixOf_iff_suffix]
  exact drop_suffix k data

theorem longestSuffixPrefixLen_le (data marker : List Char) :
    longestSuffixPrefixLen data marker ≤ data.length :=
  (find?_reverse_le _ _).trans (Nat.min_le_left _ _)

theorem longestSuffixPrefixLen_lt {marker : List Char} (h : marker ≠ []) (data : List Char) :
    longestSuffixPrefixLen data marker < marker.length := by
  have hle : longestSuffixPrefixLen data marker ≤ marker.length - 1 :=
    (find?_reverse_le _ _).trans (Nat.min_le_right _ _)
  have hpos := length_pos_of_ne_nil h
  omega

/-- What is not kept back starts no marker, whatever comes after it. -/
theorem not_before_kept {marker : List Char} (h : Text.find data marker = none)
    (future : List Char) {k : ℕ}
    (hk : k < data.length - longestSuffixPrefixLen data marker) :
    ¬marker <+: (data ++ future).drop k := by
  intro hstart
  by_cases hinside : k + marker.length ≤ data.length
  · exact Text.find_eq_none h k (Text.prefix_of_append hstart hinside)
  · have hle := le_longestSuffixPrefixLen (by omega : k < data.length) (by omega)
      (Text.drop_start hstart (by omega) (by omega))
    omega

/-- A text that is shorter than the marker has no tag. -/
theorem alternate_of_lt (h : text.length < mode.marker.length) :
    alternate mode text = [mode.segment text] := by
  refine alternate_of_find_none ?_
  cases hfind : Text.find text mode.marker with
  | none => rfl
  | some idx =>
    have hle := (Text.find_eq_some hfind).1.length_le
    rw [length_drop] at hle
    omega

/-! ## The loop -/

@[simp] theorem tagged_pushSegment (mode : InlineThinkMode) (segments : List InlineThinkSegment)
    (content : List Char) : tagged (pushSegment mode segments content) =
      tagged segments ++ content.map fun c => (mode, c) := by
  cases content with
  | nil => simp [pushSegment]
  | cons c content => simp [pushSegment]

theorem content_ne_nil_pushSegment {segments : List InlineThinkSegment}
    (h : ∀ s ∈ segments, s.content ≠ []) (mode : InlineThinkMode) (content : List Char) :
    ∀ s ∈ pushSegment mode segments content, s.content ≠ [] := by
  cases content with
  | nil => exact h
  | cons c content =>
    intro s hs
    rcases mem_append.1 hs with hs | hs
    · exact h s hs
    · rw [mem_singleton.1 hs, InlineThinkMode.content_segment]
      exact cons_ne_nil c content

theorem content_ne_nil_parseFrom (mode : InlineThinkMode) (segments : List InlineThinkSegment)
    (data : List Char) (h : ∀ s ∈ segments, s.content ≠ []) :
    ∀ s ∈ (parseFrom mode segments data).1, s.content ≠ [] := by
  fun_induction parseFrom mode segments data with
  | case1 mode segments data idx hfind ih =>
    exact ih (content_ne_nil_pushSegment h mode (data.take idx))
  | case2 mode segments data hfind flushLen =>
    exact content_ne_nil_pushSegment h mode (data.take flushLen)

/-- What the loop keeps back is shorter than the tag it is waiting for. -/
theorem length_parseFrom (mode : InlineThinkMode) (segments : List InlineThinkSegment)
    (data : List Char) :
    (parseFrom mode segments data).2.2.length <
      (parseFrom mode segments data).2.1.marker.length := by
  fun_induction parseFrom mode segments data with
  | case1 mode segments data idx hfind ih => exact ih
  | case2 mode segments data hfind flushLen =>
    have hle := longestSuffixPrefixLen_le data mode.marker
    have hlt := longestSuffixPrefixLen_lt mode.marker_ne_nil data
    simp only [length_drop, flushLen]
    omega

/-- **The loop**: whatever text comes after the data, what is pushed and the division of the rest
are the division of all of it. -/
theorem tagged_parseFrom (mode : InlineThinkMode) (segments : List InlineThinkSegment)
    (data future : List Char) :
    tagged segments ++ tagged (alternate mode (data ++ future)) =
      tagged (parseFrom mode segments data).1 ++
        tagged (alternate (parseFrom mode segments data).2.1
          ((parseFrom mode segments data).2.2 ++ future)) := by
  fun_induction parseFrom mode segments data with
  | case1 mode segments data idx hfind ih =>
    obtain ⟨hstart, hfirst⟩ := Text.find_eq_some hfind
    have hdata := Text.eq_append_of_prefix hstart
    have hlen := hstart.length_le
    rw [length_drop] at hlen
    have htake := length_take_le idx data
    have hbefore : ∀ k < (data.take idx).length, ¬mode.marker <+:
        (data.take idx ++ (mode.marker ++
          (data.drop (idx + mode.marker.length) ++ future))).drop k := by
      intro k hk hmarker
      rw [← append_assoc mode.marker, ← append_assoc, ← hdata] at hmarker
      have hpos := length_pos_of_ne_nil mode.marker_ne_nil
      exact hfirst k (by omega) (Text.prefix_of_append hmarker (by omega))
    have hdivide := tagged_alternate_append hbefore
    rw [tagged_alternate_marker, ← append_assoc mode.marker, ← append_assoc,
      ← hdata] at hdivide
    rw [← ih, hdivide, tagged_pushSegment, append_assoc]
  | case2 mode segments data hfind flushLen =>
    have hbefore : ∀ k < (data.take flushLen).length, ¬mode.marker <+:
        (data.take flushLen ++ (data.drop flushLen ++ future)).drop k := by
      intro k hk
      rw [← append_assoc, take_append_drop]
      exact not_before_kept hfind future
        (Nat.lt_of_lt_of_le hk (length_take_le flushLen data))
    have hdivide := tagged_alternate_append hbefore
    rw [← append_assoc, take_append_drop] at hdivide
    rw [hdivide, tagged_pushSegment, append_assoc]

/-! ## Responses -/

variable {ρ : Type u}

/-- A response that carries only text. -/
def textResponse (text : List Char) : UnifiedResponse ρ :=
  { UnifiedResponse.default with text := some text }

/-- The segments that responses carry. -/
def segmentsIn (responses : List (UnifiedResponse ρ)) : List InlineThinkSegment :=
  responses.flatMap fun response =>
    (response.text.map .text).toList ++ (response.reasoningContent.map .thinking).toList

@[simp] theorem segmentsIn_append (xs ys : List (UnifiedResponse ρ)) :
    segmentsIn (xs ++ ys) = segmentsIn xs ++ segmentsIn ys := by
  simp [segmentsIn]

@[simp] theorem segmentsIn_response (segments : List InlineThinkSegment) :
    segmentsIn (segments.map fun s => (s.response : UnifiedResponse ρ)) = segments := by
  induction segments with
  | nil => rfl
  | cons s segments ih =>
    have hone : segmentsIn [(s.response : UnifiedResponse ρ)] = [s] := by
      cases s with
      | text content => rfl
      | thinking content => rfl
    rw [map_cons, ← singleton_append, segmentsIn_append, hone, ih]
    rfl

theorem modifyLast_id {α : Type u} (f : α → α) (h : ∀ a, f a = a) :
    ∀ l : List α, modifyLast f l = l
  | [] => rfl
  | [a] => by rw [modifyLast, h]
  | a :: b :: l => by rw [modifyLast, modifyLast_id f h (b :: l)]

namespace InlineThinkParser

variable {p : InlineThinkParser} {segments : List InlineThinkSegment}

/-- Without anything held back, responses carry nothing but the segments. -/
theorem attachMetaToSegments_default (h : p.deferredMeta = .default)
    (segments : List InlineThinkSegment) :
    (p.attachMetaToSegments segments .default : List (UnifiedResponse ρ) × _) =
      (segments.map InlineThinkSegment.response, p) := by
  obtain ⟨enabled, activation, mode, pendingTail, initialProbe, deferredMeta⟩ := p
  simp only at h
  subst h
  cases segments with
  | nil => rfl
  | cons s segments =>
    rw [attachMetaToSegments, DeferredResponseMeta.merge_default,
      modifyLast_id _ DeferredResponseMeta.applyTo_default]
    rfl

/-- What the parser makes of the text of a response. -/
def consume (p : InlineThinkParser) (text : List Char) :
    List InlineThinkSegment × InlineThinkParser :=
  match p.activation with
  | .unknown => p.consumeUnknownText text
  | .enabled => p.parseEnabledText text
  | .disabled => ([.text text], p)

theorem consume_frame (p : InlineThinkParser) (text : List Char) :
    (p.consume text).2.enabled = p.enabled ∧
      (p.consume text).2.deferredMeta = p.deferredMeta := by
  rw [consume]
  split
  · rw [consumeUnknownText]
    split
    · exact ⟨rfl, rfl⟩
    · split
      · exact ⟨rfl, rfl⟩
      · split
        · exact ⟨rfl, rfl⟩
        · exact ⟨rfl, rfl⟩
  · exact ⟨rfl, rfl⟩
  · exact ⟨rfl, rfl⟩

/-- A response that carries only text becomes the segments of the text. -/
theorem normalizeResponse_textResponse (henabled : p.enabled = true)
    (hdeferred : p.deferredMeta = .default) (text : List Char) :
    (p.normalizeResponse (textResponse text) : List (UnifiedResponse ρ) × _) =
      ((p.consume text).1.map InlineThinkSegment.response, (p.consume text).2) := by
  have hframe := (p.consume_frame text).2.trans hdeferred
  have hattach := attachMetaToSegments_default (ρ := ρ) hframe (p.consume text).1
  have hcontent : (p.normalizeContent (textResponse text) : List (UnifiedResponse ρ) × _) =
      (p.consume text).2.attachMetaToSegments (p.consume text).1 .default := by
    rw [normalizeContent, henabled]
    rfl
  have hresponse : (p.normalizeResponse (textResponse text) : List (UnifiedResponse ρ) × _) =
      p.normalizeContent (textResponse text) := rfl
  rw [hresponse, hcontent, hattach]

/-- Several responses that carry only text. -/
def pushAll (p : InlineThinkParser) : List (List Char) →
    List (UnifiedResponse ρ) × InlineThinkParser
  | [] => ([], p)
  | chunk :: chunks =>
    let pushed := p.normalizeResponse (textResponse chunk)
    let rest := pushed.2.pushAll chunks
    (pushed.1 ++ rest.1, rest.2)

/-! ## What the parser has read -/

/-- What a parser holds that has read some text and emitted some segments. -/
def Holds (text : List Char) (out : List InlineThinkSegment) (p : InlineThinkParser) : Prop :=
  match p.activation with
  | .unknown => out = [] ∧ p.initialProbe = text ∧ p.pendingTail = [] ∧ p.mode = .text ∧
      Text.trimStart text <+: openTag ∧ Text.trimStart text ≠ openTag
  | .enabled => openTag <+: Text.trimStart text ∧
      p.pendingTail.length < p.mode.marker.length ∧ (∀ s ∈ out, s.content ≠ []) ∧
      ∀ future, tagged (alternate .text (text ++ future)) =
        tagged out ++ tagged (alternate p.mode (p.pendingTail ++ future))
  | .disabled => (∀ future, ¬openTag <+: Text.trimStart (text ++ future)) ∧ text ≠ [] ∧
      ∃ contents : List (List Char), out = contents.map .text ∧ contents.flatten = text

/-- A parser that has read some text and emitted some segments. -/
structure Reads (text : List Char) (out : List InlineThinkSegment) (p : InlineThinkParser) :
    Prop where
  enabled : p.enabled = true
  deferred : p.deferredMeta = .default
  holds : p.Holds text out

theorem reads_new : (new true).Reads [] [] :=
  ⟨rfl, rfl, rfl, rfl, rfl, rfl, nil_prefix, by decide⟩

variable {text chunk : List Char} {out : List InlineThinkSegment}

/-- White space in front ends where it ended, if anything comes behind it. -/
theorem trimStart_append (h : Text.trimStart text ≠ []) (more : List Char) :
    Text.trimStart (text ++ more) = Text.trimStart text ++ more := by
  rw [Text.trimStart, dropWhile_append, if_neg (by simpa [Text.trimStart] using h)]
  rfl

theorem trimStart_ne_nil (h : openTag <+: Text.trimStart text) : Text.trimStart text ≠ [] := by
  intro hnil
  rw [hnil] at h
  exact absurd (prefix_nil.1 h) (by decide)

theorem holds_parseEnabledText (hopen : openTag <+: Text.trimStart text)
    (hcontent : ∀ s ∈ out, s.content ≠ [])
    (hdivide : ∀ future, tagged (alternate .text (text ++ future)) =
      tagged out ++ tagged (alternate p.mode (p.pendingTail ++ chunk ++ future)))
    (hactive : p.activation = .enabled) :
    (p.parseEnabledText chunk).2.Holds text (out ++ (p.parseEnabledText chunk).1) := by
  rw [Holds]
  simp only [parseEnabledText, hactive]
  refine ⟨hopen, length_parseFrom p.mode [] (p.pendingTail ++ chunk), ?_, fun future => ?_⟩
  · intro s hs
    rcases mem_append.1 hs with hs | hs
    · exact hcontent s hs
    · exact content_ne_nil_parseFrom p.mode [] _ (by simp) s hs
  · have hparse := tagged_parseFrom p.mode [] (p.pendingTail ++ chunk) future
    rw [tagged_nil, nil_append] at hparse
    rw [hdivide future, hparse, tagged_append, append_assoc]

/-- Reading on before it is known whether the text starts with a tag. -/
theorem holds_consumeUnknownText (h : p.Holds text out) (hactive : p.activation = .unknown)
    (chunk : List Char) :
    (p.consumeUnknownText chunk).2.Holds (text ++ chunk)
      (out ++ (p.consumeUnknownText chunk).1) := by
  rw [Holds, hactive] at h
  obtain ⟨rfl, hprobe, htail, hmode, -, -⟩ := h
  rw [consumeUnknownText, hprobe, nil_append]
  by_cases hempty : Text.trimStart (text ++ chunk) = []
  · simp only [hempty, List.isEmpty_nil, if_true, Holds, hactive]
    exact ⟨trivial, trivial, htail, hmode, List.nil_prefix, by decide⟩
  · simp only [List.isEmpty_iff, hempty, if_false]
    by_cases hopen : openTag <+: Text.trimStart (text ++ chunk)
    · rw [if_pos (List.isPrefixOf_iff_prefix.2 hopen)]
      have hstart := @holds_parseEnabledText
        { p with activation := .enabled, initialProbe := [] } (text ++ chunk) (text ++ chunk) []
        hopen (by simp) (fun future => by simp [hmode, htail]) rfl
      simpa using hstart
    · rw [if_neg (mt isPrefixOf_iff_prefix.1 hopen)]
      by_cases hcould : Text.trimStart (text ++ chunk) <+: openTag
      · rw [if_pos (List.isPrefixOf_iff_prefix.2 hcould), Holds]
        simp only [hactive]
        refine ⟨trivial, trivial, htail, hmode, hcould, fun heq => hopen ?_⟩
        exact heq.symm ▸ prefix_rfl
      · rw [if_neg (mt isPrefixOf_iff_prefix.1 hcould), Holds]
        simp only
        refine ⟨fun future hfuture => ?_, ?_, [text ++ chunk], rfl, by simp⟩
        · rw [trimStart_append hempty] at hfuture
          rcases prefix_or_prefix_of_prefix hfuture (prefix_append _ future) with h | h
          · exact hopen h
          · exact hcould h
        · intro hnil
          rw [hnil] at hempty
          exact hempty rfl

/-- **One chunk.** -/
theorem holds_consume (h : p.Holds text out) (chunk : List Char) :
    (p.consume chunk).2.Holds (text ++ chunk) (out ++ (p.consume chunk).1) := by
  rw [consume]
  split
  · next hactive => exact holds_consumeUnknownText h hactive chunk
  · next hactive =>
    rw [Holds, hactive] at h
    obtain ⟨hopen, -, hcontent, hdivide⟩ := h
    refine holds_parseEnabledText ?_ hcontent (fun future => ?_) hactive
    · rw [trimStart_append (trimStart_ne_nil hopen)]
      exact hopen.trans (prefix_append _ _)
    · rw [append_assoc, hdivide, append_assoc]
  · next hactive =>
    rw [Holds, hactive] at h ⊢
    obtain ⟨hnone, hne, contents, rfl, rfl⟩ := h
    refine ⟨fun future => ?_, ?_, contents ++ [chunk], by simp, by simp⟩
    · rw [append_assoc]
      exact hnone (chunk ++ future)
    · exact append_ne_nil_of_left_ne_nil hne chunk

/-- **Several chunks**, by induction over them. -/
theorem reads_pushAll (chunks : List (List Char)) :
    ∀ (p : InlineThinkParser) (text : List Char) (out : List InlineThinkSegment),
      p.Reads text out →
        (p.pushAll chunks : List (UnifiedResponse ρ) × _).2.Reads (text ++ chunks.flatten)
          (out ++ segmentsIn (p.pushAll chunks : List (UnifiedResponse ρ) × _).1) := by
  induction chunks with
  | nil =>
    intro p text out h
    simpa [pushAll, segmentsIn] using h
  | cons chunk chunks ih =>
    intro p text out h
    have hpush := normalizeResponse_textResponse (ρ := ρ) h.enabled h.deferred chunk
    have hframe := p.consume_frame chunk
    have hrest := ih (p.consume chunk).2 (text ++ chunk) (out ++ (p.consume chunk).1)
      ⟨hframe.1.trans h.enabled, hframe.2.trans h.deferred, holds_consume h.holds chunk⟩
    simpa [pushAll, hpush] using hrest

/-! ## At the end of the stream -/

/-- What `flush` adds. -/
def lastSegments (p : InlineThinkParser) : List InlineThinkSegment :=
  match p.activation with
  | .unknown => pushSegment .text [] p.initialProbe
  | .enabled => pushSegment p.mode [] p.pendingTail
  | .disabled => []

theorem segmentsIn_attachMetaToSegments (h : p.deferredMeta = .default)
    (segments : List InlineThinkSegment) :
    segmentsIn (p.attachMetaToSegments segments .default : List (UnifiedResponse ρ) × _).1 =
      segments := by
  rw [attachMetaToSegments_default h, segmentsIn_response]

theorem segmentsIn_flush (henabled : p.enabled = true) (hdeferred : p.deferredMeta = .default) :
    segmentsIn (p.flush : List (UnifiedResponse ρ) × _).1 = p.lastSegments := by
  obtain ⟨enabled, activation, mode, pendingTail, initialProbe, deferredMeta⟩ := p
  simp only at henabled hdeferred
  subst henabled hdeferred
  have hattach := fun q : InlineThinkParser => @segmentsIn_attachMetaToSegments ρ q
  cases activation with
  | unknown => exact hattach ⟨true, .unknown, mode, pendingTail, [], .default⟩ rfl _
  | enabled => exact hattach ⟨true, .enabled, mode, [], initialProbe, .default⟩ rfl _
  | disabled => rfl

/-- **The end**: all segments, joined, are those of the text. -/
theorem joined_lastSegments (h : p.Holds text out) :
    joined (out ++ p.lastSegments) = grouped (tagged (segmentsOf text)) := by
  rw [Holds] at h
  rw [lastSegments]
  cases hactive : p.activation with
  | unknown =>
    simp only [hactive] at h ⊢
    obtain ⟨rfl, rfl, -, -, hcould, hne⟩ := h
    have hclosed : ¬openTag <+: Text.trimStart p.initialProbe := fun hopen =>
      hne (hcould.eq_of_length_le hopen.length_le)
    rw [nil_append, segmentsOf, if_neg hclosed,
      joined_eq_grouped (content_ne_nil_pushSegment (by simp) .text p.initialProbe)]
    simp [InlineThinkSegment.mode, InlineThinkSegment.content]
  | enabled =>
    simp only [hactive] at h ⊢
    obtain ⟨hopen, hlen, hcontent, hdivide⟩ := h
    have hall := hdivide []
    rw [append_nil, append_nil, alternate_of_lt hlen] at hall
    rw [segmentsOf, if_pos hopen, hall, joined_eq_grouped]
    · simp
    · intro s hs
      rcases mem_append.1 hs with hs | hs
      · exact hcontent s hs
      · exact content_ne_nil_pushSegment (by simp) p.mode p.pendingTail s hs
  | disabled =>
    simp only [hactive] at h ⊢
    obtain ⟨hnone, hne, contents, rfl, rfl⟩ := h
    have hcontents : contents ≠ [] := fun hnil => hne (by rw [hnil]; rfl)
    have hjoin := joined_same .text hcontents
    have hclosed := hnone []
    rw [append_nil] at hclosed
    have hone : joined [InlineThinkMode.text.segment contents.flatten] = _ :=
      joined_eq_grouped (by simpa using hne)
    rw [append_nil, segmentsOf, if_neg hclosed]
    exact hjoin.trans hone

end InlineThinkParser

open InlineThinkParser

/-- The segments that are emitted for the chunks of a text and at its end. -/
def emitted (ρ : Type u) (chunks : List (List Char)) : List InlineThinkSegment :=
  let pushed : List (UnifiedResponse ρ) × InlineThinkParser := (new true).pushAll chunks
  segmentsIn (pushed.1 ++ pushed.2.flush.1)

theorem joined_emitted (ρ : Type u) (chunks : List (List Char)) :
    joined (emitted ρ chunks) = grouped (tagged (segmentsOf chunks.flatten)) := by
  have hreads := reads_pushAll (ρ := ρ) chunks (new true) [] [] reads_new
  rw [nil_append, nil_append] at hreads
  rw [emitted, segmentsIn_append, segmentsIn_flush hreads.enabled hreads.deferred]
  exact joined_lastSegments hreads.holds

theorem tagged_filter (segments : List InlineThinkSegment) :
    tagged (segments.filter fun s => !s.content.isEmpty) = tagged segments := by
  induction segments with
  | nil => rfl
  | cons s segments ih =>
    by_cases h : s.content = []
    · rw [filter_cons_of_neg (by simp [h]), ih, tagged_cons, h]
      rfl
    · rw [filter_cons_of_pos (by simp [h]), tagged_cons, tagged_cons, ih]

/-- **Inline thinking does not depend on the chunks**: the segments of a text in chunks are, after
joining, those of the whole text at once, and those are the segments of the text that have
characters; put together with their tags, the segments of a text with an opening tag in front are
the text. -/
theorem thinking_ignores_chunks (ρ : Type u) (chunks : List (List Char)) :
    joined (emitted ρ chunks) = joined (emitted ρ [chunks.flatten]) ∧
      joined (emitted ρ chunks) =
        joined ((segmentsOf chunks.flatten).filter fun s => !s.content.isEmpty) ∧
      (openTag <+: Text.trimStart chunks.flatten →
        withTags .text (segmentsOf chunks.flatten) = chunks.flatten) := by
  refine ⟨?_, ?_, fun hopen => ?_⟩
  · rw [joined_emitted, joined_emitted, flatten_singleton]
  · have hfilter : ∀ s ∈ (segmentsOf chunks.flatten).filter fun s => !s.content.isEmpty,
        s.content ≠ [] := by simp
    rw [joined_emitted, joined_eq_grouped hfilter, tagged_filter]
  · rw [segmentsOf, if_pos hopen]
    exact withTags_alternate .text chunks.flatten

end InlineThink

end OpenBitFun
