import OpenBitFun.InlineThinkChunks

/-!
# What passes through inline thinking

A stream has more than text: usage, the reason why it ended, tool calls, reasoning of the provider
itself. What comes with a text that is held back waits for the next segment, and a response with
reasoning or a tool call of its own passes by what is held back. Nothing is lost, and the text keeps
its order, in a run where no text passes by another one and where something is left to carry what
waits at the end.
-/

namespace OpenBitFun

open List

namespace InlineThink

universe u

variable {ρ : Type u}

/-! ## Fields of the provider -/

/-- A field that a response carries, and that may wait. -/
structure MetaField (ρ : Type u) (α : Type) where
  ofResponse : UnifiedResponse ρ → Option α
  ofMeta : DeferredResponseMeta → Option α
  fromResponse : ∀ r, ofMeta (DeferredResponseMeta.fromResponse r).1 = ofResponse r
  merge : ∀ held other, ofMeta (held.merge other) = (ofMeta other).or (ofMeta held)
  applyTo : ∀ (held : DeferredResponseMeta) r,
    ofResponse (held.applyTo r) = (ofResponse r).or (ofMeta held)
  segment : ∀ s : InlineThinkSegment, ofResponse s.response = none
  isEmpty : ∀ held : DeferredResponseMeta, held.isEmpty → ofMeta held = none
  default : ofMeta .default = none
  model : ∀ (r : UnifiedResponse ρ) m, ofResponse { r with responseModel := m } = ofResponse r

namespace MetaField

/-- `finish_reason`. -/
def finishReason : MetaField ρ String where
  ofResponse := (·.finishReason)
  ofMeta := (·.finishReason)
  fromResponse := fun _ => rfl
  merge := fun _ _ => rfl
  applyTo := fun _ _ => rfl
  segment := fun s => by cases s <;> rfl
  isEmpty := fun held h => by
    simp only [DeferredResponseMeta.isEmpty, Bool.and_eq_true, Option.isNone_iff_eq_none] at h
    exact h.1.2
  default := rfl
  model := fun _ _ => rfl

/-- `tool_call_completion`. -/
def toolCallCompletion : MetaField ρ ToolCallCompletion where
  ofResponse := (·.toolCallCompletion)
  ofMeta := (·.toolCallCompletion)
  fromResponse := fun _ => rfl
  merge := fun _ _ => rfl
  applyTo := fun _ _ => rfl
  segment := fun s => by cases s <;> rfl
  isEmpty := fun held h => by
    simp only [DeferredResponseMeta.isEmpty, Bool.and_eq_true, Option.isNone_iff_eq_none] at h
    exact h.1.1.2
  default := rfl
  model := fun _ _ => rfl

/-- `usage`. -/
def usage : MetaField ρ UnifiedTokenUsage where
  ofResponse := (·.usage)
  ofMeta := (·.usage)
  fromResponse := fun _ => rfl
  merge := fun _ _ => rfl
  applyTo := fun _ _ => rfl
  segment := fun s => by cases s <;> rfl
  isEmpty := fun held h => by
    simp only [DeferredResponseMeta.isEmpty, Bool.and_eq_true, Option.isNone_iff_eq_none] at h
    exact h.1.1.1
  default := rfl
  model := fun _ _ => rfl

/-- `provider_metadata`. -/
def providerMetadata : MetaField ρ Json.Value where
  ofResponse := (·.providerMetadata)
  ofMeta := (·.providerMetadata)
  fromResponse := fun _ => rfl
  merge := fun _ _ => rfl
  applyTo := fun _ _ => rfl
  segment := fun s => by cases s <;> rfl
  isEmpty := fun held h => by
    simp only [DeferredResponseMeta.isEmpty, Bool.and_eq_true, Option.isNone_iff_eq_none] at h
    exact h.2
  default := rfl
  model := fun _ _ => rfl

end MetaField

/-! ## Runs -/

/-- A response that the parser lets pass: one without text, or one whose provider has reasoning or
tool calls of its own. -/
def passes (r : UnifiedResponse ρ) : Bool :=
  r.text.isNone || r.reasoningContent.isSome || r.toolCall.isSome || r.thinkingSignature.isSome

/-- The text of a response. -/
def textOf (r : UnifiedResponse ρ) : List Char := r.text.getD []

/-- The last value of a field in responses. -/
def lastOf {α : Type} (field : UnifiedResponse ρ → Option α)
    (responses : List (UnifiedResponse ρ)) : Option α :=
  (responses.filterMap field).getLast?

/-- The characters that responses made of a text carry, as text or as thinking. -/
def charsIn (responses : List (UnifiedResponse ρ)) : List Char :=
  (segmentsIn responses).flatMap InlineThinkSegment.content

/-- The text in what is made of a response. -/
def saidFor (r : UnifiedResponse ρ) (out : List (UnifiedResponse ρ)) : List Char :=
  if passes r then textOf r else charsIn out

/-- The text in what is made of responses. -/
def said (responses : List (UnifiedResponse ρ)) (outs : List (List (UnifiedResponse ρ))) :
    List Char :=
  (List.zipWith saidFor responses outs).flatten

/-- What is made of a response keeps its tool call and its native reasoning. -/
def KeepsNative (r : UnifiedResponse ρ) (out : List (UnifiedResponse ρ)) : Prop :=
  if passes r then out = [r] else ∀ o ∈ out, o.toolCall = none ∧ o.thinkingSignature = none

namespace InlineThinkParser

/-- The responses that are made of each response, and the parser behind them. -/
def feed (p : InlineThinkParser) : List (UnifiedResponse ρ) →
    List (List (UnifiedResponse ρ)) × InlineThinkParser
  | [] => ([], p)
  | r :: rest =>
    let made := p.normalizeResponse r
    let more := made.2.feed rest
    (made.1 :: more.1, more.2)

/-- The text that is held back. -/
def held (p : InlineThinkParser) : List Char := p.pendingTail ++ p.initialProbe

/-- No text passes by text that is held back. -/
def Orderly (p : InlineThinkParser) : List (UnifiedResponse ρ) → Prop
  | [] => True
  | r :: rest => (passes r → textOf r ≠ [] → p.held = []) ∧ (p.normalizeResponse r).2.Orderly rest

/-- At the end nothing of the provider's waits without a text to carry it. -/
def Delivers (p : InlineThinkParser) : Prop := p.deferredMeta.isEmpty ∨ p.held ≠ []

end InlineThinkParser

/-- The model that was observed stays with the first response. -/
def withModel (model : Option String) (responses : List (UnifiedResponse ρ)) :
    List (UnifiedResponse ρ) :=
  match model, responses with
  | none, responses => responses
  | some model, first :: rest => { first with responseModel := some model } :: rest
  | some model, [] => [{ UnifiedResponse.default with responseModel := some model }]

/-- A stream is normalised without loss and in order. -/
structure KeepsAll (responses : List (UnifiedResponse ρ))
    (outs : List (List (UnifiedResponse ρ))) (last : List (UnifiedResponse ρ)) : Prop where
  /-- The last value of each field of the provider is there. -/
  fields : ∀ {α : Type} (field : MetaField ρ α) v, lastOf field.ofResponse responses = some v →
    ∃ o ∈ outs.flatten ++ last, field.ofResponse o = some v
  /-- What passes is there once, where it came, and nothing else is a tool call or is signed. -/
  native : List.Forall₂ KeepsNative responses outs
  nativeLast : ∀ o ∈ last, o.toolCall = none ∧ o.thinkingSignature = none
  /-- Every tool call is there once, in order. -/
  toolCalls : (outs.flatten ++ last).filterMap (·.toolCall) = responses.filterMap (·.toolCall)
  /-- The text is there in the order in which it came. -/
  order : (said responses outs ++ charsIn last).Sublist (responses.flatMap textOf)
  /-- Behind a text that passes there is only text that came with it or later. -/
  later : ∀ before r after, responses = before ++ r :: after → passes r → textOf r ≠ [] →
    (said (r :: after) (outs.drop before.length) ++ charsIn last).Sublist
      ((r :: after).flatMap textOf)

/-! ## One response -/

section Step

variable {α : Type} {p : InlineThinkParser} {r : UnifiedResponse ρ}
  {responses : List (UnifiedResponse ρ)} {segments : List InlineThinkSegment}

theorem modifyLast_concat {β : Type u} (f : β → β) (l : List β) (a : β) :
    modifyLast f (l ++ [a]) = l ++ [f a] := by
  induction l with
  | nil => rfl
  | cons b l ih =>
    cases l with
    | nil => rfl
    | cons c l => exact congrArg (b :: ·) ih

theorem segmentsIn_withModel (model : Option String) (responses : List (UnifiedResponse ρ)) :
    segmentsIn (withModel model responses) = segmentsIn responses := by
  cases model with
  | none => rfl
  | some model =>
    cases responses with
    | nil => rfl
    | cons o responses => rfl

theorem normalizeResponse_passes (henabled : p.enabled = true) (h : passes r = true) :
    p.normalizeResponse r = ([r], p) := by
  have hcontent : p.normalizeContent { r with responseModel := none } =
      ([{ r with responseModel := none }], p) := by
    rw [InlineThinkParser.normalizeContent, henabled]
    cases htext : r.text with
    | none => simp
    | some text =>
      rw [passes, htext] at h
      simp only [Option.isNone_some, Bool.false_or] at h
      simp [h]
  rw [InlineThinkParser.normalizeResponse, hcontent]
  obtain ⟨model⟩ := r
  cases model with
  | none => rfl
  | some model => rfl

theorem normalizeResponse_text (henabled : p.enabled = true) (h : passes r = false) :
    p.normalizeResponse r =
      (withModel r.responseModel (((p.consume (textOf r)).2.attachMetaToSegments
          (p.consume (textOf r)).1 (DeferredResponseMeta.fromResponse r).1).1),
        ((p.consume (textOf r)).2.attachMetaToSegments (p.consume (textOf r)).1
          (DeferredResponseMeta.fromResponse r).1 : List (UnifiedResponse ρ) × _).2) := by
  have hcontent : p.normalizeContent { r with responseModel := none } =
      (p.consume (textOf r)).2.attachMetaToSegments (p.consume (textOf r)).1
        (DeferredResponseMeta.fromResponse r).1 := by
    rw [InlineThinkParser.normalizeContent, henabled, textOf]
    cases htext : r.text with
    | none => simp [passes, htext] at h
    | some text =>
      rw [passes, htext] at h
      simp only [Option.isNone_some, Bool.false_or] at h
      simp only [h, Bool.not_true, Bool.false_eq_true, if_false, Option.getD_some]
      rw [InlineThinkParser.consume]
      cases p.activation with
      | unknown => rfl
      | enabled => rfl
      | disabled => rfl
  rw [InlineThinkParser.normalizeResponse, hcontent]
  cases r.responseModel with
  | none => rfl
  | some model =>
    unfold withModel
    cases ((p.consume (textOf r)).2.attachMetaToSegments (p.consume (textOf r)).1
        (DeferredResponseMeta.fromResponse r).1 : List (UnifiedResponse ρ) × _).1 with
    | nil => rfl
    | cons first rest => rfl

theorem attachMeta_concat (p : InlineThinkParser) (init : List InlineThinkSegment)
    (s : InlineThinkSegment) (current : DeferredResponseMeta) :
    (p.attachMetaToSegments (init ++ [s]) current : List (UnifiedResponse ρ) × _) =
      (init.map InlineThinkSegment.response ++
          [(p.deferredMeta.merge current).applyTo s.response],
        { p with deferredMeta := .default }) := by
  have hne : (init ++ [s]).isEmpty = false := by simp
  simp only [InlineThinkParser.attachMetaToSegments, hne, Bool.false_eq_true, if_false,
    map_append, map_cons, map_nil, modifyLast_concat]

theorem segmentsIn_attachMeta (p : InlineThinkParser) (segments : List InlineThinkSegment)
    (current : DeferredResponseMeta) :
    segmentsIn (p.attachMetaToSegments segments current : List (UnifiedResponse ρ) × _).1 =
      segments := by
  rcases eq_nil_or_concat segments with rfl | ⟨init, s, rfl⟩
  · rfl
  · have happly : ∀ (held : DeferredResponseMeta) (r : UnifiedResponse ρ),
        segmentsIn [held.applyTo r] = segmentsIn [r] := fun _ _ => rfl
    have hone := @segmentsIn_response ρ [s]
    rw [concat_eq_append, attachMeta_concat, segmentsIn_append, segmentsIn_response, happly]
    exact congrArg (init ++ ·) hone

/-- A response that carries a segment is no tool call. -/
theorem native_attachMeta (p : InlineThinkParser) (segments : List InlineThinkSegment)
    (current : DeferredResponseMeta) :
    ∀ o ∈ (p.attachMetaToSegments segments current : List (UnifiedResponse ρ) × _).1,
      o.toolCall = none ∧ o.thinkingSignature = none := by
  have hsegment : ∀ s : InlineThinkSegment, (s.response : UnifiedResponse ρ).toolCall = none ∧
      (s.response : UnifiedResponse ρ).thinkingSignature = none := by
    intro s
    cases s with
    | text content => exact ⟨rfl, rfl⟩
    | thinking content => exact ⟨rfl, rfl⟩
  intro o ho
  rcases eq_nil_or_concat segments with rfl | ⟨init, s, rfl⟩
  · cases ho
  · rw [concat_eq_append, attachMeta_concat, mem_append, mem_map,
      mem_singleton] at ho
    rcases ho with ⟨t, -, rfl⟩ | rfl
    · exact hsegment t
    · exact hsegment s

theorem native_withModel (model : Option String)
    (h : ∀ o ∈ responses, o.toolCall = none ∧ o.thinkingSignature = none) :
    ∀ o ∈ withModel model responses, o.toolCall = none ∧ o.thinkingSignature = none := by
  cases model with
  | none => exact h
  | some model =>
    cases responses with
    | nil =>
      intro o ho
      rw [mem_singleton.1 ho]
      exact ⟨rfl, rfl⟩
    | cons first rest =>
      obtain ⟨hfirst, hrest⟩ := forall_mem_cons.1 h
      exact forall_mem_cons.2 ⟨hfirst, hrest⟩

/-- A field that waits or has come is in the last segment, or waits on. -/
theorem field_attachMeta (field : MetaField ρ α) (p : InlineThinkParser)
    (segments : List InlineThinkSegment) (current : DeferredResponseMeta) {v : α}
    (hv : (field.ofMeta current).or (field.ofMeta p.deferredMeta) = some v) :
    (∃ o ∈ (p.attachMetaToSegments segments current : List (UnifiedResponse ρ) × _).1,
        field.ofResponse o = some v) ∨
      segments = [] ∧ field.ofMeta (p.attachMetaToSegments segments current :
        List (UnifiedResponse ρ) × _).2.deferredMeta = some v := by
  rw [← field.merge] at hv
  rcases eq_nil_or_concat segments with rfl | ⟨init, s, rfl⟩
  · refine .inr ⟨rfl, ?_⟩
    have hempty : (p.deferredMeta.merge current).isEmpty = false := by
      rw [← Bool.not_eq_true]
      intro hempty
      rw [field.isEmpty _ hempty] at hv
      cases hv
    simpa [InlineThinkParser.attachMetaToSegments, hempty] using hv
  · left
    rw [concat_eq_append, attachMeta_concat]
    refine ⟨_, mem_append_right _ (mem_singleton_self _), ?_⟩
    rw [field.applyTo, field.segment, Option.none_or, hv]

theorem field_withModel (field : MetaField ρ α) (model : Option String) {v : α}
    (h : ∃ o ∈ responses, field.ofResponse o = some v) :
    ∃ o ∈ withModel model responses, field.ofResponse o = some v := by
  cases model with
  | none => exact h
  | some model =>
    obtain ⟨o, ho, hv⟩ := h
    cases responses with
    | nil => cases ho
    | cons first rest =>
      rcases mem_cons.1 ho with rfl | hrest
      · exact ⟨_, mem_cons_self, (field.model o _).trans hv⟩
      · exact ⟨o, mem_cons_of_mem _ hrest, hv⟩

end Step

/-! ## Text in order -/

section Order

variable {p : InlineThinkParser} {r : UnifiedResponse ρ}

@[simp] theorem content_pushSegment (mode : InlineThinkMode) (segments : List InlineThinkSegment)
    (content : List Char) : (pushSegment mode segments content).flatMap
      InlineThinkSegment.content = segments.flatMap InlineThinkSegment.content ++ content := by
  cases content with
  | nil => simp [pushSegment]
  | cons c content => simp [pushSegment]

/-- Dividing a text takes tags out of it. -/
theorem parseFrom_sublist (mode : InlineThinkMode) (segments : List InlineThinkSegment)
    (data : List Char) :
    ((parseFrom mode segments data).1.flatMap InlineThinkSegment.content ++
      (parseFrom mode segments data).2.2).Sublist
        (segments.flatMap InlineThinkSegment.content ++ data) := by
  fun_induction parseFrom mode segments data with
  | case1 mode segments data idx hfind ih =>
    refine ih.trans ?_
    rw [content_pushSegment, append_assoc, ← drop_drop]
    refine (List.Sublist.refl _).append ?_
    nth_rewrite 3 [← take_append_drop idx data]
    exact (List.Sublist.refl _).append (drop_sublist _ _)
  | case2 mode segments data hfind flushLen =>
    rw [content_pushSegment, append_assoc, take_append_drop]

/-- A parser whose held text is where its activation reads it. -/
structure Tidy (p : InlineThinkParser) : Prop where
  enabled : p.enabled = true
  probe : p.activation ≠ .unknown → p.initialProbe = []
  tail : p.activation ≠ .enabled → p.pendingTail = []

theorem tidy_new : Tidy (new true) := ⟨rfl, fun _ => rfl, fun _ => rfl⟩

/-- Text that is read becomes segments and held text, in order. -/
theorem consume_sublist (hp : Tidy p) (text : List Char) :
    Tidy (p.consume text).2 ∧
      ((p.consume text).1.flatMap InlineThinkSegment.content ++ (p.consume text).2.held).Sublist
        (p.held ++ text) := by
  have hparse : ∀ q : InlineThinkParser, Tidy q → q.activation = .enabled → ∀ text,
      Tidy (q.parseEnabledText text).2 ∧
        ((q.parseEnabledText text).1.flatMap InlineThinkSegment.content ++
          (q.parseEnabledText text).2.held).Sublist (q.pendingTail ++ text) := by
    intro q hq hactive text
    have hprobe := hq.probe (by rw [hactive]; decide)
    refine ⟨⟨hq.enabled, hq.probe, fun h => absurd hactive h⟩, ?_⟩
    rw [InlineThinkParser.held, InlineThinkParser.parseEnabledText]
    simp only [hprobe, append_nil]
    exact (parseFrom_sublist q.mode [] (q.pendingTail ++ text))
  rw [InlineThinkParser.consume]
  cases hactive : p.activation with
  | unknown =>
    have htail := hp.tail (by rw [hactive]; decide)
    have hheld : p.held = p.initialProbe := by
      rw [InlineThinkParser.held, htail, nil_append]
    simp only
    rw [InlineThinkParser.consumeUnknownText, hheld]
    have hkeep : Tidy { p with initialProbe := p.initialProbe ++ text } :=
      ⟨hp.enabled, fun h => absurd hactive h, hp.tail⟩
    split
    · refine ⟨hkeep, ?_⟩
      simp [InlineThinkParser.held, htail]
    · split
      · have htidy : Tidy { p with activation := .enabled, initialProbe := [] } :=
          ⟨hp.enabled, fun _ => rfl, fun h => absurd rfl h⟩
        have hsub := hparse _ htidy rfl (p.initialProbe ++ text)
        have hdata : (p.pendingTail ++ (p.initialProbe ++ text)).Sublist
            (p.initialProbe ++ text) := by rw [htail, nil_append]
        exact ⟨hsub.1, hsub.2.trans hdata⟩
      · split
        · refine ⟨hkeep, ?_⟩
          simp [InlineThinkParser.held, htail]
        · refine ⟨⟨hp.enabled, fun _ => rfl, fun _ => htail⟩, ?_⟩
          simp [InlineThinkParser.held, htail, InlineThinkSegment.content]
  | enabled =>
    have hheld : p.held = p.pendingTail := by
      rw [InlineThinkParser.held, hp.probe (by rw [hactive]; decide), append_nil]
    rw [hheld]
    exact hparse p hp hactive text
  | disabled =>
    refine ⟨hp, ?_⟩
    simp [InlineThinkParser.held, hp.probe (by rw [hactive]; decide),
      hp.tail (by rw [hactive]; decide), InlineThinkSegment.content]

theorem tidy_attachMeta (hp : Tidy p) (segments : List InlineThinkSegment)
    (current : DeferredResponseMeta) :
    Tidy (p.attachMetaToSegments segments current : List (UnifiedResponse ρ) × _).2 ∧
      (p.attachMetaToSegments segments current : List (UnifiedResponse ρ) × _).2.held =
        p.held := by
  rw [InlineThinkParser.attachMetaToSegments]
  split
  · exact ⟨⟨hp.enabled, hp.probe, hp.tail⟩, rfl⟩
  · exact ⟨⟨hp.enabled, hp.probe, hp.tail⟩, rfl⟩

/-- **One response**: what it says and what is held back then, and that nothing native is lost. -/
theorem normalizeResponse_spec (hp : Tidy p) (r : UnifiedResponse ρ)
    (hpass : passes r → textOf r ≠ [] → p.held = []) :
    Tidy (p.normalizeResponse r).2 ∧ KeepsNative r (p.normalizeResponse r).1 ∧
      (saidFor r (p.normalizeResponse r).1 ++ (p.normalizeResponse r).2.held).Sublist
        (p.held ++ textOf r) := by
  rw [KeepsNative, saidFor]
  by_cases h : passes r
  · rw [normalizeResponse_passes hp.enabled h, if_pos h, if_pos h]
    refine ⟨hp, rfl, ?_⟩
    by_cases hempty : textOf r = []
    · rw [hempty, nil_append, append_nil]
    · rw [hpass h hempty, nil_append, append_nil]
  · rw [if_neg h, if_neg h, normalizeResponse_text hp.enabled (Bool.not_eq_true _ ▸ h)]
    obtain ⟨htidy, hsub⟩ := consume_sublist hp (textOf r)
    obtain ⟨htidy', hheld⟩ := @tidy_attachMeta ρ _ htidy (p.consume (textOf r)).1
      (DeferredResponseMeta.fromResponse r).1
    refine ⟨htidy', native_withModel _ (native_attachMeta _ _ _), ?_⟩
    rw [charsIn, segmentsIn_withModel, segmentsIn_attachMeta, hheld]
    exact hsub

end Order

/-! ## Runs -/

section Runs

variable {α : Type} {p : InlineThinkParser} {responses : List (UnifiedResponse ρ)}

theorem feed_append (p : InlineThinkParser) (before after : List (UnifiedResponse ρ)) :
    p.feed (before ++ after) = ((p.feed before).1 ++ ((p.feed before).2.feed after).1,
      ((p.feed before).2.feed after).2) := by
  induction before generalizing p with
  | nil => rfl
  | cons r before ih => simp only [cons_append, InlineThinkParser.feed, ih]

theorem length_feed (p : InlineThinkParser) (responses : List (UnifiedResponse ρ)) :
    (p.feed responses).1.length = responses.length := by
  induction responses generalizing p with
  | nil => rfl
  | cons r responses ih => rw [InlineThinkParser.feed, length_cons, ih, length_cons]

theorem orderly_append {p : InlineThinkParser} {before after : List (UnifiedResponse ρ)}
    (h : p.Orderly (before ++ after)) : p.Orderly before ∧ (p.feed before).2.Orderly after := by
  induction before generalizing p with
  | nil => exact ⟨trivial, h⟩
  | cons r before ih =>
    obtain ⟨hbefore, hafter⟩ := ih h.2
    exact ⟨⟨h.1, hbefore⟩, hafter⟩

/-- **A run**: what it says and what is held back at its end is of its text, in order. -/
theorem feed_spec (hp : Tidy p) (h : p.Orderly responses) :
    Tidy (p.feed responses).2 ∧ List.Forall₂ KeepsNative responses (p.feed responses).1 ∧
      (said responses (p.feed responses).1 ++ (p.feed responses).2.held).Sublist
        (p.held ++ responses.flatMap textOf) := by
  induction responses generalizing p with
  | nil => exact ⟨hp, .nil, by simp [said, InlineThinkParser.feed]⟩
  | cons r responses ih =>
    obtain ⟨hpass, hrest⟩ := h
    obtain ⟨htidy, hnative, hstep⟩ := normalizeResponse_spec hp r hpass
    obtain ⟨htidy', hall, hsub⟩ := ih htidy hrest
    refine ⟨htidy', .cons hnative hall, ?_⟩
    rw [InlineThinkParser.feed, said, zipWith_cons_cons, flatten_cons,
      flatMap_cons, append_assoc, ← append_assoc p.held]
    exact ((List.Sublist.refl _).append hsub).trans (by
      rw [← append_assoc]
      exact hstep.append (List.Sublist.refl _))

/-- **A run and a field**: its last value has come out, or waits. -/
theorem feed_field (field : MetaField ρ α) (hp : Tidy p) (h : p.Orderly responses) {v : α}
    (hv : (lastOf field.ofResponse responses).or (field.ofMeta p.deferredMeta) = some v) :
    (∃ o ∈ (p.feed responses).1.flatten, field.ofResponse o = some v) ∨
      field.ofMeta (p.feed responses).2.deferredMeta = some v := by
  induction responses generalizing p v with
  | nil =>
    have hwaits : field.ofMeta p.deferredMeta = some v := by simpa [lastOf] using hv
    exact .inr hwaits
  | cons r responses ih =>
    obtain ⟨hpass, hrest⟩ := h
    obtain ⟨htidy, -, -⟩ := normalizeResponse_spec hp r hpass
    rw [InlineThinkParser.feed, flatten_cons]
    have hmore : ∀ {w}, (lastOf field.ofResponse responses).or
        (field.ofMeta (p.normalizeResponse r).2.deferredMeta) = some w →
          (∃ o ∈ (p.normalizeResponse r).1 ++ ((p.normalizeResponse r).2.feed responses).1.flatten,
              field.ofResponse o = some w) ∨
            field.ofMeta ((p.normalizeResponse r).2.feed responses).2.deferredMeta = some w := by
      intro w hw
      rcases ih htidy hrest hw with ⟨o, ho, hfield⟩ | hwaits
      · exact .inl ⟨o, mem_append_right _ ho, hfield⟩
      · exact .inr hwaits
    cases hlast : lastOf field.ofResponse responses with
    | some w =>
      have hw : w = v := by
        rw [lastOf, filterMap_cons] at hv
        rw [lastOf] at hlast
        cases hone : field.ofResponse r with
        | none => simpa [hone, hlast] using hv
        | some u => simpa [hone, getLast?_cons, hlast] using hv
      refine hmore ?_
      rw [hlast, ← hw, Option.some_or]
    | none =>
      -- nothing comes later, so that it came with this response or waited before
      have hone : (field.ofResponse r).or (field.ofMeta p.deferredMeta) = some v := by
        rw [lastOf, filterMap_cons] at hv
        rw [lastOf] at hlast
        cases hone : field.ofResponse r with
        | none => simpa [hone, hlast] using hv
        | some u => simpa [hone, getLast?_cons, hlast] using hv
      by_cases hpasses : passes r
      · rw [normalizeResponse_passes hp.enabled hpasses] at hmore ⊢
        cases hr : field.ofResponse r with
        | none =>
          rw [hr, Option.none_or] at hone
          refine hmore ?_
          rw [hlast, Option.none_or, hone]
        | some u =>
          rw [hr, Option.some_or] at hone
          exact .inl ⟨r, mem_append_left _ (mem_singleton_self r), hr.trans hone⟩
      · rw [normalizeResponse_text hp.enabled (Bool.not_eq_true _ ▸ hpasses)] at hmore ⊢
        have hframe := (p.consume_frame (textOf r)).2
        rw [← field.fromResponse, ← hframe] at hone
        rcases field_attachMeta field _ (p.consume (textOf r)).1 _ hone with hcame | ⟨-, hwaits⟩
        · obtain ⟨o, ho, hfield⟩ := field_withModel field r.responseModel hcame
          exact .inl ⟨o, mem_append_left _ ho, hfield⟩
        · refine hmore ?_
          rw [hlast, Option.none_or, hwaits]

/-- The segments at the end are what was held back. -/
theorem flush_eq (hp : Tidy p) : ∃ q : InlineThinkParser, q.deferredMeta = p.deferredMeta ∧
    (p.flush : List (UnifiedResponse ρ) × _) =
      q.attachMetaToSegments p.lastSegments .default := by
  rw [InlineThinkParser.flush, hp.enabled]
  simp only [Bool.not_true, Bool.false_eq_true, if_false]
  rw [InlineThinkParser.lastSegments]
  cases p.activation with
  | unknown => exact ⟨_, by rfl, rfl⟩
  | enabled => exact ⟨_, by rfl, rfl⟩
  | disabled => exact ⟨_, by rfl, rfl⟩

theorem content_lastSegments (hp : Tidy p) :
    p.lastSegments.flatMap InlineThinkSegment.content = p.held := by
  rw [InlineThinkParser.lastSegments, InlineThinkParser.held]
  cases hactive : p.activation with
  | unknown => simp [hp.tail (by rw [hactive]; decide)]
  | enabled => simp [hp.probe (by rw [hactive]; decide)]
  | disabled =>
    simp [hp.tail (by rw [hactive]; decide), hp.probe (by rw [hactive]; decide)]

theorem filterMap_toolCall {outs : List (List (UnifiedResponse ρ))}
    (h : List.Forall₂ KeepsNative responses outs) :
    outs.flatten.filterMap (·.toolCall) = responses.filterMap (·.toolCall) := by
  induction h with
  | nil => rfl
  | @cons r out responses outs hone hrest ih =>
    rw [flatten_cons, filterMap_append, ih]
    rw [KeepsNative] at hone
    split at hone
    · rw [hone, ← filterMap_append]
      rfl
    · next hpasses =>
      have hnone : out.filterMap (·.toolCall) = [] :=
        filterMap_eq_nil_iff.2 fun o ho => (hone o ho).1
      have htool : r.toolCall = none := by
        simp only [passes, Bool.or_eq_true, not_or, Option.not_isSome_iff_eq_none] at hpasses
        exact hpasses.1.2
      rw [hnone, nil_append, filterMap_cons, htool]

/-- **A stream keeps all of the provider's fields, its tool calls and its reasoning, and its text
is in order, where no text passes by text that is held back and nothing is left to wait.** -/
theorem keepsAll_of_orderly (responses : List (UnifiedResponse ρ))
    (h : (new true).Orderly responses) (hend : ((new true).feed responses).2.Delivers) :
    KeepsAll responses ((new true).feed responses).1
      ((new true).feed responses).2.flush.1 := by
  obtain ⟨htidy, hnative, hsub⟩ := feed_spec tidy_new h
  obtain ⟨q, hmeta, hflush⟩ := @flush_eq ρ _ htidy
  have hchars : charsIn (((new true).feed responses).2.flush.1 : List (UnifiedResponse ρ)) =
      ((new true).feed responses).2.held := by
    rw [hflush, charsIn, segmentsIn_attachMeta, content_lastSegments htidy]
  have hlast : ∀ o ∈ (((new true).feed responses).2.flush.1 : List (UnifiedResponse ρ)),
      o.toolCall = none ∧ o.thinkingSignature = none := by
    rw [hflush]
    exact native_attachMeta _ _ _
  refine ⟨?_, hnative, hlast, ?_, ?_, ?_⟩
  · intro α field v hv
    have hor : (lastOf field.ofResponse responses).or
        (field.ofMeta (new true).deferredMeta) = some v := by rw [hv, Option.some_or]
    rcases feed_field field tidy_new h hor with ⟨o, ho, hfield⟩ | hwaits
    · exact ⟨o, mem_append_left _ ho, hfield⟩
    · -- what waits at the end is carried by what is held back
      have hheld : ((new true).feed responses).2.held ≠ [] := by
        refine hend.resolve_left fun hempty => ?_
        rw [field.isEmpty _ hempty] at hwaits
        cases hwaits
      have hcarry : (field.ofMeta .default).or (field.ofMeta q.deferredMeta) = some v := by
        rw [field.default, Option.none_or, hmeta, hwaits]
      rcases field_attachMeta field q ((new true).feed responses).2.lastSegments _ hcarry with
        ⟨o, ho, hfield⟩ | ⟨hnil, -⟩
      · rw [← hflush] at ho
        exact ⟨o, mem_append_right _ ho, hfield⟩
      · rw [← content_lastSegments htidy, hnil] at hheld
        exact absurd rfl hheld
  · have hnone : (((new true).feed responses).2.flush.1 : List (UnifiedResponse ρ)).filterMap
        (·.toolCall) = [] := filterMap_eq_nil_iff.2 fun o ho => (hlast o ho).1
    rw [filterMap_append, hnone, append_nil, filterMap_toolCall hnative]
  · rw [hchars]
    exact hsub
  · rintro before r after rfl hpasses htext
    obtain ⟨hbefore, hafter⟩ := orderly_append h
    have hheld := hafter.1 hpasses htext
    obtain ⟨-, -, hsub'⟩ := feed_spec (feed_spec tidy_new hbefore).1 hafter
    rw [feed_append] at hchars ⊢
    rw [hchars, ← @length_feed ρ (new true) before, drop_left]
    rw [hheld] at hsub'
    exact hsub'

/-- A text, and a tool call that ends the stream. -/
def textAndCall : List (UnifiedResponse Unit) :=
  [textResponse "hi".toList,
    { UnifiedResponse.default with
      toolCall := some ⟨some 0, some "call", some "Read", none, false⟩
      finishReason := some "tool_calls" }]

/-- `keepsAll_of_orderly` for a text and a tool call. -/
theorem keepsAll_textAndCall : KeepsAll textAndCall ((new true).feed textAndCall).1
    ((new true).feed textAndCall).2.flush.1 :=
  keepsAll_of_orderly textAndCall
    ⟨fun h => absurd h (by decide), fun _ h => absurd rfl h, trivial⟩ (.inl (by decide))

/-- An empty text that ends the stream. -/
def emptyAndStop : List (UnifiedResponse Unit) :=
  [{ textResponse [] with finishReason := some "stop" }]

/-- The reason why the stream ended is lost where its text is empty. -/
theorem finishReason_lost : ¬KeepsAll emptyAndStop ((new true).feed emptyAndStop).1
    ((new true).feed emptyAndStop).2.flush.1 := by
  intro h
  obtain ⟨o, ho, -⟩ := h.fields MetaField.finishReason "stop" rfl
  have hnothing : ((new true).feed emptyAndStop).1.flatten ++
      ((new true).feed emptyAndStop).2.flush.1 = [] := rfl
  rw [hnothing] at ho
  cases ho

end Runs

end InlineThink

end OpenBitFun
