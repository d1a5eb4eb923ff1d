import OpenBitFun.StreamProcessorTools

/-!
# Events and results of a stream

The events of a stream agree with its result: texts and thinking add up to what the result has, and
announced tool calls are in it. The end of a kind of thinking is sent once, so thinking that goes on
after a text or a tool call is left without an end.
-/

namespace OpenBitFun

open List

namespace StreamProcessor

open HiddenText ToolCallAccumulator

variable {σ γ ι π : Type}

/-! ## What events say -/

/-- The text that an event shows. -/
def textIn : AgenticEvent γ → List Char
  | .textChunk _ _ _ _ _ text => text.toList
  | _ => []

/-- The content of an event about a kind of thinking, and whether it is an end. -/
def thinkingIn (kind : Option ReasoningContentKind) : AgenticEvent γ → List (List Char × Bool)
  | .thinkingChunk _ _ _ _ _ content kind' isEnd =>
    if kind' = kind then [(content.toList, isEnd)] else []
  | _ => []

namespace StreamContext

variable (ctx : StreamContext σ γ ι π) {ctx' : StreamContext σ γ ι π}

/-- The text that was shown. -/
def shownText : List Char := ctx.events.flatMap textIn

/-- What was sent about a kind of thinking. -/
def thinking (kind : Option ReasoningContentKind) : List (List Char × Bool) :=
  ctx.events.flatMap (thinkingIn kind)

/-- The thinking of a kind that was collected. -/
def collected : Option ReasoningContentKind → List Char
  | none => ctx.fullThinking
  | some .reasoning => ctx.fullReasoningText
  | some .summary => ctx.fullReasoningSummary

/-- Whether the last event about a kind of thinking is an end. -/
def lastIsEnd (kind : Option ReasoningContentKind) : Option Bool :=
  (ctx.thinking kind).getLast?.map Prod.snd

/-- **Events and result agree.** -/
structure Agrees (ctx : StreamContext σ γ ι π) : Prop where
  texts : ctx.shownText = ctx.intoResult.fullText
  thinking : ∀ kind, (ctx.thinking kind).flatMap Prod.fst = ctx.collected kind
  /-- Each kind that emitted content ends with an end. -/
  ended : ∀ kind, (∃ chunk ∈ ctx.thinking kind, chunk.1 ≠ []) → ctx.lastIsEnd kind = some true
  distinct : (ctx.intoResult.toolCalls.map ToolCall.toolId).Nodup
  detected : ∀ id ∈ ctx.events.flatMap detectedIn,
    id ∈ ctx.intoResult.toolCalls.map ToolCall.toolId

variable {ctx}

/-! ## Nothing about text and thinking -/

/-- Nothing about thinking changed. -/
structure SameThinking (ctx ctx' : StreamContext σ γ ι π) : Prop where
  thinking : ∀ kind, ctx'.thinking kind = ctx.thinking kind
  collected : ∀ kind, ctx'.collected kind = ctx.collected kind
  streams : ctx'.thinkingStreams = ctx.thinkingStreams
  completed : ctx'.completedThinkingStreams = ctx.completedThinkingStreams

/-- Nothing about text and thinking changed. -/
structure SameText (ctx ctx' : StreamContext σ γ ι π) : Prop extends SameThinking ctx ctx' where
  shown : ctx'.shownText = ctx.shownText
  full : ctx'.fullText = ctx.fullText

theorem SameText.refl (ctx : StreamContext σ γ ι π) : ctx.SameText ctx :=
  ⟨⟨fun _ => rfl, fun _ => rfl, rfl, rfl⟩, rfl, rfl⟩

theorem SameText.trans {ctx'' : StreamContext σ γ ι π} (h : ctx.SameText ctx')
    (h' : ctx'.SameText ctx'') : ctx.SameText ctx'' where
  thinking := fun kind => (h'.thinking kind).trans (h.thinking kind)
  collected := fun kind => (h'.collected kind).trans (h.collected kind)
  streams := h'.streams.trans h.streams
  completed := h'.completed.trans h.completed
  shown := h'.shown.trans h.shown
  full := h'.full.trans h.full

/-- A context that has the same events and fields. -/
theorem sameText_of_eq (hevents : ctx'.events = ctx.events) (hfull : ctx'.fullText = ctx.fullText)
    (hcollected : ∀ kind, ctx'.collected kind = ctx.collected kind)
    (hstreams : ctx'.thinkingStreams = ctx.thinkingStreams)
    (hcompleted : ctx'.completedThinkingStreams = ctx.completedThinkingStreams) :
    ctx.SameText ctx' :=
  ⟨⟨fun kind => by rw [thinking, hevents, thinking], hcollected, hstreams, hcompleted⟩,
    by rw [shownText, hevents, shownText], hfull⟩

variable (ui : OpenUi σ (ToolEventIdentity × γ))
  (interpret : ToolCallFinalizeOptions → String → List Char → ι) (newUuid : ℕ → String)

theorem sameText_recordFinalizedToolCall (ctx : StreamContext σ γ ι π)
    (call : FinalizedToolCall ι) : ctx.SameText (ctx.recordFinalizedToolCall newUuid call) := by
  rw [recordFinalizedToolCall]
  generalize (if call.toolId = "" then newUuid ctx.toolCalls.length else call.toolId) = toolId
  split
  · exact SameText.refl ctx
  · exact sameText_of_eq rfl rfl (fun kind => rfl) rfl rfl

theorem sameText_foldl (calls : List (FinalizedToolCall ι)) : ∀ ctx : StreamContext σ γ ι π,
    ctx.SameText (calls.foldl (fun ctx call => ctx.recordFinalizedToolCall newUuid call) ctx) := by
  induction calls with
  | nil => exact SameText.refl
  | cons call calls ih =>
    exact fun ctx => (sameText_recordFinalizedToolCall newUuid ctx call).trans (ih _)

theorem sameText_finalizeAll (ctx : StreamContext σ γ ι π) (completion : ToolCallCompletion) :
    ctx.SameText (ctx.finalizeAllPendingToolCalls interpret newUuid completion) := by
  have hpending : ctx.SameText { ctx with pendingToolCalls := ∅ } :=
    sameText_of_eq rfl rfl (fun _ => rfl) rfl rfl
  exact hpending.trans (sameText_foldl newUuid _ _)

theorem sameText_showTools (events : List (ToolEventData γ)) : ∀ ctx : StreamContext σ γ ι π,
    ctx.SameText (events.foldl showTool ctx) := by
  induction events with
  | nil => exact SameText.refl
  | cons event events ih =>
    intro ctx
    have hone : ctx.SameText (ctx.showTool event) := by
      refine ⟨⟨fun kind => ?_, fun kind => ?_, rfl, rfl⟩, ?_, rfl⟩
      · simp [thinking, showTool, enqueue, toolEvent, thinkingIn]
      · rcases kind with _ | _ | _ <;> rfl
      · simp [shownText, showTool, enqueue, toolEvent, textIn]
    exact hone.trans (ih _)

theorem sameText_handleToolCallChunk (ctx : StreamContext σ γ ι π) (toolCall : UnifiedToolCall) :
    ctx.SameText (ctx.handleToolCallChunk ui interpret newUuid toolCall) := by
  rw [handleToolCallChunk]
  generalize ctx.pendingToolCalls.applyDelta ui (interpret .default) (deltaOf toolCall) = applied
  have hpending : ctx.SameText { ctx with pendingToolCalls := applied.2 } :=
    sameText_of_eq rfl rfl (fun _ => rfl) rfl rfl
  exact hpending.trans ((sameText_foldl newUuid _ _).trans (sameText_showTools _ _))

theorem sameText_noteResponse (ctx : StreamContext σ γ ι π) (response : UnifiedResponse π) :
    ctx.SameText (ctx.noteResponse response) := by
  rw [noteResponse]
  refine sameText_of_eq ?_ ?_ (fun kind => ?_) ?_ ?_
  all_goals
    split <;> split <;> rfl

theorem sameText_noteMetadata (ctx : StreamContext σ γ ι π) (response : UnifiedResponse π) :
    ctx.SameText (ctx.noteMetadata response) := by
  obtain ⟨_, _, _, hnoted⟩ := ctx.noteMetadata_eq response
  rw [hnoted]
  exact sameText_of_eq rfl rfl (fun _ => rfl) rfl rfl

theorem sameText_noteFinishReason (ctx : StreamContext σ γ ι π) (response : UnifiedResponse π) :
    ctx.SameText (ctx.noteFinishReason interpret newUuid response) := by
  rw [noteFinishReason]
  split
  · have hall := sameText_finalizeAll interpret newUuid ctx
      (response.toolCallCompletion.getD .unknown)
    split
    · exact hall.trans (sameText_of_eq rfl rfl (fun _ => rfl) rfl rfl)
    · exact hall
  · exact SameText.refl ctx

theorem sameText_noteTokenLimit (ctx : StreamContext σ γ ι π) :
    ctx.SameText ctx.noteTokenLimit := by
  rw [noteTokenLimit]
  split
  · split
    · exact sameText_of_eq rfl rfl (fun _ => rfl) rfl rfl
    · exact SameText.refl ctx
  · exact SameText.refl ctx

/-! ## Texts and thinking add up -/

/-- What was shown is what was collected. -/
structure AddsUp (ctx : StreamContext σ γ ι π) : Prop where
  texts : ctx.shownText = ctx.fullText
  thinking : ∀ kind, (ctx.thinking kind).flatMap Prod.fst = ctx.collected kind

theorem addsUp_new (options : StreamProcessOptions) :
    (StreamContext.new options : StreamContext σ γ ι π).AddsUp := by
  refine ⟨rfl, fun kind => ?_⟩
  rcases kind with _ | _ | _ <;> rfl

theorem AddsUp.same (h : ctx.AddsUp) (hsame : ctx.SameText ctx') : ctx'.AddsUp :=
  ⟨by rw [hsame.shown, hsame.full, h.texts],
    fun kind => by rw [hsame.thinking, hsame.collected, h.thinking]⟩

/-- How far a kind of thinking came: whether there was any, whether its end was sent, and whether
there was more of it after the end. -/
structure Marked (ctx : StreamContext σ γ ι π) (kind : Option ReasoningContentKind)
    (thinks closed resumed : Prop) : Prop where
  streams : kind ∈ ctx.thinkingStreams ↔ thinks
  completed : kind ∈ ctx.completedThinkingStreams ↔ closed
  closed_of_resumed : resumed → closed
  silent : ¬thinks → ctx.thinking kind = []
  content : thinks → ∃ chunk ∈ ctx.thinking kind, chunk.1 ≠ []
  started : thinks → ¬closed → ctx.lastIsEnd kind = some false
  ended : closed → ¬resumed → ctx.lastIsEnd kind = some true
  resumed : resumed → ctx.lastIsEnd kind = some false

variable {kind : Option ReasoningContentKind} {thinks closed resumed : Prop}

theorem marked_new (options : StreamProcessOptions) (kind : Option ReasoningContentKind) :
    (StreamContext.new options : StreamContext σ γ ι π).Marked kind False False False where
  streams := by simp [StreamContext.new]
  completed := by simp [StreamContext.new]
  closed_of_resumed := False.elim
  silent := fun _ => rfl
  content := False.elim
  started := False.elim
  ended := False.elim
  resumed := False.elim

/-! ## Showing text -/

theorem sameThinking_showText (ctx : StreamContext σ γ ι π) (parsed : HiddenTextChunk) :
    ctx.SameThinking (ctx.showText parsed) := by
  refine ⟨fun kind => ?_, fun kind => ?_, ?_, ?_⟩
  all_goals
    rw [showText]
    split
  · rfl
  · simp [thinking, enqueue, textChunk, thinkingIn]
  · rfl
  · rcases kind with _ | _ | _ <;> rfl
  · rfl
  · rfl
  · rfl
  · rfl

theorem AddsUp.showText (h : ctx.AddsUp) (parsed : HiddenTextChunk) :
    (ctx.showText parsed).AddsUp := by
  refine ⟨?_, fun kind => ?_⟩
  · have htexts := h.texts
    rw [StreamContext.showText]
    split
    · exact htexts
    · simp only [shownText] at htexts
      simp [shownText, enqueue, textChunk, textIn, htexts]
  · rw [(sameThinking_showText ctx parsed).thinking, (sameThinking_showText ctx parsed).collected]
    exact h.thinking kind

/-! ## Sending thinking -/

/-- One event about a kind of thinking was sent. -/
structure Sends (ctx ctx' : StreamContext σ γ ι π) (kind : Option ReasoningContentKind)
    (content : List Char) (isEnd : Bool) : Prop where
  thinking : ∀ kind', ctx'.thinking kind' =
    ctx.thinking kind' ++ if kind = kind' then [(content, isEnd)] else []
  collected : ∀ kind', ctx'.collected kind' =
    ctx.collected kind' ++ if kind = kind' then content else []
  shown : ctx'.shownText = ctx.shownText
  full : ctx'.fullText = ctx.fullText

theorem sends_of_events {content : List Char} {isEnd : Bool}
    (hevents : ctx'.events = ctx.events ++ [ctx.thinkingChunk content kind isEnd])
    (hcollected : ∀ kind', ctx'.collected kind' =
      ctx.collected kind' ++ if kind = kind' then content else [])
    (hfull : ctx'.fullText = ctx.fullText) : ctx.Sends ctx' kind content isEnd where
  thinking := fun kind' => by simp [thinking, hevents, thinkingChunk, thinkingIn]
  collected := hcollected
  shown := by simp [shownText, hevents, thinkingChunk, textIn]
  full := hfull

theorem sends_sendThinkingEnd (h : kind ∉ ctx.completedThinkingStreams) :
    ctx.Sends (ctx.sendThinkingEnd kind) kind [] true := by
  rw [sendThinkingEnd, if_neg h]
  refine sends_of_events rfl (fun kind' => ?_) rfl
  rcases kind' with _ | _ | _ <;> simp [collected, enqueue]

theorem sends_handleThinkingChunk (ctx : StreamContext σ γ ι π) (content : List Char)
    (kind : Option ReasoningContentKind) :
    ctx.Sends (ctx.handleThinkingChunk content kind) kind content false ∧
      (ctx.handleThinkingChunk content kind).completedThinkingStreams =
        ctx.completedThinkingStreams ∧
      ∀ kind', kind' ∈ (ctx.handleThinkingChunk content kind).thinkingStreams ↔
        kind' ∈ ctx.thinkingStreams ∨ kind = kind' := by
  rw [handleThinkingChunk.eq_def]
  refine ⟨sends_of_events ?_ (fun kind' => ?_) ?_, ?_, fun kind' => ?_⟩
  · rcases kind with _ | _ | _ <;> simp only <;> split <;> rfl
  · rcases kind with _ | _ | _ <;> rcases kind' with _ | _ | _ <;> simp only <;> split <;>
      simp [collected, enqueue]
  · rcases kind with _ | _ | _ <;> simp only <;> split <;> rfl
  · rcases kind with _ | _ | _ <;> simp only <;> split <;> rfl
  · have hstreams : ∀ ctx' : StreamContext σ γ ι π, ctx'.thinkingStreams = ctx.thinkingStreams →
        (kind' ∈ (if kind ∈ ctx'.thinkingStreams then ctx'
          else { ctx' with
            thinkingStreams := ctx'.thinkingStreams ++ [kind] }).thinkingStreams ↔
          kind' ∈ ctx.thinkingStreams ∨ kind = kind') := by
      intro ctx' hctx'
      split
      · next hmem =>
        rw [hctx'] at hmem ⊢
        refine ⟨.inl, fun h => h.elim id ?_⟩
        rintro rfl
        exact hmem
      · simp [hctx', eq_comm]
    rcases kind with _ | _ | _
    · exact hstreams { ctx with fullThinking := ctx.fullThinking ++ content } rfl
    · exact hstreams { ctx with fullReasoningText := ctx.fullReasoningText ++ content } rfl
    · exact hstreams { ctx with fullReasoningSummary := ctx.fullReasoningSummary ++ content } rfl

theorem AddsUp.sends {content : List Char} {isEnd : Bool} (h : ctx.AddsUp)
    (hsends : ctx.Sends ctx' kind content isEnd) : ctx'.AddsUp := by
  refine ⟨by rw [hsends.shown, hsends.full, h.texts], fun kind' => ?_⟩
  rw [hsends.thinking, hsends.collected, flatMap_append, h.thinking]
  split
  · simp
  · simp

theorem Sends.lastIsEnd {content : List Char} {isEnd : Bool}
    (h : ctx.Sends ctx' kind content isEnd) : ctx'.lastIsEnd kind = some isEnd := by
  simp [StreamContext.lastIsEnd, h.thinking]

theorem Sends.thinking_of_ne {content : List Char} {isEnd : Bool}
    {kind' : Option ReasoningContentKind} (h : ctx.Sends ctx' kind' content isEnd)
    (hne : kind' ≠ kind) : ctx'.thinking kind = ctx.thinking kind := by
  rw [h.thinking, if_neg hne, append_nil]

theorem Marked.other (h : ctx.Marked kind thinks closed resumed)
    (hthinking : ctx'.thinking kind = ctx.thinking kind)
    (hstreams : kind ∈ ctx'.thinkingStreams ↔ kind ∈ ctx.thinkingStreams)
    (hcompleted : kind ∈ ctx'.completedThinkingStreams ↔ kind ∈ ctx.completedThinkingStreams) :
    ctx'.Marked kind thinks closed resumed := by
  have hlast : ctx'.lastIsEnd kind = ctx.lastIsEnd kind := by
    rw [StreamContext.lastIsEnd, hthinking, StreamContext.lastIsEnd]
  refine ⟨hstreams.trans h.streams, hcompleted.trans h.completed, h.closed_of_resumed, ?_, ?_,
    ?_, ?_, ?_⟩
  · rw [hthinking]
    exact h.silent
  · rw [hthinking]
    exact h.content
  · rw [hlast]
    exact h.started
  · rw [hlast]
    exact h.ended
  · rw [hlast]
    exact h.resumed

theorem Marked.same (h : ctx.Marked kind thinks closed resumed) (hsame : ctx.SameThinking ctx') :
    ctx'.Marked kind thinks closed resumed :=
  h.other (hsame.thinking kind) (by rw [hsame.streams]) (by rw [hsame.completed])

/-- **A chunk of thinking**: after an end, it goes on without one. -/
theorem Marked.handleThinkingChunk (h : ctx.Marked kind thinks closed resumed)
    {content : List Char} (hcontent : content ≠ []) (kind' : Option ReasoningContentKind) :
    (ctx.handleThinkingChunk content kind').Marked kind (thinks ∨ kind' = kind) closed
      (resumed ∨ (closed ∧ kind' = kind)) := by
  obtain ⟨hsends, hcompleted, hstreams⟩ := sends_handleThinkingChunk ctx content kind'
  by_cases hkind : kind' = kind
  · subst hkind
    have hlast := hsends.lastIsEnd
    refine ⟨by simp [hstreams], by rw [hcompleted, h.completed], ?_, by simp, fun _ => ?_,
      fun _ _ => hlast, ?_, fun _ => hlast⟩
    · rintro (hresumed | ⟨hclosed, -⟩)
      · exact h.closed_of_resumed hresumed
      · exact hclosed
    · exact ⟨(content, false), by simp [hsends.thinking], hcontent⟩
    · exact fun hclosed hresumed => absurd (.inr ⟨hclosed, rfl⟩) hresumed
  · have hsame := h.other (hsends.thinking_of_ne hkind) (by simp [hstreams, hkind])
      (by rw [hcompleted])
    simpa [hkind] using hsame

/-- **One end** of thinking, of a kind that there was. -/
theorem Marked.sendThinkingEnd (h : ctx.Marked kind thinks closed resumed)
    (kind' : Option ReasoningContentKind) (hthinks : kind' = kind → thinks) :
    (ctx.sendThinkingEnd kind').Marked kind thinks (closed ∨ kind' = kind) resumed := by
  have hstreams : (ctx.sendThinkingEnd kind').thinkingStreams = ctx.thinkingStreams := by
    rw [StreamContext.sendThinkingEnd]
    split <;> rfl
  by_cases hmem : kind' ∈ ctx.completedThinkingStreams
  · have hclosed : closed ∨ kind' = kind ↔ closed := by
      refine ⟨fun hor => hor.elim id ?_, .inl⟩
      rintro rfl
      exact h.completed.1 hmem
    rw [StreamContext.sendThinkingEnd, if_pos hmem, hclosed]
    exact h
  · have hsends := sends_sendThinkingEnd hmem
    have hcompleted : (ctx.sendThinkingEnd kind').completedThinkingStreams =
        ctx.completedThinkingStreams ++ [kind'] := by
      rw [StreamContext.sendThinkingEnd, if_neg hmem]
      rfl
    by_cases hkind : kind' = kind
    · subst hkind
      have hopen : ¬closed := fun hclosed => hmem (h.completed.2 hclosed)
      have hnot : ¬resumed := fun hresumed => hopen (h.closed_of_resumed hresumed)
      refine ⟨by rw [hstreams, h.streams], by simp [hcompleted], fun _ => .inr rfl,
        fun hsilent => absurd (hthinks rfl) hsilent, fun hthinks => ?_,
        fun _ hclosed => absurd (.inr rfl) hclosed, fun _ _ => hsends.lastIsEnd,
        fun hresumed => absurd hresumed hnot⟩
      obtain ⟨chunk, hchunk, hne⟩ := h.content hthinks
      refine ⟨chunk, ?_, hne⟩
      rw [hsends.thinking]
      exact mem_append_left _ hchunk
    · have hsame := h.other (hsends.thinking_of_ne hkind) (by rw [hstreams])
        (by simp [hcompleted, Ne.symm hkind])
      simpa [hkind] using hsame

/-- Ends of several kinds of thinking that there were. -/
theorem Marked.sendThinkingEnds (kinds : List (Option ReasoningContentKind)) :
    ∀ {ctx : StreamContext σ γ ι π} {closed : Prop}, ctx.Marked kind thinks closed resumed →
      (kind ∈ kinds → thinks) →
      (kinds.foldl StreamContext.sendThinkingEnd ctx).Marked kind thinks (closed ∨ kind ∈ kinds)
        resumed := by
  induction kinds with
  | nil =>
    intro ctx closed h _
    simpa using h
  | cons kind' kinds ih =>
    intro ctx closed h hthinks
    have hone := h.sendThinkingEnd kind' fun heq => hthinks (heq ▸ mem_cons_self)
    have hall := ih hone fun hmem => hthinks (mem_cons_of_mem kind' hmem)
    have hor : (closed ∨ kind' = kind) ∨ kind ∈ kinds ↔ closed ∨ kind ∈ kind' :: kinds := by
      rw [mem_cons, or_assoc, eq_comm]
    rwa [hor] at hall

/-- **The ends** of all kinds of thinking that there were. -/
theorem Marked.sendThinkingEndIfNeeded (h : ctx.Marked kind thinks closed resumed) :
    ctx.sendThinkingEndIfNeeded.Marked kind thinks (closed ∨ thinks) resumed := by
  have hall := h.sendThinkingEnds ctx.thinkingStreams h.streams.1
  rwa [h.streams] at hall

theorem AddsUp.sendThinkingEndIfNeeded (h : ctx.AddsUp) : ctx.sendThinkingEndIfNeeded.AddsUp := by
  have hall : ∀ (kinds : List (Option ReasoningContentKind)) (ctx : StreamContext σ γ ι π),
      ctx.AddsUp → (kinds.foldl sendThinkingEnd ctx).AddsUp := by
    intro kinds
    induction kinds with
    | nil => exact fun ctx h => h
    | cons kind kinds ih =>
      intro ctx h
      refine ih (ctx.sendThinkingEnd kind) ?_
      by_cases hmem : kind ∈ ctx.completedThinkingStreams
      · rw [sendThinkingEnd, if_pos hmem]
        exact h
      · exact h.sends (sends_sendThinkingEnd hmem)
  exact hall ctx.thinkingStreams ctx h

end StreamContext

/-! ## Thinking in a stream -/

/-- A response has thinking of a kind. -/
def ThinksOf (kind : Option ReasoningContentKind) (response : UnifiedResponse π) : Prop :=
  response.reasoningContentKind = kind ∧ ∃ content, response.reasoningContent = some content ∧
    content ≠ []

/-- A response with a text or a part of a tool call: what was thought before is over. -/
def EndsThinking (response : UnifiedResponse π) : Prop :=
  (∃ text, response.text = some text ∧ text ≠ []) ∨ response.toolCall.isSome

/-- There is thinking of a kind. -/
def Thinks (kind : Option ReasoningContentKind) (responses : List (UnifiedResponse π)) : Prop :=
  ∃ response ∈ responses, ThinksOf kind response

/-- Thinking of a kind is over. -/
def Closed (kind : Option ReasoningContentKind) (responses : List (UnifiedResponse π)) : Prop :=
  ∃ before response after, responses = before ++ response :: after ∧ EndsThinking response ∧
    Thinks kind (before ++ [response])

/-- Thinking of a kind goes on after it was over. -/
def Resumes (kind : Option ReasoningContentKind) (responses : List (UnifiedResponse π)) : Prop :=
  ∃ before response after, responses = before ++ response :: after ∧ EndsThinking response ∧
    Thinks kind (before ++ [response]) ∧ Thinks kind after

/-- The responses of a stream, up to where it fails or stops. -/
def responsesOf : List (StreamItem π) → List (UnifiedResponse π)
  | .response response :: items => response :: responsesOf items
  | _ => []

variable {kind : Option ReasoningContentKind} {responses : List (UnifiedResponse π)}

theorem exists_split_concat {α : Type} {P : List α → α → List α → Prop} {l : List α} {a : α} :
    (∃ before x after, l ++ [a] = before ++ x :: after ∧ P before x after) ↔
      P l a [] ∨ ∃ before x after, l = before ++ x :: after ∧ P before x (after ++ [a]) := by
  refine ⟨?_, ?_⟩
  · rintro ⟨before, x, after, hsplit, hP⟩
    rcases eq_nil_or_concat after with rfl | ⟨after, b, rfl⟩
    · obtain ⟨rfl, hx⟩ := append_inj' hsplit rfl
      cases hx
      exact .inl hP
    · rw [concat_eq_append] at hsplit hP
      have hsplit : l ++ [a] = (before ++ x :: after) ++ [b] := by simpa using hsplit
      obtain ⟨rfl, hb⟩ := append_inj' hsplit rfl
      cases hb
      exact .inr ⟨before, x, after, rfl, hP⟩
  · rintro (hP | ⟨before, x, after, rfl, hP⟩)
    · exact ⟨l, a, [], rfl, hP⟩
    · exact ⟨before, x, after ++ [a], by simp, hP⟩

theorem thinks_concat (response : UnifiedResponse π) :
    Thinks kind (responses ++ [response]) ↔ Thinks kind responses ∨ ThinksOf kind response := by
  simp [Thinks, or_and_right, exists_or]

theorem closed_concat (response : UnifiedResponse π) :
    Closed kind (responses ++ [response]) ↔ Closed kind responses ∨
      (EndsThinking response ∧ Thinks kind (responses ++ [response])) := by
  rw [Closed, exists_split_concat, or_comm]
  rfl

theorem resumes_concat (response : UnifiedResponse π) :
    Resumes kind (responses ++ [response]) ↔ Resumes kind responses ∨
      (Closed kind responses ∧ ThinksOf kind response) := by
  have hnone : ¬Thinks kind ([] : List (UnifiedResponse π)) := by simp [Thinks]
  rw [Resumes, exists_split_concat]
  refine ⟨?_, ?_⟩
  · rintro (⟨-, -, hthinks⟩ | ⟨before, x, after, rfl, hends, hbefore, hafter⟩)
    · exact absurd hthinks hnone
    · rcases (thinks_concat response).1 hafter with hafter | hof
      · exact .inl ⟨before, x, after, rfl, hends, hbefore, hafter⟩
      · exact .inr ⟨⟨before, x, after, rfl, hends, hbefore⟩, hof⟩
  · rintro (⟨before, x, after, rfl, hends, hbefore, hafter⟩ |
      ⟨⟨before, x, after, rfl, hends, hbefore⟩, hof⟩)
    · exact .inr ⟨before, x, after, rfl, hends, hbefore, (thinks_concat response).2 (.inl hafter)⟩
    · exact .inr ⟨before, x, after, rfl, hends, hbefore, (thinks_concat response).2 (.inr hof)⟩

namespace StreamContext

variable {ctx ctx' : StreamContext σ γ ι π} {thinks closed resumed : Prop}

theorem Marked.congr {thinks' closed' resumed' : Prop} (h : ctx.Marked kind thinks closed resumed)
    (hthinks : thinks ↔ thinks') (hclosed : closed ↔ closed') (hresumed : resumed ↔ resumed') :
    ctx.Marked kind thinks' closed' resumed' := by
  rwa [← hthinks, ← hclosed, ← hresumed]

theorem Marked.noteReasoning (h : ctx.Marked kind thinks closed resumed)
    (response : UnifiedResponse π) :
    (ctx.noteReasoning response).Marked kind (thinks ∨ ThinksOf kind response) closed
      (resumed ∨ (closed ∧ ThinksOf kind response)) := by
  rw [StreamContext.noteReasoning]
  cases hreasoning : response.reasoningContent with
  | none =>
    have hnot : ¬ThinksOf kind response := by simp [ThinksOf, hreasoning]
    exact h.congr (by simp [hnot]) Iff.rfl (by simp [hnot])
  | some content =>
    have hpresent : ctx.SameText { ctx with reasoningContentPresent := true } :=
      sameText_of_eq rfl rfl (fun _ => rfl) rfl rfl
    have hsame := h.same hpresent.toSameThinking
    by_cases hcontent : content = []
    · have hnot : ¬ThinksOf kind response := by simp [ThinksOf, hreasoning, hcontent]
      rw [hcontent]
      exact hsame.congr (by simp [hnot]) Iff.rfl (by simp [hnot])
    · have hof : response.reasoningContentKind = kind ↔ ThinksOf kind response := by
        simp [ThinksOf, hreasoning, hcontent]
      simp only [List.isEmpty_iff, if_neg hcontent]
      exact (hsame.handleThinkingChunk hcontent response.reasoningContentKind).congr
        (or_congr_right hof) Iff.rfl (or_congr_right (and_congr_right fun _ => hof))

theorem Marked.noteText (h : ctx.Marked kind thinks closed resumed)
    (response : UnifiedResponse π) :
    (ctx.noteText response).Marked kind thinks
      (closed ∨ ((∃ text, response.text = some text ∧ text ≠ []) ∧ thinks)) resumed := by
  rw [StreamContext.noteText]
  cases htext : response.text.filter (· ≠ []) with
  | none =>
    have hnot : ¬∃ text, response.text = some text ∧ text ≠ [] := by
      rintro ⟨text, hsome, hne⟩
      simp [hsome, hne] at htext
    exact h.congr Iff.rfl (by simp [hnot]) Iff.rfl
  | some text =>
    have hsome : ∃ text, response.text = some text ∧ text ≠ [] := by
      obtain ⟨hsome, hne⟩ := Option.filter_eq_some_iff.1 htext
      exact ⟨text, hsome, by simpa using hne⟩
    have hends := h.sendThinkingEndIfNeeded
    have hparser : ctx.sendThinkingEndIfNeeded.SameText
        { ctx.sendThinkingEndIfNeeded with
          hiddenTextParser := (ctx.sendThinkingEndIfNeeded.hiddenTextParser.pushStr text).2 } :=
      sameText_of_eq rfl rfl (fun _ => rfl) rfl rfl
    exact ((hends.same hparser.toSameThinking).same (sameThinking_showText _ _)).congr Iff.rfl
      (by simp [hsome]) Iff.rfl

variable (ui : OpenUi σ (ToolEventIdentity × γ))
  (interpret : ToolCallFinalizeOptions → String → List Char → ι) (newUuid : ℕ → String)

theorem Marked.noteToolCall (h : ctx.Marked kind thinks closed resumed)
    (response : UnifiedResponse π) :
    (ctx.noteToolCall ui interpret newUuid response).Marked kind thinks
      (closed ∨ (response.toolCall.isSome ∧ thinks)) resumed := by
  rw [StreamContext.noteToolCall]
  cases hcall : response.toolCall with
  | none => exact h.congr Iff.rfl (by simp) Iff.rfl
  | some toolCall =>
    have hends := h.sendThinkingEndIfNeeded
    exact (hends.same (sameText_handleToolCallChunk ui interpret newUuid _ toolCall).toSameThinking
      ).congr Iff.rfl (by simp) Iff.rfl

/-- **One response.** -/
theorem Marked.handleResponse
    (h : ctx.Marked kind (Thinks kind responses) (Closed kind responses) (Resumes kind responses))
    (response : UnifiedResponse π) :
    (ctx.handleResponse ui interpret newUuid response).Marked kind
      (Thinks kind (responses ++ [response])) (Closed kind (responses ++ [response]))
      (Resumes kind (responses ++ [response])) := by
  have hnoted := h.same (sameText_noteResponse ctx response).toSameThinking
  have hcall := ((hnoted.noteReasoning response).noteText response).noteToolCall ui interpret
    newUuid response
  have hmeta := hcall.same (sameText_noteMetadata _ response).toSameThinking
  refine (hmeta.same (sameText_noteFinishReason interpret newUuid _ response).toSameThinking).congr
    (thinks_concat response).symm ?_ (resumes_concat response).symm
  rw [closed_concat, thinks_concat, EndsThinking, or_assoc, ← or_and_right]

theorem AddsUp.noteReasoning (h : ctx.AddsUp) (response : UnifiedResponse π) :
    (ctx.noteReasoning response).AddsUp := by
  rw [StreamContext.noteReasoning]
  cases response.reasoningContent with
  | none => exact h
  | some content =>
    have hpresent : ctx.SameText { ctx with reasoningContentPresent := true } :=
      sameText_of_eq rfl rfl (fun _ => rfl) rfl rfl
    simp only
    split
    · exact h.same hpresent
    · exact (h.same hpresent).sends
        (sends_handleThinkingChunk _ content response.reasoningContentKind).1

theorem AddsUp.noteText (h : ctx.AddsUp) (response : UnifiedResponse π) :
    (ctx.noteText response).AddsUp := by
  rw [StreamContext.noteText]
  split
  · next text _ =>
    have hparser : ctx.sendThinkingEndIfNeeded.SameText
        { ctx.sendThinkingEndIfNeeded with
          hiddenTextParser := (ctx.sendThinkingEndIfNeeded.hiddenTextParser.pushStr text).2 } :=
      sameText_of_eq rfl rfl (fun _ => rfl) rfl rfl
    exact (h.sendThinkingEndIfNeeded.same hparser).showText _
  · exact h

theorem AddsUp.noteToolCall (h : ctx.AddsUp) (response : UnifiedResponse π) :
    (ctx.noteToolCall ui interpret newUuid response).AddsUp := by
  rw [StreamContext.noteToolCall]
  split
  · exact h.sendThinkingEndIfNeeded.same
      (sameText_handleToolCallChunk ui interpret newUuid _ _)
  · exact h

theorem AddsUp.handleResponse (h : ctx.AddsUp) (response : UnifiedResponse π) :
    (ctx.handleResponse ui interpret newUuid response).AddsUp := by
  have hcall := (((h.same (sameText_noteResponse ctx response)).noteReasoning response).noteText
    response).noteToolCall ui interpret newUuid response
  exact (hcall.same (sameText_noteMetadata _ response)).same
    (sameText_noteFinishReason interpret newUuid _ response)

/-- What a stream leaves for the end: `closed` says whose end was sent. -/
structure Reads (ctx : StreamContext σ γ ι π) (responses : List (UnifiedResponse π)) : Prop where
  addsUp : ctx.AddsUp
  marked : ∀ kind, ∃ closed, ctx.Marked kind (Thinks kind responses) closed (Resumes kind responses)

theorem recoverPartial_reads (h : ctx.AddsUp)
    (hmarked : ∀ kind, ctx.Marked kind (Thinks kind responses) (Closed kind responses)
      (Resumes kind responses)) (reason : List Char) :
    (ctx.recoverPartial interpret newUuid reason).Reads responses := by
  have hsame : ctx.sendThinkingEndIfNeeded.SameText
      (ctx.recoverPartial interpret newUuid reason) :=
    (sameText_finalizeAll interpret newUuid _ .interrupted).trans
      (sameText_of_eq rfl rfl (fun _ => rfl) rfl rfl)
  exact ⟨h.sendThinkingEndIfNeeded.same hsame, fun kind =>
    ⟨_, ((hmarked kind).sendThinkingEndIfNeeded).same hsame.toSameThinking⟩⟩

/-- **The loop**, by induction over the stream. -/
theorem processItems_reads (items : List (StreamItem π)) :
    ∀ {ctx ctx' : StreamContext σ γ ι π} {responses : List (UnifiedResponse π)}, ctx.AddsUp →
      (∀ kind, ctx.Marked kind (Thinks kind responses) (Closed kind responses)
        (Resumes kind responses)) →
      ctx.processItems ui interpret newUuid items = .ok ctx' →
        ctx'.Reads (responses ++ responsesOf items) := by
  induction items with
  | nil =>
    intro ctx ctx' responses h hmarked hrun
    cases hrun
    rw [responsesOf, append_nil]
    · exact ⟨h, fun kind => ⟨_, hmarked kind⟩⟩
    · exact fun _ _ hnil => nomatch hnil
  | cons item items ih =>
    intro ctx ctx' responses h hmarked hrun
    cases item with
    | response response =>
      have hrest := ih (h.handleResponse ui interpret newUuid response)
        (fun kind => (hmarked kind).handleResponse ui interpret newUuid response) hrun
      rwa [append_assoc] at hrest
    | failed failure =>
      have hnil : responsesOf (.failed failure :: items) = ([] : List (UnifiedResponse π)) := rfl
      rw [processItems, handleFailure] at hrun
      rw [hnil, append_nil]
      split at hrun
      · cases hrun
        exact recoverPartial_reads interpret newUuid h hmarked _
      · cases hrun
    | timedOut =>
      have hnil : responsesOf (.timedOut :: items) = ([] : List (UnifiedResponse π)) := rfl
      rw [processItems, handleTimeout] at hrun
      rw [hnil, append_nil]
      split at hrun
      · cases hrun
        exact recoverPartial_reads interpret newUuid h hmarked _
      · cases hrun

theorem finish_reads (h : ctx.Reads responses) :
    (ctx.finish interpret newUuid).AddsUp ∧ ∀ kind, ∃ closed,
      (ctx.finish interpret newUuid).Marked kind (Thinks kind responses)
        (closed ∨ Thinks kind responses) (Resumes kind responses) := by
  have hparser : ctx.sendThinkingEndIfNeeded.SameText
      { ctx.sendThinkingEndIfNeeded with
        hiddenTextParser := ctx.sendThinkingEndIfNeeded.hiddenTextParser.finish.2 } :=
    sameText_of_eq rfl rfl (fun _ => rfl) rfl rfl
  have hend : ctx.sendThinkingEndIfNeeded.flushHiddenTextTail.SameText
      (ctx.finish interpret newUuid) :=
    (sameText_finalizeAll interpret newUuid _ .unknown).trans (sameText_noteTokenLimit _)
  refine ⟨((h.addsUp.sendThinkingEndIfNeeded.same hparser).showText _).same hend, fun kind => ?_⟩
  obtain ⟨closed, hmarked⟩ := h.marked kind
  exact ⟨closed, ((hmarked.sendThinkingEndIfNeeded.same hparser.toSameThinking).same
    (sameThinking_showText _ _)).same hend.toSameThinking⟩

end StreamContext

open StreamContext

variable (ui : OpenUi σ (ToolEventIdentity × γ))
  (interpret : ToolCallFinalizeOptions → String → List Char → ι) (newUuid : ℕ → String)
  (options : StreamProcessOptions)

/-- **Events and result agree exactly when no thinking goes on after it was over.** -/
theorem agrees_iff (items : List (StreamItem π)) (ctx : StreamContext σ γ ι π)
    (h : processStreamWithOptions ui interpret newUuid options items = .ok ctx) :
    ctx.Agrees ↔ ∀ kind, ¬Resumes kind (responsesOf items) := by
  rw [processStreamWithOptions] at h
  cases hrun : (StreamContext.new options : StreamContext σ γ ι π).processItems ui interpret
    newUuid items with
  | error error =>
    rw [hrun] at h
    cases h
  | ok last =>
    rw [hrun] at h
    cases h
    have hnone : ∀ kind, (StreamContext.new options : StreamContext σ γ ι π).Marked kind
        (Thinks kind ([] : List (UnifiedResponse π))) (Closed kind ([] : List (UnifiedResponse π)))
        (Resumes kind ([] : List (UnifiedResponse π))) := fun kind =>
      (marked_new options kind).congr (by simp [Thinks]) (by simp [Closed]) (by simp [Resumes])
    obtain ⟨haddsUp, hmarked⟩ := finish_reads interpret newUuid
      (processItems_reads ui interpret newUuid items (addsUp_new options) hnone hrun)
    rw [nil_append] at hmarked
    obtain ⟨hdistinct, hdetected⟩ := ((knowsTools_new options).processItems interpret newUuid ui
      items hrun).finish interpret newUuid
    have hthinks : ∀ kind, (∃ chunk ∈ (last.finish interpret newUuid).thinking kind,
        chunk.1 ≠ []) ↔ Thinks kind (responsesOf items) := by
      intro kind
      obtain ⟨closed, hkind⟩ := hmarked kind
      refine ⟨fun ⟨chunk, hchunk, _⟩ => by_contra fun hsilent => ?_, hkind.content⟩
      rw [hkind.silent hsilent] at hchunk
      exact not_mem_nil hchunk
    refine ⟨fun hagrees kind hresumes => ?_, fun hno => ?_⟩
    · obtain ⟨closed, hkind⟩ := hmarked kind
      have hthink : Thinks kind (responsesOf items) := by
        obtain ⟨before, response, after, hsplit, -, -, r, hr, hof⟩ := hresumes
        rw [hsplit]
        exact ⟨r, mem_append_right _ (mem_cons_of_mem _ hr), hof⟩
      have hended := hagrees.ended kind ((hthinks kind).2 hthink)
      rw [hkind.resumed hresumes] at hended
      cases hended
    · refine ⟨haddsUp.texts, haddsUp.thinking, fun kind hcontent => ?_, hdistinct, hdetected⟩
      obtain ⟨closed, hkind⟩ := hmarked kind
      exact hkind.ended (.inr ((hthinks kind).1 hcontent)) (hno kind)

/-! ## Thinking around a text -/

/-- A scanner that streams nothing. -/
def quietUi : OpenUi Unit (ToolEventIdentity × Unit) where
  start := ()
  replaced := id
  scan := fun _ _ _ => ((), none)

/-- The options of a stream without hidden text. -/
def plainOptions : StreamProcessOptions where
  sessionId := "session"
  dialogTurnId := "turn"
  roundId := "round"
  attemptId := "attempt"
  attemptIndex := 1
  watchdogTimeoutSecs := none
  allowNormalToolJsonRepair := false
  hiddenTextTags := []

/-- A response with thinking of no kind. -/
def thought (content : String) : StreamItem Unit :=
  .response { UnifiedResponse.default with reasoningContent := some content.toList }

/-- A response with a text. -/
def said (text : String) : StreamItem Unit :=
  .response { UnifiedResponse.default with text := some text.toList }

/-- `agrees_iff` where the thinking is over before the text. -/
theorem agrees_of_thought_before_text :
    ∃ ctx, processStreamWithOptions quietUi (fun _ _ _ => ()) (fun _ => "") plainOptions
      [thought "a", said "b"] = .ok ctx ∧ (ctx.Agrees ↔
        ∀ kind, ¬Resumes kind (responsesOf [thought "a", said "b"])) :=
  ⟨_, rfl, agrees_iff quietUi (fun _ _ _ => ()) (fun _ => "") plainOptions _ _ rfl⟩

/-- Thinking that goes on after a text has no end. -/
theorem resumed_thinking_without_end :
    ∃ ctx, processStreamWithOptions quietUi (fun _ _ _ => ()) (fun _ => "") plainOptions
      [thought "a", said "b", thought "c"] = .ok ctx ∧ ¬ctx.Agrees := by
  refine ⟨_, rfl, fun hagrees => ?_⟩
  have hended := hagrees.ended none ⟨("c".toList, false), by decide, by decide⟩
  exact absurd hended (by decide)

end StreamProcessor

end OpenBitFun
