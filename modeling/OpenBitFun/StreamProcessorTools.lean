import OpenBitFun.StreamProcessor

/-!
# The tool calls of a stream

A tool call that was announced is among the calls of the result: until it is recorded it is pending
with its name, and a pending call with a name is always recorded when it ends. No two recorded calls
have the same id.
-/

namespace OpenBitFun

open List

namespace ToolCallAccumulator

universe u

variable {σ γ ι : Type u} (ui : OpenUi σ γ) (interpret : String → List Char → ι)

namespace PendingToolCall

variable {p : PendingToolCall σ} {d : ToolCallDelta} {id : String}

/-- A pending call with an id and a name: when it ends, it counts. -/
structure Named (p : PendingToolCall σ) (id : String) : Prop where
  toolId : p.toolId = id
  id_ne : id ≠ ""
  name_ne : p.toolName ≠ ""

/-- Detection changes neither id nor name. -/
theorem Named.detect (h : p.Named id) : p.detect.2.Named id := by
  rw [PendingToolCall.detect]
  split
  · exact ⟨h.toolId, h.id_ne, h.name_ne⟩
  · exact h

/-- Arguments change neither id nor name. -/
theorem Named.receive (h : p.Named id) (d : ToolCallDelta) :
    (p.receive ui d).2.2.Named id := by
  have htake : ∀ chunk, (p.takeArguments ui d.argumentsIsSnapshot chunk).Named id := by
    intro chunk
    rw [takeArguments]
    split
    · split
      · exact ⟨h.toolId, h.id_ne, h.name_ne⟩
      · exact ⟨h.toolId, h.id_ne, h.name_ne⟩
    · exact ⟨h.toolId, h.id_ne, h.name_ne⟩
  rw [PendingToolCall.receive]
  split
  · exact h
  · next chunk hchunk =>
    have htaken := htake chunk
    split
    · simp only
      split
      · exact ⟨htaken.toolId, htaken.id_ne, htaken.name_ne⟩
      · exact htaken
    · exact h

/-- A call with a name counts when it ends. -/
theorem Named.finalize (h : p.Named id) :
    ∃ call, (p.finalize interpret).1 = some call ∧ call.toolId = id := by
  have hpending : p.hasPending = true := by simp [hasPending, h.toolId, h.id_ne]
  have hpayload : p.hasMeaningfulPayload = true := by simp [hasMeaningfulPayload, h.name_ne]
  refine ⟨⟨p.toolId, p.toolName, p.rawArguments, interpret p.toolName p.rawArguments⟩, ?_,
    h.toolId⟩
  simp [PendingToolCall.finalize, hpending, hpayload]

/-- A call with a name stays, or ends and counts. -/
theorem Named.identify (h : p.Named id) (d : ToolCallDelta) :
    (p.identify ui interpret d).2.Named id ∨
      ∃ call, (p.identify ui interpret d).1 = some call ∧ call.toolId = id := by
  have hname : ∀ toolName, (p.updateToolNameIfMissing toolName).Named id := by
    intro toolName
    rw [updateToolNameIfMissing, if_neg h.name_ne]
    exact h
  rw [PendingToolCall.identify]
  split
  · split
    · exact .inr (h.finalize interpret)
    · exact .inl (hname d.toolName)
  · split
    · exact .inl (hname d.toolName)
    · exact .inl h

theorem Named.apply (h : p.Named id) (d : ToolCallDelta) :
    (p.apply ui interpret d).2.Named id ∨
      ∃ call, (p.apply ui interpret d).1.finalizedPrevious = some call ∧ call.toolId = id := by
  rcases h.identify ui interpret d with hkeep | hcall
  · exact .inl (hkeep.detect.receive ui d)
  · exact .inr hcall

theorem named_of_detected {detected : EarlyDetectedToolCall}
    (h : (p.apply ui interpret d).1.earlyDetected = some detected) :
    (p.apply ui interpret d).2.Named detected.toolId := by
  have hdetect : (p.identify ui interpret d).2.detect.1 = some detected := h
  have hnamed : (p.identify ui interpret d).2.Named detected.toolId := by
    rw [detect] at hdetect
    split at hdetect
    · next htest =>
      cases hdetect
      simp only [hasPending, ne_eq, decide_not, Bool.and_eq_true, Bool.not_eq_true',
        decide_eq_false_iff_not] at htest
      exact ⟨rfl, htest.1.1, htest.1.2⟩
    · simp at hdetect
  exact hnamed.detect.receive ui d

end PendingToolCall

namespace PendingToolCalls

variable {calls : PendingToolCalls σ} {d : ToolCallDelta} {id : String}

/-- A call with a name is pending. -/
def Held (id : String) (calls : PendingToolCalls σ) : Prop :=
  ∃ key p, calls.lookup key = some p ∧ p.Named id

/-- A delta leaves a call pending, or it ends the call. -/
theorem Held.applyDelta (h : Held id calls) (d : ToolCallDelta) :
    Held id (calls.applyDelta ui interpret d).2 ∨
      ∃ call, (calls.applyDelta ui interpret d).1.finalizedPrevious = some call ∧
        call.toolId = id := by
  obtain ⟨key, p, hp, hnamed⟩ := h
  rw [PendingToolCalls.applyDelta]
  have hother : ∀ q, key ≠ d.key → Held id (calls.insert d.key q) := fun q hkey =>
    ⟨key, p, (AssocMap.lookup_insert calls d.key key q).trans (by rw [if_neg hkey, hp]), hnamed⟩
  split
  · next pending hpending =>
    by_cases hkey : key = d.key
    · subst hkey
      obtain rfl : pending = p := Option.some.inj (hpending.symm.trans hp)
      rcases hnamed.apply ui interpret d with hkeep | hcall
      · exact .inl ⟨d.key, _, AList.lookup_insert calls, hkeep⟩
      · exact .inr hcall
    · exact .inl (hother _ hkey)
  · next hnone =>
    have hkey : key ≠ d.key := by
      rintro rfl
      exact nomatch hnone.symm.trans hp
    split
    · exact .inl (hother _ hkey)
    · exact .inl ⟨key, p, hp, hnamed⟩

theorem held_of_detected {detected : EarlyDetectedToolCall}
    (h : (calls.applyDelta ui interpret d).1.earlyDetected = some detected) :
    Held detected.toolId (calls.applyDelta ui interpret d).2 := by
  rw [PendingToolCalls.applyDelta] at h ⊢
  split at h
  · exact ⟨d.key, _, AList.lookup_insert calls, PendingToolCall.named_of_detected ui interpret h⟩
  · split at h
    · next hid =>
      rw [if_pos hid]
      exact ⟨d.key, _, AList.lookup_insert calls, PendingToolCall.named_of_detected ui interpret h⟩
    · simp [ToolCallDeltaOutcome.default] at h

/-- All pending calls with a name are finalized at the end. -/
theorem Held.finalizeAll (h : Held id calls) :
    ∃ call ∈ (calls.finalizeAll interpret).1, call.toolId = id := by
  obtain ⟨key, p, hp, hnamed⟩ := h
  obtain ⟨call, hcall, hid⟩ := hnamed.finalize interpret
  exact ⟨call, mem_filterMap.2 ⟨(key, p), AssocMap.mem_iter.2 hp, hcall⟩, hid⟩

end PendingToolCalls

end ToolCallAccumulator

namespace StreamProcessor

open HiddenText ToolCallAccumulator

variable {σ γ ι π : Type}

/-- The tool calls that an event announces. -/
def detectedIn : AgenticEvent γ → List String
  | .toolEvent _ _ _ _ _ (.earlyDetected identity) => [identity.toolId]
  | _ => []

namespace StreamContext

variable {ctx ctx' : StreamContext σ γ ι π}

/-- What the result knows of tool calls. -/
structure KnowsTools (ctx : StreamContext σ γ ι π) : Prop where
  ids : ctx.finalizedToolCallIds = ctx.toolCalls.map ToolCall.toolId
  nodup : ctx.finalizedToolCallIds.Nodup
  /-- A call that was announced is recorded or pending. -/
  detected : ∀ id ∈ ctx.events.flatMap detectedIn,
    id ∈ ctx.finalizedToolCallIds ∨ PendingToolCalls.Held id ctx.pendingToolCalls

/-- Nothing about tool calls changed. -/
structure SameTools (ctx ctx' : StreamContext σ γ ι π) : Prop where
  ids : ctx'.finalizedToolCallIds = ctx.finalizedToolCallIds
  calls : ctx'.toolCalls = ctx.toolCalls
  pending : ctx'.pendingToolCalls = ctx.pendingToolCalls
  detected : ctx'.events.flatMap detectedIn = ctx.events.flatMap detectedIn

theorem SameTools.trans {ctx'' : StreamContext σ γ ι π} (h : ctx.SameTools ctx')
    (h' : ctx'.SameTools ctx'') : ctx.SameTools ctx'' :=
  ⟨h'.ids.trans h.ids, h'.calls.trans h.calls, h'.pending.trans h.pending,
    h'.detected.trans h.detected⟩

theorem KnowsTools.same (h : ctx.KnowsTools) (hsame : ctx.SameTools ctx') : ctx'.KnowsTools where
  ids := by rw [hsame.ids, hsame.calls, h.ids]
  nodup := by
    rw [hsame.ids]
    exact h.nodup
  detected := by
    rw [hsame.ids, hsame.pending, hsame.detected]
    exact h.detected

theorem knowsTools_new (options : StreamProcessOptions) :
    (StreamContext.new options : StreamContext σ γ ι π).KnowsTools :=
  ⟨rfl, nodup_nil, by simp [StreamContext.new]⟩

/-! ## What leaves tool calls alone -/

theorem sameTools_sendThinkingEnd (ctx : StreamContext σ γ ι π)
    (kind : Option ReasoningContentKind) : ctx.SameTools (ctx.sendThinkingEnd kind) := by
  rw [sendThinkingEnd]
  split
  · exact ⟨rfl, rfl, rfl, rfl⟩
  · exact ⟨rfl, rfl, rfl, by simp [enqueue, thinkingChunk, detectedIn]⟩

theorem sameTools_sendThinkingEndIfNeeded (ctx : StreamContext σ γ ι π) :
    ctx.SameTools ctx.sendThinkingEndIfNeeded := by
  have hall : ∀ (kinds : List (Option ReasoningContentKind)) (ctx : StreamContext σ γ ι π),
      ctx.SameTools (kinds.foldl sendThinkingEnd ctx) := by
    intro kinds
    induction kinds with
    | nil => exact fun ctx => ⟨rfl, rfl, rfl, rfl⟩
    | cons kind kinds ih =>
      exact fun ctx => (sameTools_sendThinkingEnd ctx kind).trans (ih (ctx.sendThinkingEnd kind))
  exact hall ctx.thinkingStreams ctx

theorem sameTools_showText (ctx : StreamContext σ γ ι π) (parsed : HiddenTextChunk) :
    ctx.SameTools (ctx.showText parsed) := by
  rw [showText]
  simp only
  split
  · exact ⟨rfl, rfl, rfl, rfl⟩
  · exact ⟨rfl, rfl, rfl, by simp [enqueue, textChunk, detectedIn]⟩

theorem sameTools_handleTextChunk (ctx : StreamContext σ γ ι π) (text : List Char) :
    ctx.SameTools (ctx.handleTextChunk text) := by
  have hshow := sameTools_showText
    { ctx with hiddenTextParser := (ctx.hiddenTextParser.pushStr text).2 }
    (ctx.hiddenTextParser.pushStr text).1
  exact ⟨hshow.ids, hshow.calls, hshow.pending, hshow.detected⟩

theorem sameTools_flushHiddenTextTail (ctx : StreamContext σ γ ι π) :
    ctx.SameTools ctx.flushHiddenTextTail := by
  have hshow := sameTools_showText
    { ctx with hiddenTextParser := ctx.hiddenTextParser.finish.2 }
    ctx.hiddenTextParser.finish.1
  exact ⟨hshow.ids, hshow.calls, hshow.pending, hshow.detected⟩

theorem sameTools_handleThinkingChunk (ctx : StreamContext σ γ ι π) (content : List Char)
    (kind : Option ReasoningContentKind) :
    ctx.SameTools (ctx.handleThinkingChunk content kind) := by
  have hevents : (ctx.handleThinkingChunk content kind).events =
      ctx.events ++ [ctx.thinkingChunk content kind false] := by
    rw [handleThinkingChunk.eq_def]
    rcases kind with _ | _ | _ <;> simp only <;> split <;> rfl
  refine ⟨?_, ?_, ?_, by simp [hevents, thinkingChunk, detectedIn]⟩
  all_goals
    rw [handleThinkingChunk.eq_def]
    rcases kind with _ | _ | _ <;> simp only <;> split <;> rfl

theorem sameTools_noteResponse (ctx : StreamContext σ γ ι π) (response : UnifiedResponse π) :
    ctx.SameTools (ctx.noteResponse response) := by
  rw [noteResponse]
  refine ⟨?_, ?_, ?_, ?_⟩
  all_goals
    split <;> split <;> rfl

/-! ## Recording tool calls -/

variable (interpret : ToolCallFinalizeOptions → String → List Char → ι) (newUuid : ℕ → String)

/-- What recording a call changes. -/
structure Records (ctx ctx' : StreamContext σ γ ι π) : Prop where
  events : ctx'.events = ctx.events
  pending : ctx'.pendingToolCalls = ctx.pendingToolCalls
  ids : ctx.finalizedToolCallIds = ctx.toolCalls.map ToolCall.toolId →
    ctx'.finalizedToolCallIds = ctx'.toolCalls.map ToolCall.toolId
  nodup : ctx.finalizedToolCallIds.Nodup → ctx'.finalizedToolCallIds.Nodup
  subset : ∀ id ∈ ctx.finalizedToolCallIds, id ∈ ctx'.finalizedToolCallIds

theorem Records.trans {ctx'' : StreamContext σ γ ι π} (h : ctx.Records ctx')
    (h' : ctx'.Records ctx'') : ctx.Records ctx'' where
  events := h'.events.trans h.events
  pending := h'.pending.trans h.pending
  ids := fun hids => h'.ids (h.ids hids)
  nodup := fun hnodup => h'.nodup (h.nodup hnodup)
  subset := fun id hid => h'.subset id (h.subset id hid)

theorem records_recordFinalizedToolCall (ctx : StreamContext σ γ ι π)
    (call : FinalizedToolCall ι) : ctx.Records (ctx.recordFinalizedToolCall newUuid call) := by
  rw [recordFinalizedToolCall]
  generalize (if call.toolId = "" then newUuid ctx.toolCalls.length else call.toolId) = toolId
  by_cases hmem : toolId ∈ ctx.finalizedToolCallIds
  · rw [if_pos hmem]
    exact ⟨rfl, rfl, id, id, fun _ => id⟩
  · rw [if_neg hmem]
    refine ⟨rfl, rfl, fun hids => ?_, fun hnodup => ?_, fun id hid => ?_⟩
    · simp [hids]
    · have hconcat := hnodup.concat hmem
      rwa [concat_eq_append] at hconcat
    · exact mem_append_left _ hid

/-- A call with an id is recorded under it. -/
theorem mem_recordFinalizedToolCall (ctx : StreamContext σ γ ι π) {call : FinalizedToolCall ι}
    (h : call.toolId ≠ "") :
    call.toolId ∈ (ctx.recordFinalizedToolCall newUuid call).finalizedToolCallIds := by
  rw [recordFinalizedToolCall]
  simp only [if_neg h]
  by_cases hmem : call.toolId ∈ ctx.finalizedToolCallIds
  · rw [if_pos hmem]
    exact hmem
  · rw [if_neg hmem]
    simp

theorem records_foldl (calls : List (FinalizedToolCall ι)) : ∀ ctx : StreamContext σ γ ι π,
    ctx.Records (calls.foldl (fun ctx call => ctx.recordFinalizedToolCall newUuid call) ctx) ∧
      ∀ call ∈ calls, call.toolId ≠ "" → call.toolId ∈
        (calls.foldl (fun ctx call => ctx.recordFinalizedToolCall newUuid call)
          ctx).finalizedToolCallIds := by
  induction calls with
  | nil => exact fun ctx => ⟨⟨rfl, rfl, id, id, fun _ => id⟩, by simp⟩
  | cons call calls ih =>
    intro ctx
    have hone := records_recordFinalizedToolCall newUuid ctx call
    obtain ⟨hrest, hall⟩ := ih (ctx.recordFinalizedToolCall newUuid call)
    refine ⟨hone.trans hrest, fun c hc hne => ?_⟩
    rcases mem_cons.1 hc with rfl | hc
    · exact hrest.subset _ (mem_recordFinalizedToolCall newUuid ctx hne)
    · exact hall c hc hne

/-- At a boundary all calls are recorded. -/
theorem KnowsTools.finalizeAll (h : ctx.KnowsTools) (completion : ToolCallCompletion) :
    (ctx.finalizeAllPendingToolCalls interpret newUuid completion).KnowsTools ∧
      ∀ id ∈ (ctx.finalizeAllPendingToolCalls interpret newUuid completion).events.flatMap
          detectedIn,
        id ∈ (ctx.finalizeAllPendingToolCalls interpret newUuid
          completion).finalizedToolCallIds := by
  obtain ⟨hrecords, hall⟩ := records_foldl newUuid (PendingToolCalls.finalizeAll
    (interpret ⟨completion, ctx.options.allowNormalToolJsonRepair⟩) ctx.pendingToolCalls).1
    { ctx with pendingToolCalls := ∅ }
  have hdetected : ∀ id ∈ (ctx.finalizeAllPendingToolCalls interpret newUuid
      completion).events.flatMap detectedIn,
      id ∈ (ctx.finalizeAllPendingToolCalls interpret newUuid completion).finalizedToolCallIds := by
    intro id hid
    have hevents : (ctx.finalizeAllPendingToolCalls interpret newUuid completion).events =
        ctx.events := hrecords.events
    rw [hevents] at hid
    rcases h.detected id hid with hmem | hheld
    · exact hrecords.subset id hmem
    · have hne : id ≠ "" := by
        obtain ⟨key, p, hp, hnamed⟩ := hheld
        exact hnamed.id_ne
      obtain ⟨call, hcall, rfl⟩ :=
        hheld.finalizeAll (interpret ⟨completion, ctx.options.allowNormalToolJsonRepair⟩)
      exact hall call hcall hne
  exact ⟨⟨hrecords.ids h.ids, hrecords.nodup h.nodup, fun id hid => .inl (hdetected id hid)⟩,
    hdetected⟩

/-- An event about a call that is recorded or pending. -/
theorem KnowsTools.showTool (h : ctx.KnowsTools) {event : ToolEventData γ}
    (hevent : ∀ id ∈ detectedIn (ctx.toolEvent event),
      id ∈ ctx.finalizedToolCallIds ∨ PendingToolCalls.Held id ctx.pendingToolCalls) :
    (ctx.showTool event).KnowsTools := by
  refine ⟨h.ids, h.nodup, fun id hid => ?_⟩
  have hevents : (ctx.showTool event).events = ctx.events ++ [ctx.toolEvent event] := rfl
  rw [hevents, flatMap_append, flatMap_singleton] at hid
  rcases mem_append.1 hid with hid | hid
  · exact h.detected id hid
  · exact hevent id hid

/-- Several events about calls that are recorded or pending. -/
theorem KnowsTools.showTools (events : List (ToolEventData γ)) :
    ∀ {ctx : StreamContext σ γ ι π}, ctx.KnowsTools →
      (∀ event ∈ events, ∀ id ∈ detectedIn (ctx.toolEvent event),
        id ∈ ctx.finalizedToolCallIds ∨ PendingToolCalls.Held id ctx.pendingToolCalls) →
      (events.foldl StreamContext.showTool ctx).KnowsTools := by
  induction events with
  | nil => exact fun h _ => h
  | cons event events ih =>
    intro ctx h hevents
    obtain ⟨hevent, hrest⟩ := forall_mem_cons.1 hevents
    exact ih (h.showTool hevent) hrest

variable (ui : OpenUi σ (ToolEventIdentity × γ))

/-- Only an early detection announces a call. -/
theorem detectedIn_toolEventsOf {outcome : ToolCallDeltaOutcome (ToolEventIdentity × γ) ι}
    {event : ToolEventData γ} (hevent : event ∈ toolEventsOf outcome) {id : String}
    (hid : id ∈ detectedIn (ctx.toolEvent event)) :
    ∃ detected, outcome.earlyDetected = some detected ∧ detected.toolId = id := by
  simp only [toolEventsOf, mem_append, Option.mem_toList, Option.map_eq_some_iff] at hevent
  rcases hevent with (⟨detected, hdetected, rfl⟩ | ⟨params, -, rfl⟩) | ⟨stream, -, rfl⟩
  · exact ⟨detected, hdetected, (mem_singleton.1 hid).symm⟩
  · exact absurd hid not_mem_nil
  · exact absurd hid not_mem_nil

theorem KnowsTools.handleToolCallChunk (h : ctx.KnowsTools) (toolCall : UnifiedToolCall) :
    (ctx.handleToolCallChunk ui interpret newUuid toolCall).KnowsTools := by
  rw [StreamContext.handleToolCallChunk]
  generalize happlied : ctx.pendingToolCalls.applyDelta ui (interpret .default)
    (deltaOf toolCall) = applied
  obtain ⟨hrecords, hall⟩ := records_foldl newUuid applied.1.finalizedPrevious.toList
    { ctx with pendingToolCalls := applied.2 }
  refine KnowsTools.showTools _ ⟨hrecords.ids h.ids, hrecords.nodup h.nodup, fun id hid => ?_⟩ ?_
  · rw [hrecords.events] at hid
    rw [hrecords.pending]
    rcases h.detected id hid with hmem | hheld
    · exact .inl (hrecords.subset id hmem)
    · -- the call stays pending, or it is the one that ended
      have hkept := hheld.applyDelta ui (interpret .default) (deltaOf toolCall)
      rw [happlied] at hkept
      rcases hkept with hkeep | ⟨call, hcall, rfl⟩
      · exact .inr hkeep
      · obtain ⟨key, p, hp, hnamed⟩ := hheld
        exact .inl (hall call (Option.mem_toList.2 hcall) hnamed.id_ne)
  · intro event hevent id hid
    obtain ⟨detected, hdetected, rfl⟩ := detectedIn_toolEventsOf hevent hid
    rw [← happlied] at hdetected
    have hheld := PendingToolCalls.held_of_detected ui (interpret .default) hdetected
    rw [happlied] at hheld
    rw [hrecords.pending]
    exact .inr hheld

/-! ## The whole stream -/

theorem noteMetadata_eq (ctx : StreamContext σ γ ι π) (response : UnifiedResponse π) :
    ∃ usage metadata replay, ctx.noteMetadata response = { ctx with
      usage := usage
      providerMetadata := metadata
      modelResponseReplay := replay } := by
  rcases response with ⟨_, _, _, _, _, _, _ | usage, _, _, _ | overlay, _ | replay⟩ <;>
    rcases ctx with ⟨_, _, _, _, _, _, _, _, _, _, _, _, _, _ | existing⟩ <;> exact ⟨_, _, _, rfl⟩

theorem sameTools_noteMetadata (ctx : StreamContext σ γ ι π) (response : UnifiedResponse π) :
    ctx.SameTools (ctx.noteMetadata response) := by
  obtain ⟨_, _, _, hnoted⟩ := ctx.noteMetadata_eq response
  rw [hnoted]
  exact ⟨rfl, rfl, rfl, rfl⟩

theorem sameTools_noteReasoning (ctx : StreamContext σ γ ι π) (response : UnifiedResponse π) :
    ctx.SameTools (ctx.noteReasoning response) := by
  rw [noteReasoning]
  cases response.reasoningContent with
  | none => exact ⟨rfl, rfl, rfl, rfl⟩
  | some content =>
    have hsame : ctx.SameTools { ctx with reasoningContentPresent := true } :=
      ⟨rfl, rfl, rfl, rfl⟩
    simp only
    split
    · exact hsame
    · exact hsame.trans (sameTools_handleThinkingChunk _ content response.reasoningContentKind)

theorem KnowsTools.noteFinishReason (h : ctx.KnowsTools) (response : UnifiedResponse π) :
    (ctx.noteFinishReason interpret newUuid response).KnowsTools := by
  rw [StreamContext.noteFinishReason]
  split
  · have hall := (h.finalizeAll interpret newUuid (response.toolCallCompletion.getD .unknown)).1
    simp only
    split
    · exact ⟨hall.ids, hall.nodup, hall.detected⟩
    · exact hall
  · exact h

theorem sameTools_noteText (ctx : StreamContext σ γ ι π) (response : UnifiedResponse π) :
    ctx.SameTools (ctx.noteText response) := by
  rw [noteText]
  split
  · exact (sameTools_sendThinkingEndIfNeeded ctx).trans (sameTools_handleTextChunk _ _)
  · exact ⟨rfl, rfl, rfl, rfl⟩

theorem KnowsTools.noteToolCall (h : ctx.KnowsTools) (response : UnifiedResponse π) :
    (ctx.noteToolCall ui interpret newUuid response).KnowsTools := by
  rw [StreamContext.noteToolCall]
  split
  · exact (h.same (sameTools_sendThinkingEndIfNeeded ctx)).handleToolCallChunk interpret newUuid
      ui _
  · exact h

/-- **One response.** -/
theorem KnowsTools.handleResponse (h : ctx.KnowsTools) (response : UnifiedResponse π) :
    (ctx.handleResponse ui interpret newUuid response).KnowsTools := by
  have htext : (((ctx.noteResponse response).noteReasoning response).noteText
      response).KnowsTools :=
    h.same ((sameTools_noteResponse ctx response).trans
      ((sameTools_noteReasoning _ response).trans (sameTools_noteText _ response)))
  have htool := htext.noteToolCall interpret newUuid ui response
  exact (htool.same (sameTools_noteMetadata _ response)).noteFinishReason interpret newUuid response

/-- A stream that stops with some output. -/
theorem KnowsTools.recoverPartial (h : ctx.KnowsTools) (reason : List Char) :
    (ctx.recoverPartial interpret newUuid reason).KnowsTools := by
  have hall := ((h.same (sameTools_sendThinkingEndIfNeeded ctx)).finalizeAll interpret newUuid
    .interrupted).1
  exact ⟨hall.ids, hall.nodup, hall.detected⟩

/-- **The loop**, by induction over the stream. -/
theorem KnowsTools.processItems (items : List (StreamItem π)) :
    ∀ {ctx ctx' : StreamContext σ γ ι π}, ctx.KnowsTools →
      ctx.processItems ui interpret newUuid items = .ok ctx' → ctx'.KnowsTools := by
  induction items with
  | nil =>
    intro ctx ctx' h hrun
    cases hrun
    exact h
  | cons item items ih =>
    intro ctx ctx' h hrun
    cases item with
    | response response => exact ih (h.handleResponse interpret newUuid ui response) hrun
    | failed failure =>
      rw [StreamContext.processItems, handleFailure] at hrun
      split at hrun
      · cases hrun
        exact h.recoverPartial interpret newUuid _
      · cases hrun
    | timedOut =>
      rw [StreamContext.processItems, handleTimeout] at hrun
      split at hrun
      · cases hrun
        exact h.recoverPartial interpret newUuid _
      · cases hrun

theorem sameTools_noteTokenLimit (ctx : StreamContext σ γ ι π) :
    ctx.SameTools ctx.noteTokenLimit := by
  rw [noteTokenLimit]
  split
  · split
    · exact ⟨rfl, rfl, rfl, rfl⟩
    · exact ⟨rfl, rfl, rfl, rfl⟩
  · exact ⟨rfl, rfl, rfl, rfl⟩

/-- What comes after the loop: every call that was announced is recorded. -/
theorem KnowsTools.finish (h : ctx.KnowsTools) :
    ((ctx.finish interpret newUuid).toolCalls.map ToolCall.toolId).Nodup ∧
      ∀ id ∈ (ctx.finish interpret newUuid).events.flatMap detectedIn,
        id ∈ (ctx.finish interpret newUuid).toolCalls.map ToolCall.toolId := by
  have hflush := h.same ((sameTools_sendThinkingEndIfNeeded ctx).trans
    (sameTools_flushHiddenTextTail _))
  obtain ⟨hall, hdetected⟩ := hflush.finalizeAll interpret newUuid .unknown
  have hlimit := sameTools_noteTokenLimit
    (ctx.sendThinkingEndIfNeeded.flushHiddenTextTail.finalizeAllPendingToolCalls interpret newUuid
      .unknown)
  have hids := (hall.same hlimit).ids
  rw [StreamContext.finish, ← hids]
  refine ⟨(hall.same hlimit).nodup, ?_⟩
  rw [hlimit.detected, hlimit.ids]
  exact hdetected

end StreamContext

end StreamProcessor

end OpenBitFun
