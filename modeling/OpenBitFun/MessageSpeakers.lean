import Mathlib
import OpenBitFun.MessageConverters

/-!
# Whose turn it is

Anthropic and Gemini take a history in which two speakers alternate. Both converters merge what one
speaker says in a row, each in its own way.
-/

namespace OpenBitFun

namespace MessageConverters

open Json List

/-- The speaker of a turn with a list of blocks. -/
def speaker (field : String) (v : Value) : Option String :=
  if ((v.get field).bind Value.asArray).isSome then (v.get "role").bind Value.asStr else none

/-- **The speakers alternate.** -/
structure Alternates (field : String) (speakers : List String) (turns : List Value) : Prop where
  differ : (turns.map (speaker field)).IsChain (· ≠ ·)
  known : ∀ s ∈ turns.map (speaker field), s ∈ speakers.map some

variable (fromStr : String → Option Value) {field : String} {speakers : List String}
  {turns : List Value}

theorem speaker_ofFields (hfield : field ≠ "role") (role : String) (blocks : List Value) :
    speaker field (ofFields [("role", .string role), (field, .array blocks)]) = some role := by
  simp [speaker, get_ofFields, lastField, hfield, Value.asStr, Value.asArray]

theorem speaker_eq_some {v : Value} {role : String} (h : speaker field v = some role) :
    ∃ blocks, (v.get field).bind Value.asArray = some blocks ∧
      (v.get "role").bind Value.asStr = some role := by
  rw [speaker] at h
  split at h
  · rename_i hsome
    obtain ⟨blocks, hblocks⟩ := Option.isSome_iff_exists.1 hsome
    exact ⟨blocks, hblocks, h⟩
  · cases h

/-- A change of the blocks keeps the speaker. -/
theorem speaker_modify {v : Value} (hfield : field ≠ "role") {f : Value → Value}
    (hf : ∀ x ∈ v.get field, (f x).asArray.isSome = x.asArray.isSome) :
    speaker field (v.modify field f) = speaker field v := by
  rw [speaker, get_modify, if_pos rfl, get_modify, if_neg hfield.symm, speaker]
  cases hget : v.get field with
  | none => rfl
  | some x => rw [Option.map_some, Option.bind_some, Option.bind_some, hf x hget]

theorem speaker_addBlocks {v : Value} (hfield : field ≠ "role") {blocks : List Value}
    (h : (v.get field).bind Value.asArray = some blocks) (blocks' : List Value) :
    speaker field (v.modify field fun _ => .array blocks') = speaker field v := by
  refine speaker_modify hfield fun x hx => ?_
  rw [hx, Option.bind_some] at h
  rw [h]
  rfl

theorem Alternates.congr {turns' : List Value} (h : Alternates field speakers turns)
    (hsame : turns'.map (speaker field) = turns.map (speaker field)) :
    Alternates field speakers turns' :=
  ⟨hsame ▸ h.differ, hsame ▸ h.known⟩

/-- One more turn, where `merge` tells what the last one becomes. -/
theorem Alternates.add {v : Value} (h : Alternates field speakers turns)
    (hv : speaker field v ∈ speakers.map some) {merge : Value → Option Value}
    (hsome : ∀ last w, merge last = some w → speaker field w = speaker field last)
    (hnone : ∀ last, speaker field last = speaker field v → merge last ≠ none) :
    Alternates field speakers (match turns.getLast?.bind merge with
      | some last => turns.dropLast ++ [last]
      | none => turns ++ [v]) := by
  rcases eq_nil_or_concat turns with rfl | ⟨before, last, rfl⟩
  · exact ⟨isChain_singleton _, by simpa using hv⟩
  · rw [concat_eq_append] at h ⊢
    rw [getLast?_concat, Option.bind_some, dropLast_concat]
    cases hmerge : merge last with
    | some w => exact h.congr (by simp [hsome last w hmerge])
    | none =>
      have hne := fun heq => hnone last heq hmerge
      refine ⟨?_, ?_⟩ <;> rw [map_append]
      · exact isChain_append.2 ⟨h.differ, isChain_singleton _, by simpa using hne⟩
      · exact forall_mem_append.2 ⟨h.known, by simpa using hv⟩

theorem alternates_pushContent (h : Alternates "parts" ["user", "model"] turns) {role : String}
    (hrole : role ∈ ["user", "model"]) (parts : List Value) :
    Alternates "parts" ["user", "model"] (Gemini.pushContent turns role parts) := by
  have hv : speaker "parts" (ofFields [("role", .string role), ("parts", .array parts)]) =
      some role := speaker_ofFields (by decide) role parts
  rw [Gemini.pushContent]
  split
  · exact h
  · refine h.add (hv ▸ mem_map_of_mem hrole) (fun last w hw => ?_) fun last hlast => ?_
    · split at hw
      · obtain ⟨existing, hexisting, rfl⟩ := Option.map_eq_some_iff.1 hw
        exact speaker_addBlocks (by decide) hexisting _
      · cases hw
    · obtain ⟨existing, hexisting, hsame⟩ := speaker_eq_some (hlast.trans hv)
      simp [hexisting, hsame]

theorem alternates_convertFrom (isGemini3 : Bool) (messages : List Message) :
    ∀ turns images, Alternates "parts" ["user", "model"] turns → Alternates "parts"
      ["user", "model"] (Gemini.convertFrom fromStr isGemini3 turns images messages) := by
  have hpush : ∀ {turns}, Alternates "parts" ["user", "model"] turns → ∀ parts,
      Alternates "parts" ["user", "model"] (Gemini.pushContent turns "user" parts) :=
    fun h => alternates_pushContent h (by decide)
  induction messages with
  | nil => exact fun turns images h => hpush h images
  | cons msg messages ih =>
    intro turns images h
    rw [Gemini.convertFrom]
    split
    · dsimp only
      split
      · exact ih _ _ h
      · exact ih _ _ (hpush h _)
    · refine ih _ _ ?_
      split
      · exact hpush (hpush h _) _
      · split
        · exact alternates_pushContent (hpush h _) (by decide) _
        · exact hpush h _

theorem alternates_mergeConsecutive {messages : List Value}
    (h : ∀ v ∈ messages, speaker "content" v ∈ ["user", "assistant"].map some) :
    Alternates "content" ["user", "assistant"] (Anthropic.mergeConsecutive messages) := by
  refine foldlRecOn messages _ ⟨.nil, nofun⟩ fun turns hturns v hv => ?_
  refine hturns.add (h v hv) (fun last w hw => ?_) fun last hlast => ?_
  · rw [Anthropic.mergeInto] at hw
    split at hw
    · split at hw
      · cases hw
        exact speaker_addBlocks (by decide) ‹_› _
      · cases hw
    · cases hw
  · obtain ⟨role, hrole, hspeaker⟩ := mem_map.1 (h v hv)
    obtain ⟨_, hblocks, hsame⟩ := speaker_eq_some (hlast.trans hspeaker.symm)
    obtain ⟨_, hblocks', hrole'⟩ := speaker_eq_some hspeaker.symm
    have hknown : role = "user" ∨ role = "assistant" := by simpa using hrole
    simp [Anthropic.mergeInto, Anthropic.roleOf, hblocks, hblocks', hsame, hrole', hknown]

theorem speaker_convertMessage {msg : Message} {v : Value}
    (h : Anthropic.convertMessage fromStr msg = some v) :
    speaker "content" v ∈ ["user", "assistant"].map some := by
  have hblocks : ∀ role blocks,
      speaker "content" (Anthropic.blocksMessage role (.array blocks)) = some role :=
    speaker_ofFields (by decide)
  rw [Anthropic.convertMessage, Anthropic.convertUserMessage,
    Anthropic.convertAssistantMessage] at h
  grind [Anthropic.convertToolResultMessage]

/-- The white space is trimmed in the blocks of the last turn. -/
theorem map_speaker_trim (turns : List Value) :
    (Anthropic.trimFinalAssistant turns).map (speaker "content") =
      turns.map (speaker "content") := by
  rw [Anthropic.trimFinalAssistant]
  generalize hf : (fun last : Value => _) = f
  have hkeep : ∀ v, speaker "content" (f v) = speaker "content" v := by
    intro v
    subst hf
    dsimp only
    split
    · exact speaker_modify (by decide) fun x _ => by cases x <;> rfl
    · rfl
  fun_induction modifyLast f turns with
  | case1 => rfl
  | case2 v => simp [hkeep]
  | case3 v w turns ih => exact congrArg (speaker "content" v :: ·) ih

/-- **The speakers alternate** in what is sent, for every history. -/
theorem speakers_alternate (messages : List Message) (modelName : String) :
    Alternates "content" ["user", "assistant"] (Anthropic.convertMessages fromStr messages).2 ∧
      Alternates "parts" ["user", "model"]
        (Gemini.convertMessages fromStr messages modelName).2 := by
  refine ⟨?_, alternates_convertFrom fromStr _ messages [] [] ⟨.nil, nofun⟩⟩
  have hknown : ∀ v ∈ messages.filterMap (Anthropic.convertMessage fromStr),
      speaker "content" v ∈ ["user", "assistant"].map some := by
    intro v hv
    obtain ⟨msg, -, hmsg⟩ := mem_filterMap.1 hv
    exact speaker_convertMessage fromStr hmsg
  exact (alternates_mergeConsecutive hknown).congr (map_speaker_trim _)

end MessageConverters

end OpenBitFun
