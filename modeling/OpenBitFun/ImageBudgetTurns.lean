import OpenBitFun.ImageBudgetWire

/-!
# Images in turns

Anthropic and Gemini join what one side says to turns. The images of a turn are those of the
messages in it: Anthropic's format sends all of them, and Gemini's no more.
-/

namespace OpenBitFun

open List

namespace ImageBudget

open Json MessageConverters

variable {fromStr : String → Option Value}

/-! ## Anthropic -/

namespace Anthropic

theorem messageImages_blocksMessage (role : String) (content : Value) :
    messageImages .anthropic (Anthropic.blocksMessage role content) =
      if role = "user" then wireImages content else 0 := by
  rw [messageImages, Anthropic.blocksMessage, roleOf, fieldImages, get_ofFields, get_ofFields]
  simp [lastField, Value.asStr]

theorem wireImages_toolContent {msg : Message}
    (hmime : ∀ image ∈ msg.toolImageAttachments.getD [], isImageMime image.mimeType) :
    wireImages (Anthropic.toolContent msg) = (msg.toolImageAttachments.getD []).length := by
  rw [Anthropic.toolContent]
  cases himages : msg.attachments? with
  | none =>
    have hnil : msg.toolImageAttachments.getD [] = [] := by
      cases hsome : msg.toolImageAttachments with
      | none => rfl
      | some images => simpa [Message.attachments?, hsome] using himages
    rw [hnil]
    rfl
  | some attachments =>
    have hsome : msg.toolImageAttachments = some attachments :=
      (Option.filter_eq_some_iff.1 himages).1
    rw [hsome, Option.getD_some] at hmime ⊢
    simp only [wireImages]
    rw [wireImagesAll_append, wireImagesAll, wireImages_text (by decide), wireImagesAll,
      Nat.add_zero]
    clear himages hsome
    induction attachments with
    | nil => rfl
    | cons attachment attachments ih =>
      obtain ⟨hone, hall⟩ := forall_mem_cons.1 hmime
      have hsource : isImagePart (ofFields [("type", .string "base64"),
          ("media_type", .string attachment.mimeType),
          ("data", .string attachment.dataBase64)]) = false := by
        apply isImagePart_eq_false
        · simp [typeOf, get_ofFields, lastField, Value.asStr]
        · simp [get_ofFields, lastField]
        · simp [get_ofFields, lastField]
      have himage : isImagePart (ofFields [("type", .string "image"),
          ("source", ofFields [("type", .string "base64"),
            ("media_type", .string attachment.mimeType),
            ("data", .string attachment.dataBase64)])]) := by
        simp [isImagePart, typeOf, get_ofFields, lastField, Value.asStr, isImageSource, hone]
      rw [map_cons, wireImagesAll, ih hall, length_cons, Nat.add_comm,
        wireImages_ofFields (by simp), if_pos himage, wireImagesFields, wireImagesFields,
        wireImages_ofFields_eq_zero (by simp) rfl hsource]
      rfl

theorem messageImages_convertToolResultMessage {msg : Message}
    (hmime : ∀ image ∈ msg.toolImageAttachments.getD [], isImageMime image.mimeType) :
    messageImages .anthropic (Anthropic.convertToolResultMessage msg) =
      (msg.toolImageAttachments.getD []).length := by
  rw [Anthropic.convertToolResultMessage]
  have hblock : ∀ isError, isError = [] ∨ isError = [("is_error", Value.bool true)] →
      wireImages (ofFields ([("type", .string "tool_result"),
        ("tool_use_id", .string (msg.toolCallId.getD "")),
        ("content", Anthropic.toolContent msg)] ++ isError)) =
          wireImages (Anthropic.toolContent msg) := by
    rintro isError (rfl | rfl)
    · rw [wireImages_ofFields (by simp), isImagePart_eq_false]
      · simp [wireImagesFields, wireImages]
      · simp [typeOf, get_ofFields, lastField, Value.asStr]
      · simp [get_ofFields, lastField]
      · simp [get_ofFields, lastField]
    · rw [wireImages_ofFields (by simp), isImagePart_eq_false]
      · simp [wireImagesFields, wireImages]
      · simp [typeOf, get_ofFields, lastField, Value.asStr]
      · simp [get_ofFields, lastField]
      · simp [get_ofFields, lastField]
  rw [messageImages_blocksMessage, if_pos rfl, wireImages, wireImagesAll, wireImagesAll,
    Nat.add_zero, hblock, wireImages_toolContent hmime]
  split
  · exact .inr rfl
  · exact .inl rfl

theorem formatImages_convertMessage {msg : Message}
    (hmime : msg.role = "tool" → ∀ image ∈ msg.toolImageAttachments.getD [],
      isImageMime image.mimeType) :
    formatImages .anthropic (Anthropic.convertMessage fromStr msg).toList =
      sentImages fromStr msg := by
  rw [Anthropic.convertMessage, sentImages]
  by_cases huser : msg.role = "user"
  · have hnot : msg.role ≠ "tool" := by
      rw [huser]
      decide
    rw [if_pos huser, if_neg hnot, if_pos huser, Option.toList_some, formatImages_cons,
      Anthropic.convertUserMessage]
    cases arrayOf fromStr (msg.content.getD "") with
    | some items =>
      simp only [messageImages_blocksMessage, if_true, wireImages]
      rfl
    | none =>
      simp only [messageImages_blocksMessage, if_true, wireImages, wireImagesAll]
      rw [wireImages_text (by decide)]
      rfl
  · rw [if_neg huser, if_neg huser]
    by_cases htool : msg.role = "tool"
    · have hnot : msg.role ≠ "assistant" := by
        rw [htool]
        decide
      rw [if_neg hnot, if_pos htool, if_pos htool, Option.toList_some, formatImages_cons,
        messageImages_convertToolResultMessage (hmime htool)]
      rfl
    · rw [if_neg htool, if_neg htool]
      split
      · have hblocks : ∀ content : List Value, formatImages .anthropic (if content.isEmpty then none
            else some (Anthropic.blocksMessage "assistant" (.array content))).toList = 0 := by
          intro content
          split
          · rfl
          · rw [Option.toList_some, formatImages_cons, messageImages_blocksMessage,
              if_neg (by decide)]
            rfl
        exact hblocks _
      · rfl

theorem messageImages_mergeInto {last message merged : Value}
    (h : Anthropic.mergeInto last message = some merged) :
    messageImages .anthropic merged =
      messageImages .anthropic last + messageImages .anthropic message := by
  rw [Anthropic.mergeInto] at h
  split at h
  · next hsame =>
    obtain ⟨hroles, hrole⟩ := hsame
    split at h
    · next lastBlocks currentBlocks hlast hmessage =>
      cases h
      obtain ⟨lastContent, hlastGet, hlastArray⟩ := Option.bind_eq_some_iff.1 hlast
      obtain ⟨content, hget, harray⟩ := Option.bind_eq_some_iff.1 hmessage
      have hcontents : lastContent = .array lastBlocks ∧ content = .array currentBlocks := by
        refine ⟨?_, ?_⟩
        · cases lastContent with
          | array items => cases hlastArray; rfl
          | _ => cases hlastArray
        · cases content with
          | array items => cases harray; rfl
          | _ => cases harray
      obtain ⟨rfl, rfl⟩ := hcontents
      -- a role that is merged is written in both messages
      have hreads : ∀ v : Value, ∀ role ∈ ["user", "assistant"], Anthropic.roleOf v = role →
          roleOf v = some role := by
        intro v role hmem hv
        rw [Anthropic.roleOf] at hv
        rw [roleOf]
        cases hr : (v.get "role").bind Value.asStr with
        | none =>
          rw [hr, Option.getD_none] at hv
          subst hv
          simp at hmem
        | some r =>
          rw [hr, Option.getD_some] at hv
          rw [hv]
      have hrole' : roleOf (last.modify "content" fun _ => .array (lastBlocks ++ currentBlocks)) =
          roleOf last := by
        rw [roleOf, get_modify, if_neg (by decide), roleOf]
      have hcontent : fieldImages (last.modify "content" fun _ => .array
          (lastBlocks ++ currentBlocks)) "content" =
            wireImagesAll lastBlocks + wireImagesAll currentBlocks := by
        rw [fieldImages, get_modify, if_pos rfl, hlastGet]
        exact wireImagesAll_append ..
      simp only [messageImages, hrole', hcontent]
      rcases hrole with huser | hassistant
      · rw [hreads _ _ (by simp) (hroles.trans huser), hreads _ _ (by simp) huser, if_pos rfl,
          if_pos rfl, if_pos rfl, fieldImages, hlastGet, fieldImages, hget]
        rfl
      · rw [hreads _ _ (by simp) (hroles.trans hassistant), hreads _ _ (by simp) hassistant]
        rfl
    · cases h
  · cases h

theorem formatImages_merge (merged messages : List Value) :
    formatImages .anthropic (messages.foldl (fun merged message =>
      match merged.getLast?.bind fun last => Anthropic.mergeInto last message with
      | some last => merged.dropLast ++ [last]
      | none => merged ++ [message]) merged) =
      formatImages .anthropic merged + formatImages .anthropic messages := by
  induction messages generalizing merged with
  | nil => rfl
  | cons message messages ih =>
    rw [foldl_cons, ih, formatImages_cons]
    cases hmerge : merged.getLast?.bind fun last => Anthropic.mergeInto last message with
    | none =>
      simp only [formatImages_append, formatImages_cons, formatImages_nil]
      omega
    | some last' =>
      obtain ⟨last, hlast, hinto⟩ := Option.bind_eq_some_iff.1 hmerge
      obtain ⟨before, rfl⟩ := getLast?_eq_some_iff.1 hlast
      simp only [dropLast_concat, formatImages_append, formatImages_cons,
        messageImages_mergeInto hinto, formatImages_nil]
      omega

theorem formatImages_mergeConsecutive (messages : List Value) :
    formatImages .anthropic (Anthropic.mergeConsecutive messages) =
      formatImages .anthropic messages :=
  (formatImages_merge [] messages).trans (Nat.zero_add _)

/-- **Anthropic's format** sends all images that there are. -/
theorem formatImages_convertMessages {messages : List Message}
    (hmime : ∀ msg ∈ messages, msg.role = "tool" → ∀ image ∈ msg.toolImageAttachments.getD [],
      isImageMime image.mimeType) :
    formatImages .anthropic (Anthropic.convertMessages fromStr messages).2 =
      (messages.map (sentImages fromStr)).sum := by
  have htrim : ∀ messages, formatImages .anthropic (Anthropic.trimFinalAssistant messages) =
      formatImages .anthropic messages :=
    formatImages_modifyLast fun message => messageImages_trim _ message
  rw [Anthropic.convertMessages, htrim, formatImages_mergeConsecutive]
  induction messages with
  | nil => rfl
  | cons msg messages ih =>
    obtain ⟨hone, hall⟩ := forall_mem_cons.1 hmime
    rw [map_cons, sum_cons, ← ih hall, ← @formatImages_convertMessage fromStr msg hone,
      ← formatImages_append, filterMap_cons]
    cases Anthropic.convertMessage fromStr msg with
    | none => rfl
    | some message => rfl

end Anthropic

/-! ## Gemini -/

namespace Gemini

/-- The images in parts of Gemini's format. -/
def partImages (parts : List Value) : ℕ := (parts.map geminiPartImages).sum

theorem partImages_append (parts parts' : List Value) :
    partImages (parts ++ parts') = partImages parts + partImages parts' := by
  rw [partImages, map_append, sum_append, partImages, partImages]

theorem partImages_cons (part : Value) (parts : List Value) :
    partImages (part :: parts) = geminiPartImages part + partImages parts := by
  rw [partImages, map_cons, sum_cons, partImages]

theorem geminiPartImages_textPart (text : String) :
    geminiPartImages (Gemini.textPart text) = 0 := by
  have hnone : ∀ key ≠ "text", (Gemini.textPart text).get key = none := by
    intro key hkey
    rw [Gemini.textPart, get_ofFields, lastField, if_neg (Ne.symm hkey)]
    rfl
  rw [geminiPartImages, hnone _ (by decide)]
  refine wireImages_ofFields_eq_zero (by simp) rfl (isImagePart_eq_false ?_ ?_ ?_)
  · intro t _ htype
    rw [typeOf, ← Gemini.textPart, hnone _ (by decide)] at htype
    cases htype
  · exact hnone _ (by decide)
  · exact hnone _ (by decide)

/-- Inline data is an image if its type is one of images. -/
theorem geminiPartImages_imagePart (mimeType data : String) :
    geminiPartImages (Gemini.imagePart mimeType data) = if isImageMime mimeType then 1 else 0 := by
  have hdata : isImagePart (ofFields [("mimeType", .string mimeType), ("data", .string data)]) =
      false := by
    apply isImagePart_eq_false
    · simp [typeOf, get_ofFields, lastField]
    · simp [get_ofFields, lastField]
    · simp [get_ofFields, lastField]
  have himage : isImagePart (Gemini.imagePart mimeType data) = isImageMime mimeType := by
    simp [isImagePart, Gemini.imagePart, typeOf, inlineMedia, get_ofFields, lastField,
      Value.asStr]
  have hnone : (Gemini.imagePart mimeType data).get "functionResponse" = none := by
    simp [Gemini.imagePart, get_ofFields, lastField]
  rw [geminiPartImages, hnone]
  simp only
  rw [Gemini.imagePart, wireImages_ofFields (by simp), ← Gemini.imagePart, himage,
    wireImagesFields, wireImages_ofFields_eq_zero (by simp) rfl hdata]
  rfl

theorem geminiPartImages_imagePart_le (mimeType data : String) :
    geminiPartImages (Gemini.imagePart mimeType data) ≤ 1 := by
  rw [geminiPartImages_imagePart]
  split
  · exact Nat.le_refl 1
  · exact Nat.zero_le 1

/-- A part of a user has the images of its item. -/
theorem geminiPartImages_contentPart {item part : Value}
    (h : Gemini.contentPart false item = some part) :
    geminiPartImages part ≤ wireImages item := by
  rw [Gemini.contentPart.eq_def] at h
  cases htype : typeOf item with
  | none =>
    rw [htype] at h
    cases h
  | some type =>
    rw [htype] at h
    simp only at h
    split at h
    · obtain ⟨text, -, rfl⟩ := Option.map_eq_some_iff.1 h
      rw [geminiPartImages_textPart]
      exact Nat.zero_le _
    · split at h
      · next himage =>
        -- a URL with data is not empty, so the item is an image
        obtain ⟨url, hurl, hpart⟩ := Option.bind_eq_some_iff.1 h
        rw [Gemini.convertImageUrlToPart] at hpart
        split at hpart
        · next hdata =>
          have hne : url ≠ "" := by
            rintro rfl
            simp at hdata
          obtain ⟨⟨mimeType, data⟩, -, hpart⟩ := Option.bind_eq_some_iff.1 hpart
          simp only at hpart
          split at hpart
          · cases hpart
          · cases hpart
            have hurl' : imageUrlOf item = some url := by
              rw [imageUrlOf, htype, himage.1, if_pos rfl, hurl]
            exact (geminiPartImages_imagePart_le ..).trans
              (one_le_wireImages (isImagePart_of_url hurl' hne))
        · cases hpart
      · split at h
        · next himage =>
          split at h
          · next mimeType data hmime hdata =>
            cases h
            rw [geminiPartImages_imagePart]
            split
            · next hmedia =>
              apply one_le_wireImages
              rw [isImagePart, htype, himage.1]
              cases hsource : item.get "source" with
              | none =>
                rw [hsource] at hmime
                cases hmime
              | some source =>
                rw [hsource] at hmime hdata
                simp only [Option.bind_some] at hmime hdata
                simp [isImageSource, hmime, hdata, hmedia]
            · exact Nat.zero_le _
          · cases h
        · cases h

theorem partImages_filterMap (items : List Value) :
    partImages (items.filterMap (Gemini.contentPart false)) ≤ wireImagesAll items := by
  induction items with
  | nil => exact Nat.le_refl 0
  | cons item items ih =>
    rw [filterMap_cons, wireImagesAll]
    cases hpart : Gemini.contentPart false item with
    | none => exact ih.trans (Nat.le_add_left ..)
    | some part =>
      rw [partImages_cons]
      exact Nat.add_le_add (geminiPartImages_contentPart hpart) ih

theorem partImages_convertContentParts (text : String) :
    partImages (Gemini.convertContentParts fromStr text false) ≤
      match arrayOf fromStr text with
      | some items => wireImagesAll items
      | none => 0 := by
  have htext : partImages [Gemini.textPart text] = 0 := by
    rw [partImages_cons, geminiPartImages_textPart]
    rfl
  rw [Gemini.convertContentParts]
  split
  · exact Nat.zero_le _
  · cases arrayOf fromStr text with
    | none => exact htext.le
    | some items =>
      simp only
      split
      · rw [htext]
        exact Nat.zero_le _
      · exact partImages_filterMap items

/-- Parts that are added to the contents. -/
theorem formatImages_pushContent (contents : List Value) (role : String) (parts : List Value) :
    formatImages .gemini (Gemini.pushContent contents role parts) =
      formatImages .gemini contents + if role = "user" then partImages parts else 0 := by
  rw [Gemini.pushContent.eq_def]
  split
  · next hempty =>
    rw [isEmpty_iff.1 hempty]
    split
    · rfl
    · rfl
  · simp only
    split
    · next last' hmerge =>
      obtain ⟨last, hlast, hinto⟩ := Option.bind_eq_some_iff.1 hmerge
      clear hmerge
      obtain ⟨before, rfl⟩ := getLast?_eq_some_iff.1 hlast
      split at hinto
      · next hrole =>
        obtain ⟨existing, hexisting, rfl⟩ := Option.map_eq_some_iff.1 hinto
        obtain ⟨value, hvalue, harray⟩ := Option.bind_eq_some_iff.1 hexisting
        have hrole' : roleOf (last.modify "parts" fun _ => .array (existing ++ parts)) =
            roleOf last := by
          rw [roleOf, get_modify, if_neg (by decide), roleOf]
        have huser : roleOf last = some "user" ↔ role = "user" := by
          rw [roleOf, ← hrole]
          cases (last.get "role").bind Value.asStr with
          | none => simp
          | some r => simp
        rw [dropLast_concat, formatImages_append, formatImages_append, formatImages_cons,
          formatImages_cons, formatImages_nil, messageImages, messageImages, hrole',
          get_modify, if_pos rfl, hvalue]
        by_cases heq : role = "user"
        · rw [if_pos (huser.2 heq), if_pos (huser.2 heq), if_pos heq, Option.bind_some, harray]
          have happend := partImages_append existing parts
          simp only [partImages] at happend ⊢
          rw [Option.map_some, Option.bind_some, Value.asArray, Option.getD_some, happend,
            Option.getD_some]
          omega
        · rw [if_neg (mt huser.1 heq), if_neg (mt huser.1 heq), if_neg heq]
      · cases hinto
    · rw [formatImages_append, formatImages_cons, formatImages_nil, messageImages, roleOf,
        get_ofFields, get_ofFields]
      simp [lastField, Value.asStr, Value.asArray, partImages]

theorem partImages_imageParts (attachments : List ToolImageAttachment) :
    partImages (Gemini.imageParts attachments) ≤ attachments.length := by
  induction attachments with
  | nil => exact Nat.le_refl 0
  | cons attachment attachments ih =>
    have hone := geminiPartImages_imagePart_le attachment.mimeType attachment.dataBase64
    rw [Gemini.imageParts, map_cons, partImages_cons, length_cons, Nat.add_comm]
    exact Nat.add_le_add ih hone

theorem wireImagesAll_imageParts (attachments : List ToolImageAttachment) :
    wireImagesAll (Gemini.imageParts attachments) ≤ attachments.length := by
  refine wireImagesAll_map_le (fun attachment => ?_) attachments
  have hone := geminiPartImages_imagePart_le attachment.mimeType attachment.dataBase64
  rw [geminiPartImages, Gemini.imagePart, get_ofFields, lastField] at hone
  exact hone

/-- The result of a tool takes its images with it, or they wait. -/
theorem partImages_tool (isGemini3 : Bool) (toolName : String) (msg : Message) :
    geminiPartImages (Gemini.functionResponse fromStr isGemini3 toolName msg) +
        partImages (Gemini.toolImages isGemini3 toolName msg) ≤
      (msg.toolImageAttachments.getD []).length := by
  have himages : ∀ images, msg.attachments? = some images →
      msg.toolImageAttachments.getD [] = images := by
    intro images hsome
    rw [(Option.filter_eq_some_iff.1 hsome).1, Option.getD_some]
  have hresponse : geminiPartImages (Gemini.functionResponse fromStr isGemini3 toolName msg) =
      if isGemini3 then (msg.attachments?.map fun images =>
        wireImagesAll (Gemini.imageParts images)).getD 0 else 0 := by
    rw [geminiPartImages, Gemini.functionResponse, get_ofFields, lastField, if_pos rfl,
      lastField, Option.none_or]
    simp only [fieldImages, get_ofFields, lastField_append]
    cases isGemini3 with
    | false => simp [lastField]
    | true =>
      rw [if_pos rfl, lastField_option]
      cases msg.attachments? with
      | none => simp [lastField]
      | some images => simp [lastField, wireImages]
  rw [hresponse, Gemini.toolImages]
  cases isGemini3 with
  | true =>
    rw [if_pos rfl, if_pos rfl]
    cases hsome : msg.attachments? with
    | none => exact Nat.zero_le _
    | some images =>
      rw [himages images hsome]
      exact wireImagesAll_imageParts images
  | false =>
    rw [if_neg Bool.false_ne_true, if_neg Bool.false_ne_true, Nat.zero_add]
    cases hsome : msg.attachments? with
    | none => exact Nat.zero_le _
    | some images =>
      rw [himages images hsome, partImages_cons, geminiPartImages_textPart, Nat.zero_add]
      exact partImages_imageParts images

theorem formatImages_convertFrom (isGemini3 : Bool) (contents images : List Value)
    (messages : List Message) :
    formatImages .gemini (Gemini.convertFrom fromStr isGemini3 contents images messages) ≤
      formatImages .gemini contents + partImages images +
        (messages.map (sentImages fromStr)).sum := by
  induction messages generalizing contents images with
  | nil => exact (formatImages_pushContent contents "user" images).le
  | cons msg messages ih =>
    rw [Gemini.convertFrom, map_cons, sum_cons]
    by_cases htool : msg.role = "tool"
    · have hsent : sentImages fromStr msg = (msg.toolImageAttachments.getD []).length := by
        rw [sentImages, if_pos htool]
      rw [if_pos htool]
      simp only
      split
      · have hrest := ih contents images
        omega
      · have hrest := ih (Gemini.pushContent contents "user"
          [Gemini.functionResponse fromStr isGemini3 (msg.name.getD "") msg])
          (images ++ Gemini.toolImages isGemini3 (msg.name.getD "") msg)
        have himages := @partImages_tool fromStr isGemini3 (msg.name.getD "") msg
        rw [formatImages_pushContent, if_pos rfl, partImages_cons, partImages_append] at hrest
        have hnil : partImages [] = 0 := rfl
        omega
    · rw [if_neg htool]
      simp only
      by_cases huser : msg.role = "user"
      · rw [if_pos huser]
        have hrest := ih (Gemini.pushContent (Gemini.pushContent contents "user" images) "user"
          (msg.content.toList.flatMap fun content =>
            Gemini.convertContentParts fromStr content false)) []
        rw [formatImages_pushContent, if_pos rfl, formatImages_pushContent, if_pos rfl] at hrest
        have hshown : partImages (msg.content.toList.flatMap fun content =>
            Gemini.convertContentParts fromStr content false) ≤ sentImages fromStr msg := by
          rw [sentImages, if_neg htool, if_pos huser]
          cases msg.content with
          | none => exact Nat.zero_le _
          | some content =>
            rw [Option.toList_some, flatMap_singleton, Option.getD_some]
            exact partImages_convertContentParts content
        have hnil : partImages [] = 0 := rfl
        omega
      · rw [if_neg huser]
        have hpush : formatImages .gemini (if msg.role = "assistant" then
            Gemini.pushContent (Gemini.pushContent contents "user" images) "model"
              (Gemini.assistantParts fromStr isGemini3 msg)
            else Gemini.pushContent contents "user" images) =
              formatImages .gemini contents + partImages images := by
          split
          · rw [formatImages_pushContent, if_neg (by decide), formatImages_pushContent,
              if_pos rfl, Nat.add_zero]
          · rw [formatImages_pushContent, if_pos rfl]
        have hrest := ih (if msg.role = "assistant" then
            Gemini.pushContent (Gemini.pushContent contents "user" images) "model"
              (Gemini.assistantParts fromStr isGemini3 msg)
            else Gemini.pushContent contents "user" images) []
        rw [hpush] at hrest
        have hnil : partImages [] = 0 := rfl
        omega

/-- **Gemini's format** sends no more images than there are. -/
theorem formatImages_convertMessages (messages : List Message) (modelName : String) :
    formatImages .gemini (Gemini.convertMessages fromStr messages modelName).2 ≤
      (messages.map (sentImages fromStr)).sum := by
  rw [Gemini.convertMessages]
  refine (formatImages_convertFrom _ [] [] messages).trans (le_of_eq ?_)
  rw [formatImages_nil, Nat.zero_add]
  exact Nat.zero_add _

end Gemini

end ImageBudget

end OpenBitFun
