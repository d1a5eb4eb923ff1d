import OpenBitFun.ImageBudget
import OpenBitFun.UserContent

/-!
# Images on the wire

The images of a converted conversation are counted at every depth of what users and tools say. The
formats for OpenAI's models send no more of them than the messages have.
-/

namespace OpenBitFun

namespace ImageBudget

open Json MessageConverters

/-! ## Counting -/

mutual

/-- The images in a value, at every depth (`wire_count`). -/
def wireImages : Value → ℕ
  | .array items => wireImagesAll items
  | .object fields => (if isImagePart (.object fields) then 1 else 0) + wireImagesFields fields
  | _ => 0

/-- The images in the items of an array. -/
def wireImagesAll : List Value → ℕ
  | [] => 0
  | item :: items => wireImages item + wireImagesAll items

/-- The images in the fields of an object. -/
def wireImagesFields : List (String × Value) → ℕ
  | [] => 0
  | (_, value) :: fields => wireImages value + wireImagesFields fields

end

/-- The images in a field. -/
def fieldImages (value : Value) (key : String) : ℕ := ((value.get key).map wireImages).getD 0

/-- The images in a part of Gemini's format: the response of a tool is its text. -/
def geminiPartImages (part : Value) : ℕ :=
  match part.get "functionResponse" with
  | some response => fieldImages response "parts"
  | none => wireImages part

/-- The role of a message. -/
def roleOf (message : Value) : Option String := (message.get "role").bind Value.asStr

/-- The images in what a user or a tool says. -/
def messageImages (format : Format) (message : Value) : ℕ :=
  match format with
  | .chat =>
    if roleOf message = some "user" ∨ roleOf message = some "tool" then
      fieldImages message "content"
    else 0
  | .responses =>
    if typeOf message = some "function_call_output" then fieldImages message "output"
    else if roleOf message = some "user" then fieldImages message "content"
    else 0
  | .anthropic => if roleOf message = some "user" then fieldImages message "content" else 0
  | .gemini =>
    if roleOf message = some "user" then
      ((((message.get "parts").bind Value.asArray).getD []).map geminiPartImages).sum
    else 0

/-- The images in messages of a format. -/
def formatImages (format : Format) (messages : List Value) : ℕ :=
  (messages.map (messageImages format)).sum

variable (fromStr : String → Option Value)

/-- The images that a message has. -/
def sentImages (msg : Message) : ℕ :=
  if msg.role = "tool" then (msg.toolImageAttachments.getD []).length
  else if msg.role = "user" then
    match arrayOf fromStr (msg.content.getD "") with
    | some parts => wireImagesAll parts
    | none => 0
  else 0

variable {fromStr}

/-! ## Images in built values -/

section Built

variable {value part : Value} {items parts : List Value} {fields : List (String × Value)}

theorem wireImagesAll_append (items items' : List Value) :
    wireImagesAll (items ++ items') = wireImagesAll items + wireImagesAll items' := by
  induction items with
  | nil => exact (Nat.zero_add _).symm
  | cons item items ih => rw [List.cons_append, wireImagesAll, wireImagesAll, ih, Nat.add_assoc]

theorem wireImagesFields_insertField {key : String} (h : lookup key fields = none) :
    wireImagesFields (insertField key value fields) =
      wireImages value + wireImagesFields fields := by
  induction fields with
  | nil => rfl
  | cons field fields ih =>
    obtain ⟨k, x⟩ := field
    rw [lookup] at h
    split at h
    · cases h
    · next hkey =>
      rw [insertField, if_neg (Ne.symm hkey)]
      split
      · rfl
      · rw [wireImagesFields, ih h, wireImagesFields]
        omega

/-- The images in an object that is built. -/
theorem wireImages_ofFields (hkeys : (fields.map Prod.fst).Nodup) :
    wireImages (ofFields fields) =
      (if isImagePart (ofFields fields) then 1 else 0) + wireImagesFields fields := by
  have hall : ∀ before, (∀ key ∈ fields.map Prod.fst, lookup key before = none) →
      wireImagesFields (fields.foldl (fun fields field => insertField field.1 field.2 fields)
        before) = wireImagesFields fields + wireImagesFields before := by
    induction fields with
    | nil => exact fun before _ => (Nat.zero_add _).symm
    | cons field fields ih =>
      intro before hnone
      obtain ⟨k, v⟩ := field
      obtain ⟨hnot, hnodup⟩ := List.nodup_cons.1 hkeys
      rw [List.foldl_cons, ih hnodup, wireImagesFields_insertField (hnone k List.mem_cons_self),
        wireImagesFields]
      · simp only
        omega
      · intro key hkey
        have hne : key ≠ k := fun heq => hnot (by simpa [heq] using hkey)
        rw [lookup_insertField, if_neg hne]
        exact hnone key (List.mem_cons_of_mem _ hkey)
  have hempty := hall [] fun _ _ => rfl
  rw [ofFields, wireImages, hempty, wireImagesFields]
  rfl

/-- An object of no image type, without inline data. -/
theorem isImagePart_eq_false (htype : ∀ t ∈ ["image_url", "input_image", "image"],
      typeOf value ≠ some t)
    (hsnake : value.get "inline_data" = none) (hcamel : value.get "inlineData" = none) :
    isImagePart value = false := by
  rw [isImagePart, if_neg (htype _ (by simp)), if_neg (htype _ (by simp)),
    if_neg (htype _ (by simp)), inlineMedia, hsnake, hcamel]
  rfl

theorem one_le_wireImages (h : isImagePart value) : 1 ≤ wireImages value := by
  cases value with
  | object fields =>
    rw [wireImages, if_pos h]
    exact Nat.le_add_right 1 _
  | null => cases h
  | bool => cases h
  | number => cases h
  | string => cases h
  | array => cases h

@[simp] theorem wireImages_textPart (type text : String) : wireImages (textPart type text) =
    if isImagePart (textPart type text) then 1 else 0 := by
  rw [textPart, wireImages_ofFields (by simp)]
  rfl

theorem wireImages_text {type : String} (htype : type ∉ ["image_url", "input_image", "image"])
    (text : String) : wireImages (textPart type text) = 0 := by
  rw [wireImages_textPart, isImagePart_eq_false, if_neg Bool.false_ne_true]
  · rintro t ht htype'
    rw [typeOf_textPart] at htype'
    cases htype'
    exact htype ht
  · simp
  · simp

/-- A part whose fields have no image is one image at most. -/
theorem wireImages_ofFields_le (hkeys : (fields.map Prod.fst).Nodup)
    (hfields : wireImagesFields fields = 0) : wireImages (ofFields fields) ≤ 1 := by
  rw [wireImages_ofFields hkeys, hfields]
  split
  · exact Nat.le_refl 1
  · exact Nat.zero_le 1

/-- A part whose fields have no image, and that is not one. -/
theorem wireImages_ofFields_eq_zero (hkeys : (fields.map Prod.fst).Nodup)
    (hfields : wireImagesFields fields = 0) (hnot : isImagePart (ofFields fields) = false) :
    wireImages (ofFields fields) = 0 := by
  rw [wireImages_ofFields hkeys, hfields, hnot]
  rfl

/-- The URL that the budget reads is the one that is sent. -/
theorem imageUrl_eq (value : Option Value) :
    imageUrl value = (value.bind extractImageUrlValue).any (· ≠ "") := by
  cases value with
  | none => rfl
  | some value =>
    have heq : value.asStr.or ((value.get "url").bind Value.asStr) =
        extractImageUrlValue value := by
      rw [extractImageUrlValue]
      cases value with
      | string s => rfl
      | object fields => exact Option.or_none.symm
      | null => rfl
      | bool => rfl
      | number => rfl
      | array => rfl
    rw [imageUrl, Option.bind_some, heq, Option.bind_some]

/-- A part with a URL is an image of the budget. -/
theorem isImagePart_of_url {item : Value} {url : String} (h : imageUrlOf item = some url)
    (hne : url ≠ "") : isImagePart item := by
  obtain ⟨htype, hurl⟩ := imageUrlOf_eq_some h
  rw [isImagePart, if_pos htype, imageUrl_eq, hurl]
  simpa using hne

theorem wireImagesAll_mapM_le {convert : Value → Option Value} {format : Format}
    {type : String} {sent : Value → String → Value} (h : TakesParts convert format type sent)
    (htype : type ∉ ["image_url", "input_image", "image"])
    (hsent : ∀ item url, wireImages (sent item url) ≤ if url = "" then 0 else 1)
    {items parts : List Value} (hparts : items.mapM convert = some parts) :
    wireImagesAll parts ≤ wireImagesAll items := by
  have hone : ∀ item part, convert item = some part → wireImages part ≤ wireImages item := by
    intro item part hpart
    rcases text_cases item with ⟨t, hitem, hmem⟩ | hnone
    · rw [h.text item t hitem hmem] at hpart
      obtain ⟨text, -, rfl⟩ := Option.map_eq_some_iff.1 hpart
      rw [wireImages_text htype]
      exact Nat.zero_le _
    · rw [h.image item hnone] at hpart
      obtain ⟨url, hurl, rfl⟩ := Option.map_eq_some_iff.1 hpart
      refine (hsent item url).trans ?_
      split
      · exact Nat.zero_le _
      · next hne => exact one_le_wireImages (isImagePart_of_url hurl hne)
  induction items generalizing parts with
  | nil =>
    cases hparts
    exact Nat.le_refl _
  | cons item items ih =>
    simp only [List.mapM_cons, Option.bind_eq_bind, Option.bind_eq_some_iff] at hparts
    obtain ⟨part, hpart, rest, hrest, hcons⟩ := hparts
    cases hcons
    rw [wireImagesAll, wireImagesAll]
    exact Nat.add_le_add (hone item part hpart) (ih hrest)

/-- Parts that are one image each at most. -/
theorem wireImagesAll_map_le {α : Type} {f : α → Value} (h : ∀ a, wireImages (f a) ≤ 1) :
    ∀ items : List α, wireImagesAll (items.map f) ≤ items.length
  | [] => Nat.le_refl 0
  | item :: items => by
    rw [List.map_cons, wireImagesAll, List.length_cons, Nat.add_comm]
    exact Nat.add_le_add (wireImagesAll_map_le h items) (h item)

theorem wireImages_url (url : String) (detail : Option String) :
    wireImages (ofFields (("url", .string url) ::
      detail.toList.map fun detail => ("detail", .string detail))) = 0 := by
  cases detail with
  | none =>
    refine wireImages_ofFields_eq_zero (by simp) rfl (isImagePart_eq_false ?_ ?_ ?_)
    · simp [typeOf, get_ofFields, lastField]
    · simp [get_ofFields, lastField]
    · simp [get_ofFields, lastField]
  | some detail =>
    refine wireImages_ofFields_eq_zero (by simp) rfl (isImagePart_eq_false ?_ ?_ ?_)
    · simp [typeOf, get_ofFields, lastField]
    · simp [get_ofFields, lastField]
    · simp [get_ofFields, lastField]

end Built

/-! ## Messages of a format -/

section Messages

variable {format : Format}

theorem formatImages_append (messages messages' : List Value) :
    formatImages format (messages ++ messages') =
      formatImages format messages + formatImages format messages' := by
  rw [formatImages, List.map_append, List.sum_append, formatImages, formatImages]

theorem formatImages_nil : formatImages format [] = 0 := rfl

theorem formatImages_cons (message : Value) (messages : List Value) :
    formatImages format (message :: messages) =
      messageImages format message + formatImages format messages := by
  rw [formatImages, List.map_cons, List.sum_cons, formatImages]

/-- The white space at the end of an answer is no image. -/
theorem messageImages_trim (f : Value → Value) (message : Value) :
    messageImages format (if (message.get "role").bind Value.asStr = some "assistant" then
      message.modify "content" f else message) = messageImages format message := by
  split
  · next hrole =>
    have hget : ∀ key ≠ "content", (message.modify "content" f).get key = message.get key :=
      fun key hkey => (get_modify ..).trans (if_neg hkey)
    have hrole' : roleOf (message.modify "content" f) = some "assistant" := by
      rw [roleOf, hget "role" (by decide), hrole]
    have htype : typeOf (message.modify "content" f) = typeOf message := by
      rw [typeOf, hget "type" (by decide), typeOf]
    have houtput : fieldImages (message.modify "content" f) "output" =
        fieldImages message "output" := by
      rw [fieldImages, hget "output" (by decide), fieldImages]
    have hsame : roleOf message = some "assistant" := hrole
    cases format with
    | chat => simp [messageImages, hrole', hsame]
    | responses => simp [messageImages, hrole', hsame, htype, houtput]
    | anthropic => simp [messageImages, hrole', hsame]
    | gemini => simp [messageImages, hrole', hsame]
  · rfl

theorem formatImages_modifyLast {f : Value → Value}
    (h : ∀ message, messageImages format (f message) = messageImages format message) :
    ∀ messages, formatImages format (modifyLast f messages) = formatImages format messages
  | [] => rfl
  | [message] => by
    rw [modifyLast, formatImages_cons, h, formatImages_cons]
  | message :: next :: messages => by
    rw [modifyLast, formatImages_cons, formatImages_modifyLast h (next :: messages),
      ← formatImages_cons]

end Messages

/-! ## Chat Completions -/

namespace Chat

theorem wireImages_imagePart (item : Value) (url : String) :
    wireImages (Chat.imagePart item url) ≤ if url = "" then 0 else 1 := by
  rw [Chat.imagePart]
  split
  · next hempty =>
    refine (wireImages_ofFields_eq_zero (by simp) ?_ ?_).le
    · rw [wireImagesFields, wireImagesFields, wireImages_url]
      rfl
    · have hurl : extractImageUrlValue (ofFields (("url", .string url) ::
          ((((item.get "image_url").bind fun value => value.get "detail").bind
            Value.asStr).toList.map fun detail => ("detail", Value.string detail)))) =
              some "" := by
        rw [extractImageUrlValue, get_ofFields, lastField, hempty]
        cases ((item.get "image_url").bind fun value => value.get "detail").bind Value.asStr with
        | none => rfl
        | some detail => rfl
      rw [isImagePart, typeOf, get_ofFields, get_ofFields]
      simp [lastField, Value.asStr, imageUrl_eq, hurl]
  · refine wireImages_ofFields_le (by simp) ?_
    rw [wireImagesFields, wireImagesFields, wireImages_url]
    rfl

/-- The role and the content of a message. -/
theorem get_convertSingleMessage (msg : Message) :
    roleOf (Chat.convertSingleMessage fromStr msg) = some msg.role ∧
      (Chat.convertSingleMessage fromStr msg).get "content" =
        Chat.convertContent fromStr msg := by
  have hname : ∀ key ∈ ["role", "content"], lastField key (if msg.role = "tool" then []
      else msg.name.toList.map fun name => ("name", Value.string name)) = none := by
    intro key hkey
    split
    · rfl
    · rw [lastField_option, if_neg]
      rintro rfl
      simp at hkey
  have hcontent := lastField_option "content" "content" (Chat.convertContent fromStr msg) id
  have hrole := lastField_option "role" "content" (Chat.convertContent fromStr msg) id
  rw [roleOf, Chat.convertSingleMessage, get_ofFields, get_ofFields]
  simp only [id_eq] at hcontent hrole
  simp only [lastField_append, lastField_option]
  rw [hname "role" (by simp), hname "content" (by simp), hcontent, hrole]
  simp [lastField, Value.asStr]

/-- A content is a text, or the parts of what the message says. -/
theorem convertContent_cases (msg : Message) :
    (Chat.convertContent fromStr msg = none ∨
        ∃ text, Chat.convertContent fromStr msg = some (.string text)) ∨
      ∃ text parts, msg.content = some text ∧
        Chat.parseContentParts fromStr msg.role text = some parts ∧
        Chat.convertContent fromStr msg = some (.array parts) := by
  by_cases htool : msg.role = "tool"
  · left
    rw [Chat.convertContent]
    cases msg.content with
    | none => simp [htool]
    | some text =>
      simp only [Option.map_some, Chat.parseContentParts, htool, if_true]
      right
      split
      · split
        · split
          · exact ⟨_, rfl⟩
          · exact ⟨_, rfl⟩
        · exact ⟨_, rfl⟩
      · split
        · split
          · exact ⟨_, rfl⟩
          · exact ⟨_, rfl⟩
        · exact ⟨_, rfl⟩
  · rw [Chat.convertContent]
    cases msg.content with
    | none =>
      left
      simp only [Option.map_none, htool, if_false]
      split
      · exact .inl rfl
      · exact .inr ⟨_, rfl⟩
    | some text =>
      simp only [Option.map_some, htool, false_and, if_false]
      split
      · left
        split
        · exact .inr ⟨_, rfl⟩
        · exact .inr ⟨_, rfl⟩
      · cases hparts : Chat.parseContentParts fromStr msg.role text with
        | none => exact .inl (.inr ⟨_, rfl⟩)
        | some parts => exact .inr ⟨text, parts, rfl, hparts, rfl⟩

/-- What a user or a tool says in this format. -/
theorem messageImages_convertSingleMessage (msg : Message) :
    messageImages .chat (Chat.convertSingleMessage fromStr msg) ≤
      if msg.role = "user" then sentImages fromStr msg else 0 := by
  obtain ⟨hrole, hcontent⟩ := @get_convertSingleMessage fromStr msg
  rw [messageImages, hrole, fieldImages, hcontent]
  rcases @convertContent_cases fromStr msg with
    (hnone | ⟨text, htext⟩) | ⟨text, parts, hshown, hparts, hsome⟩
  · simp [hnone]
  · simp [htext, wireImages]
  · rw [hsome, Option.map_some, Option.getD_some, wireImages]
    rw [Chat.parseContentParts] at hparts
    split at hparts
    · cases hparts
    · next hnot =>
      obtain ⟨items, hitems, hmap⟩ := Option.bind_eq_some_iff.1 hparts
      split at hmap
      · cases hmap
      · by_cases huser : msg.role = "user"
        · rw [huser] at hmap
          rw [if_pos (.inl (congrArg some huser)), if_pos huser, sentImages, if_neg hnot,
            if_pos huser, hshown, Option.getD_some, hitems]
          exact wireImagesAll_mapM_le Chat.takesParts (by decide) wireImages_imagePart hmap
        · rw [if_neg (by simp [huser, hnot])]
          exact Nat.zero_le _

/-- The images of a tool that wait for the end of its batch. -/
theorem wireImagesAll_toolImages (msg : Message) :
    wireImagesAll (Chat.toolImages msg) ≤ (msg.toolImageAttachments.getD []).length := by
  rw [Chat.toolImages]
  cases himages : msg.attachments? with
  | none => exact Nat.zero_le _
  | some attachments =>
    have hsome : msg.toolImageAttachments = some attachments :=
      (Option.filter_eq_some_iff.1 himages).1
    rw [hsome, Option.getD_some, wireImagesAll, wireImages_text (by decide), Nat.zero_add]
    refine wireImagesAll_map_le (fun attachment => ?_) attachments
    have hurl := wireImages_url (dataUrl attachment) (some "auto")
    rw [Option.toList_some, List.map_singleton] at hurl
    refine wireImages_ofFields_le (by simp) ?_
    rw [wireImagesFields, wireImagesFields, hurl]
    rfl

theorem formatImages_imageMessage (images : List Value) :
    formatImages .chat (Chat.imageMessage images) ≤ wireImagesAll images := by
  rw [Chat.imageMessage]
  split
  · exact Nat.zero_le _
  · rw [formatImages_cons, messageImages, fieldImages, roleOf, get_ofFields, get_ofFields]
    simp [lastField, wireImages, formatImages, Value.asStr]

theorem formatImages_convertFrom (images : List Value) (messages : List Message) :
    formatImages .chat (Chat.convertFrom fromStr images messages) ≤
      wireImagesAll images + (messages.map (sentImages fromStr)).sum := by
  induction messages generalizing images with
  | nil => exact formatImages_imageMessage images
  | cons msg messages ih =>
    rw [Chat.convertFrom, List.map_cons, List.sum_cons]
    split
    · next htool =>
      -- a tool says a text, and its images come with the next message
      have hshown := @messageImages_convertSingleMessage fromStr
        { msg with toolImageAttachments := none }
      have hnot : msg.role ≠ "user" := by
        rw [htool]
        decide
      rw [if_neg hnot] at hshown
      have hrest := ih (images ++ Chat.toolImages msg)
      have himages := wireImagesAll_toolImages msg
      have hsent : sentImages fromStr msg = (msg.toolImageAttachments.getD []).length := by
        rw [sentImages, if_pos htool]
      rw [wireImagesAll_append] at hrest
      rw [formatImages_cons]
      omega
    · have hshown := @messageImages_convertSingleMessage fromStr msg
      have hle : (if msg.role = "user" then sentImages fromStr msg else 0) ≤
          sentImages fromStr msg := by
        split
        · exact Nat.le_refl _
        · exact Nat.zero_le _
      have hrest := ih []
      have himages := formatImages_imageMessage images
      rw [wireImagesAll] at hrest
      rw [formatImages_append, formatImages_cons]
      omega

/-- **Chat Completions** sends no more images than there are. -/
theorem formatImages_convertMessages (messages : List Message) :
    formatImages .chat (Chat.convertMessages fromStr messages) ≤
      (messages.map (sentImages fromStr)).sum := by
  rw [Chat.convertMessages, trimFinalAssistant,
    formatImages_modifyLast fun message => messageImages_trim _ message]
  exact (formatImages_convertFrom [] messages).trans (Nat.zero_add _).le

end Chat

/-! ## Responses -/

namespace Responses

theorem wireImages_imagePart (item : Value) (url : String) :
    wireImages (Responses.imagePart item url) ≤ if url = "" then 0 else 1 := by
  rw [Responses.imagePart]
  split
  · next hempty =>
    refine (wireImages_ofFields_eq_zero (by simp) rfl ?_).le
    rw [isImagePart, typeOf, get_ofFields, get_ofFields, get_ofFields]
    simp [lastField, Value.asStr, imageUrl, hempty]
  · exact wireImages_ofFields_le (by simp) rfl

theorem messageImages_messageItem (role : String) (content : List Value) :
    messageImages .responses (Responses.messageItem role content) =
      if role = "user" then wireImagesAll content else 0 := by
  rw [messageImages, Responses.messageItem, typeOf, roleOf, fieldImages, get_ofFields,
    get_ofFields, get_ofFields]
  simp [lastField, Value.asStr, wireImages, fieldImages, get_ofFields]

theorem wireImagesAll_convertContent (text : String) :
    wireImagesAll (Responses.convertContent fromStr "user" text) ≤
      match arrayOf fromStr text with
      | some items => wireImagesAll items
      | none => 0 := by
  have htext : ∀ text, wireImagesAll [textPart (Responses.textItemType "user") text] = 0 :=
    fun text => by rw [wireImagesAll, wireImages_text (by decide)]; rfl
  rw [Responses.convertContent]
  split
  · rw [htext]
    exact Nat.zero_le _
  · cases hparts : Responses.parseContentParts fromStr "user" text with
    | none =>
      rw [Option.getD_none, htext]
      exact Nat.zero_le _
    | some parts =>
      rw [Responses.parseContentParts] at hparts
      obtain ⟨items, hitems, hmap⟩ := Option.bind_eq_some_iff.1 hparts
      rw [hitems, Option.getD_some]
      split at hmap
      · cases hmap
      · exact wireImagesAll_mapM_le Responses.takesParts (by decide) wireImages_imagePart hmap

theorem messageImages_functionCall (call : MessageToolCall) :
    messageImages .responses (Responses.functionCall fromStr call) = 0 := by
  rw [messageImages, Responses.functionCall, typeOf, roleOf, get_ofFields, get_ofFields]
  simp [lastField, Value.asStr]

theorem messageImages_reasoningItem (itemId : Option String) (summary : List String)
    (opaqueState : String) :
    messageImages .responses (Responses.reasoningItem itemId summary opaqueState) = 0 := by
  rw [messageImages, Responses.reasoningItem, typeOf, roleOf, get_ofFields, get_ofFields]
  simp only [lastField_append, lastField_option]
  simp [lastField, Value.asStr]

/-- The items of an answer have no images. -/
theorem formatImages_replay {message : Option Value} {calls : List MessageToolCall}
    (hmessage : ∀ m ∈ message, messageImages .responses m = 0)
    {items : List ModelResponseReplayItem} {s s' : Responses.ReplayState}
    (h : items.foldlM (Responses.replayItem fromStr message calls) s = some s')
    (hs : formatImages .responses s.output = 0) : formatImages .responses s'.output = 0 := by
  induction items generalizing s with
  | nil =>
    cases h
    exact hs
  | cons item items ih =>
    rw [List.foldlM_cons, Option.bind_eq_bind] at h
    obtain ⟨next, hnext, hrest⟩ := Option.bind_eq_some_iff.1 h
    refine ih hrest ?_
    have hadd : ∀ item, messageImages .responses item = 0 →
        formatImages .responses (s.output ++ [item]) = 0 := by
      intro item hitem
      rw [formatImages_append, hs, formatImages_cons, hitem]
      rfl
    cases item with
    | opaqueReasoning itemId summary opaqueState =>
      simp only [Responses.replayItem] at hnext
      split at hnext
      · cases hnext
      · cases hnext
        exact hadd _ (messageImages_reasoningItem itemId summary opaqueState)
    | assistantMessage =>
      simp only [Responses.replayItem] at hnext
      split at hnext
      · cases hnext
      · obtain ⟨m, hm, rfl⟩ := Option.map_eq_some_iff.1 hnext
        exact hadd m (hmessage m hm)
    | functionCall callId =>
      simp only [Responses.replayItem] at hnext
      split at hnext
      · cases hnext
      · obtain ⟨call, -, rfl⟩ := Option.map_eq_some_iff.1 hnext
        exact hadd _ (messageImages_functionCall call)

/-- What an assistant says has no images. -/
theorem formatImages_assistant {msg : Message} {items : List Value}
    (h : Responses.convertAssistantReplayItems fromStr msg = some items) :
    formatImages .responses items = 0 := by
  rw [Responses.convertAssistantReplayItems] at h
  obtain ⟨replay, -, h⟩ := Option.bind_eq_some_iff.1 h
  split at h
  · cases h
  · simp only at h
    split at h
    · cases h
    · obtain ⟨s, hs, h⟩ := Option.bind_eq_some_iff.1 h
      split at h
      · cases h
      · cases h
        refine formatImages_replay ?_ hs rfl
        intro m hm
        obtain ⟨content, -, rfl⟩ := Option.map_eq_some_iff.1 hm
        rw [messageImages_messageItem, if_neg (by decide)]

theorem messageImages_convertToolMessage {msg : Message} {item : Value}
    (h : Responses.convertToolMessage msg = some item) :
    messageImages .responses item ≤ (msg.toolImageAttachments.getD []).length := by
  rw [Responses.convertToolMessage] at h
  obtain ⟨callId, -, rfl⟩ := Option.map_eq_some_iff.1 h
  have hitem : ∀ output, messageImages .responses (ofFields [("type",
      .string "function_call_output"), ("call_id", .string callId), ("output", output)]) =
        wireImages output := by
    intro output
    rw [messageImages, typeOf, fieldImages, get_ofFields, get_ofFields]
    simp [lastField, Value.asStr]
  refine (hitem _).le.trans ?_
  cases himages : msg.attachments? with
  | none => exact Nat.zero_le _
  | some attachments =>
    have hsome : msg.toolImageAttachments = some attachments :=
      (Option.filter_eq_some_iff.1 himages).1
    rw [hsome, Option.getD_some, wireImages, wireImagesAll_append, wireImagesAll,
      wireImages_text (by decide), wireImagesAll, Nat.add_zero]
    exact wireImagesAll_map_le (fun attachment => wireImages_ofFields_le (by simp) rfl)
      attachments

theorem formatImages_convertMessage (msg : Message) :
    formatImages .responses (Responses.convertMessage fromStr msg) ≤ sentImages fromStr msg := by
  rw [Responses.convertMessage, sentImages]
  have hassistant : ∀ content, formatImages .responses [Responses.messageItem "assistant"
      (Responses.convertContent fromStr "assistant" content)] = 0 := by
    intro content
    rw [formatImages_cons, messageImages_messageItem, if_neg (by decide)]
    rfl
  split
  · exact Nat.zero_le _
  · by_cases htool : msg.role = "tool"
    · rw [if_pos htool, if_pos htool]
      cases hitem : Responses.convertToolMessage msg with
      | none => exact Nat.zero_le _
      | some item =>
        rw [Option.toList_some, formatImages_cons]
        exact (Nat.add_zero _).le.trans (messageImages_convertToolMessage hitem)
    · rw [if_neg htool, if_neg htool]
      split
      · -- an answer is sent again as it came, or anew
        refine (Nat.le_zero.2 ?_).trans (Nat.zero_le _)
        cases hreplay : Responses.convertAssistantReplayItems fromStr msg with
        | some items => exact formatImages_assistant hreplay
        | none =>
          have hcalls : formatImages .responses
              ((msg.toolCalls.getD []).map (Responses.functionCall fromStr)) = 0 := by
            rw [formatImages, List.map_map]
            refine List.sum_eq_zero_iff_forall_eq_nat.2 fun n hn => ?_
            obtain ⟨call, -, rfl⟩ := List.mem_map.1 hn
            exact messageImages_functionCall call
          rw [Option.getD_none, formatImages_append, hcalls, Nat.add_zero]
          cases msg.content with
          | none => rfl
          | some content => exact hassistant content
      · cases hcontent : msg.content with
        | none => exact Nat.zero_le _
        | some content =>
          rw [Option.toList_some, List.map_singleton, formatImages_cons,
            messageImages_messageItem, Option.getD_some]
          split
          · next huser =>
            rw [huser]
            exact (Nat.add_zero _).le.trans (wireImagesAll_convertContent content)
          · exact Nat.zero_le _

/-- **Responses** sends no more images than there are. -/
theorem formatImages_convertMessages (messages : List Message) :
    formatImages .responses (Responses.convertMessages fromStr messages).2 ≤
      (messages.map (sentImages fromStr)).sum := by
  rw [Responses.convertMessages, trimFinalAssistant,
    formatImages_modifyLast fun message => messageImages_trim _ message]
  induction messages with
  | nil => exact Nat.le_refl 0
  | cons msg messages ih =>
    rw [List.flatMap_cons, formatImages_append, List.map_cons, List.sum_cons]
    exact Nat.add_le_add (formatImages_convertMessage msg) ih

end Responses

end ImageBudget

end OpenBitFun
