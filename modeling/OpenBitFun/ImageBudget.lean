import OpenBitFun.MessageConverters
import OpenBitFun.ModelPool

/-!
# The image budget of a request

A model takes a number of images in a request. Before the messages are converted, the oldest images
over that number are taken out of a copy of them, with a note in their place (`image_budget.rs`).
-/

namespace OpenBitFun

open List

namespace ImageBudget

open Json MessageConverters

variable (fromStr : String → Option Value)

/-! ## Parts -/

/-- `image_url`: a URL that is not empty. -/
def imageUrl (value : Option Value) : Bool :=
  (value.bind fun value => value.asStr.or ((value.get "url").bind Value.asStr)).any (· ≠ "")

/-- `inline_media`: the type and the data. -/
def inlineMedia (part : Value) : Option (String × String) :=
  ((part.get "inline_data").or (part.get "inlineData")).bind fun data =>
    (((data.get "mime_type").or (data.get "mimeType")).bind Value.asStr).bind fun mimeType =>
      ((data.get "data").bind Value.asStr).map fun data => (mimeType, data)

/-- A type of images. -/
def isImageMime (mimeType : String) : Bool := Text.startsWith mimeType.toList "image/"

/-- The source of an `image` part has a picture. -/
def isImageSource (source : Value) : Bool :=
  imageUrl (source.get "url") ||
    (((source.get "media_type").bind Value.asStr).any isImageMime &&
      ((source.get "data").bind Value.asStr).isSome)

/-- `is_image_part`. -/
def isImagePart (part : Value) : Bool :=
  if typeOf part = some "image_url" then imageUrl (part.get "image_url")
  else if typeOf part = some "input_image" then
    imageUrl (part.get "image_url") || ((part.get "file_id").bind Value.asStr).isSome
  else if typeOf part = some "image" then (part.get "source").any isImageSource
  else (inlineMedia part).any fun media => isImageMime media.1

/-- The types of parts that are neither text nor image. -/
def otherTypes : List String :=
  ["input_audio", "audio", "video", "file", "input_file", "document"]

/-- `is_content_part`. -/
def isContentPart (part : Value) : Bool :=
  if isImagePart part || (inlineMedia part).isSome then true
  else match typeOf part with
    | none => (textOf part).isSome
    | some type => if type ∈ textTypes then (textOf part).isSome else type ∈ otherTypes

/-! ## Projection -/

/-- The loop of `retain`: the first images, and all that is no image. -/
def retainImages (keep : ℕ) : (seen : ℕ) → List Value → List Value
  | _, [] => []
  | seen, part :: parts =>
    if isImagePart part then
      if seen + 1 ≤ keep then part :: retainImages keep (seen + 1) parts
      else retainImages keep (seen + 1) parts
    else part :: retainImages keep seen parts

/-- What the note says about images that stay. -/
def retainedNote (keep total : ℕ) (source : String) : String :=
  if keep > 0 then
    " Only the first " ++ toString keep ++ " of " ++ toString total ++ " images from this " ++
      source ++ " are included."
  else ""

/-- The part in place of the images of a user's message that are left out. -/
def omittedPart (keep total : ℕ) : Value :=
  textPart "text" ("[" ++ toString (total - keep) ++
    " image(s) omitted to fit the model's per-request image limit." ++
    retainedNote keep total "message" ++
    " Reattach or read images in smaller batches if their pixels are needed.]")

/-- The text in place of the images of a tool that are left out. -/
def omittedText (keep total : ℕ) : String :=
  "\n\n[" ++ toString (total - keep) ++
    " tool image(s) omitted to fit the model's per-request image limit." ++
    retainedNote keep total "tool result" ++
    " Read images in smaller batches if their pixels are needed.]"

/-- `project_user_content`: the content, and how many images may still be kept. -/
def projectUserContent (content : Option String) (remaining : ℕ) : Option String × ℕ :=
  match content.bind (arrayOf fromStr) with
  | none => (content, remaining)
  | some parts =>
    -- ordinary JSON remains text
    if parts.all isContentPart then
      let imageCount := parts.countP isImagePart
      let keep := min imageCount remaining
      if imageCount - keep = 0 then (content, remaining - keep)
      else
        (some (Value.array (retainImages keep 0 parts ++ [omittedPart keep imageCount])).render,
          remaining - keep)
    else (content, remaining)

/-- The branch of `project` for the result of a tool. -/
def projectTool (msg : Message) (remaining : ℕ) : Message × ℕ :=
  match msg.toolImageAttachments with
  | none => (msg, remaining)
  | some images =>
    let total := images.length
    let keep := min total remaining
    if total - keep > 0 then
      ({ msg with
          toolImageAttachments :=
            if (images.take keep).isEmpty then none else some (images.take keep)
          content := some (msg.content.getD "" ++ omittedText keep total) },
        remaining - keep)
    else (msg, remaining - keep)

/-- One message in `project`. -/
def projectMessage (msg : Message) (remaining : ℕ) : Message × ℕ :=
  if msg.role = "tool" then projectTool msg remaining
  else if msg.role = "user" then
    let projected := projectUserContent fromStr msg.content remaining
    ({ msg with content := projected.1 }, projected.2)
  else (msg, remaining)

/-- The loop of `project`: the newest message comes first. -/
def projectAll (remaining : ℕ) : List Message → List Message × ℕ
  | [] => ([], remaining)
  | msg :: msgs =>
    let newer := projectAll remaining msgs
    let projected := projectMessage fromStr msg newer.2
    (projected.1 :: newer.1, projected.2)

/-- An `AiProviderError` of the budget. -/
structure BudgetError where
  message : String
  category : ModelPool.ErrorCategory
  deriving DecidableEq

/-- `project`. -/
def project (messages : List Message) (maxImages : Option ℕ) :
    Except BudgetError (List Message) :=
  match maxImages with
  | none => .ok messages
  | some 0 => .error ⟨"max_images_per_request must be greater than zero", .invalidRequest⟩
  | some remaining => .ok (projectAll fromStr remaining messages).1

/-! ## What a message keeps -/

/-- The images that the budget counts. -/
def countedImages (msg : Message) : ℕ :=
  if msg.role = "tool" then (msg.toolImageAttachments.getD []).length
  else if msg.role = "user" then
    match msg.content.bind (arrayOf fromStr) with
    | some parts => if parts.all isContentPart then parts.countP isImagePart else 0
    | none => 0
  else 0

/-- A message with its first `keep` images and a note about the others. -/
def withKept (msg : Message) (keep : ℕ) : Message :=
  let total := countedImages fromStr msg
  if msg.role = "tool" then
    let images := (msg.toolImageAttachments.getD []).take keep
    { msg with
      toolImageAttachments := if images.isEmpty then none else some images
      content := some (msg.content.getD "" ++ omittedText keep total) }
  else
    { msg with
      content := ((msg.content.bind (arrayOf fromStr)).map fun parts =>
        (Value.array (retainImages keep 0 parts ++ [omittedPart keep total])).render).or
          msg.content }

variable {fromStr}

theorem projectTool_eq {msg : Message} (h : msg.role = "tool") (remaining : ℕ) :
    projectTool msg remaining =
      (if countedImages fromStr msg ≤ remaining then msg else withKept fromStr msg remaining,
        remaining - countedImages fromStr msg) := by
  have hcounted : countedImages fromStr msg = (msg.toolImageAttachments.getD []).length := by
    rw [countedImages, if_pos h]
  rw [projectTool, withKept, if_pos h, hcounted]
  cases himages : msg.toolImageAttachments with
  | none => simp
  | some images =>
    simp only [Option.getD_some]
    by_cases hle : images.length ≤ remaining
    · rw [min_eq_left hle, Nat.sub_self, if_neg (Nat.lt_irrefl 0), if_pos hle]
    · have hlt := Nat.lt_of_not_le hle
      rw [min_eq_right (Nat.le_of_lt hlt), if_pos (Nat.sub_pos_of_lt hlt), if_neg hle,
        Nat.sub_self, Nat.sub_eq_zero_of_le (Nat.le_of_lt hlt)]

theorem projectUser_eq {msg : Message} (h : msg.role = "user") (remaining : ℕ) :
    ({ msg with content := (projectUserContent fromStr msg.content remaining).1 },
        (projectUserContent fromStr msg.content remaining).2) =
      ((if countedImages fromStr msg ≤ remaining then msg else withKept fromStr msg remaining,
        remaining - countedImages fromStr msg) : Message × ℕ) := by
  have hnot : msg.role ≠ "tool" := by
    rw [h]
    decide
  rw [countedImages, if_neg hnot, if_pos h, withKept, if_neg hnot, projectUserContent,
    countedImages, if_neg hnot, if_pos h]
  cases hparts : msg.content.bind (arrayOf fromStr) with
  | none => simp
  | some parts =>
    simp only [Option.map_some, Option.some_or]
    by_cases hall : parts.all isContentPart
    · simp only [if_pos hall]
      by_cases hle : parts.countP isImagePart ≤ remaining
      · rw [min_eq_left hle, Nat.sub_self, if_pos rfl, if_pos hle]
      · have hlt := Nat.lt_of_not_le hle
        rw [min_eq_right (Nat.le_of_lt hlt), if_neg (Nat.sub_pos_of_lt hlt).ne', if_neg hle,
          Nat.sub_self, Nat.sub_eq_zero_of_le (Nat.le_of_lt hlt)]
    · simp only [if_neg hall, Nat.zero_le, if_true, Nat.sub_zero]

/-- **One message**: it keeps as many images as it may. -/
theorem projectMessage_eq (msg : Message) (remaining : ℕ) :
    projectMessage fromStr msg remaining =
      (if countedImages fromStr msg ≤ remaining then msg else withKept fromStr msg remaining,
        remaining - countedImages fromStr msg) := by
  by_cases htool : msg.role = "tool"
  · rw [projectMessage, if_pos htool, projectTool_eq htool]
  · by_cases huser : msg.role = "user"
    · rw [projectMessage, if_neg htool, if_pos huser, ← projectUser_eq huser]
    · rw [projectMessage, if_neg htool, if_neg huser, countedImages, if_neg htool, if_neg huser,
        if_pos (Nat.zero_le _)]
      rfl

/-- The images that are counted in messages. -/
def totalImages (fromStr : String → Option Value) (messages : List Message) : ℕ :=
  (messages.map (countedImages fromStr)).sum

theorem projectAll_snd (remaining : ℕ) (messages : List Message) :
    (projectAll fromStr remaining messages).2 = remaining - totalImages fromStr messages := by
  induction messages with
  | nil => rfl
  | cons msg msgs ih =>
    rw [projectAll, projectMessage_eq]
    simp only [ih, totalImages, map_cons, sum_cons]
    omega

/-- Nothing changes where the images fit. -/
theorem projectAll_of_le {remaining : ℕ} {messages : List Message}
    (h : totalImages fromStr messages ≤ remaining) :
    (projectAll fromStr remaining messages).1 = messages := by
  induction messages with
  | nil => rfl
  | cons msg msgs ih =>
    have hsum : totalImages fromStr (msg :: msgs) =
        countedImages fromStr msg + totalImages fromStr msgs := by
      rw [totalImages, map_cons, sum_cons, totalImages]
    rw [projectAll, projectMessage_eq]
    simp only [projectAll_snd]
    rw [ih (by omega), if_pos (by omega)]

/-! ## Retained images -/

section Retain

variable {keep seen : ℕ} {parts : List Value}

theorem filter_retainImages (keep seen : ℕ) (parts : List Value) :
    (retainImages keep seen parts).filter isImagePart =
      (parts.filter isImagePart).take (keep - seen) := by
  induction parts generalizing seen with
  | nil => simp [retainImages]
  | cons part parts ih =>
    rw [retainImages]
    by_cases himage : isImagePart part
    · rw [if_pos himage, filter_cons_of_pos himage]
      split
      · next hle =>
        have hsub : keep - seen = (keep - (seen + 1)) + 1 := by omega
        rw [filter_cons_of_pos himage, ih, hsub, take_succ_cons]
      · next hnot =>
        have hsub : keep - seen = 0 := by omega
        have hsub' : keep - (seen + 1) = 0 := by omega
        rw [ih, hsub, hsub', take_zero, take_zero]
    · rw [if_neg himage, filter_cons_of_neg himage, filter_cons_of_neg himage, ih]

theorem filter_not_retainImages (keep seen : ℕ) (parts : List Value) :
    (retainImages keep seen parts).filter (fun part => !isImagePart part) =
      parts.filter fun part => !isImagePart part := by
  induction parts generalizing seen with
  | nil => rfl
  | cons part parts ih =>
    rw [retainImages]
    by_cases himage : isImagePart part
    · rw [if_pos himage, filter_cons_of_neg (by simpa using himage)]
      split
      · rw [filter_cons_of_neg (by simpa using himage), ih]
      · exact ih (seen + 1)
    · rw [if_neg himage, filter_cons_of_pos (by simpa using himage),
        filter_cons_of_pos (by simpa using himage), ih]

theorem retainImages_sublist (keep seen : ℕ) (parts : List Value) :
    (retainImages keep seen parts).Sublist parts := by
  induction parts generalizing seen with
  | nil => exact List.Sublist.slnil
  | cons part parts ih =>
    rw [retainImages]
    split
    · split
      · exact (ih (seen + 1)).cons_cons part
      · exact (ih (seen + 1)).cons part
    · exact (ih seen).cons_cons part

theorem countP_retainImages (keep : ℕ) (parts : List Value) :
    (retainImages keep 0 parts).countP isImagePart = min keep (parts.countP isImagePart) := by
  rw [countP_eq_length_filter, filter_retainImages, length_take, Nat.sub_zero,
    countP_eq_length_filter]

end Retain

theorem omittedPart_facts (keep total : ℕ) :
    isImagePart (omittedPart keep total) = false ∧
      isContentPart (omittedPart keep total) = true := by
  have htype : typeOf (omittedPart keep total) = some "text" := by
    rw [typeOf, omittedPart, textPart, get_ofFields]
    rfl
  have htext : (textOf (omittedPart keep total)).isSome := by
    rw [textOf, omittedPart, textPart, get_ofFields]
    rfl
  have hinline : inlineMedia (omittedPart keep total) = none := by
    rw [inlineMedia, omittedPart, textPart, get_ofFields, get_ofFields]
    rfl
  have himage : isImagePart (omittedPart keep total) = false := by
    simp [isImagePart, htype, hinline]
  refine ⟨himage, ?_⟩
  simp [isContentPart, himage, hinline, htype, htext, textTypes]

end ImageBudget

end OpenBitFun
