import OpenBitFun.MessageConverters

/-!
# What a user wrote

The content of a user's message is plain text, or the text of a JSON array of content parts. Each
converter guesses which one it is. A text that happens to be a JSON array of something else has to
reach the model as the text it is.
-/

namespace OpenBitFun

open List

namespace MessageConverters

open Json

/-! ## Parts -/

/-- A text part with a text. -/
def isTextPart (item : Value) : Bool :=
  (typeOf item).any (· ∈ textTypes) && (textOf item).isSome

/-- The URL of an `image_url` part. -/
def imageUrlOf (item : Value) : Option String :=
  if typeOf item = some "image_url" then (item.get "image_url").bind extractImageUrlValue else none

/-- An array of text parts and `image_url` parts only. -/
def isPartArray (items : List Value) : Bool :=
  items.all fun item => isTextPart item || (imageUrlOf item).isSome

/-- What a part shows. -/
inductive Piece where
  | text (text : String)
  | image (url : String)
  deriving DecidableEq

/-- A text as a piece, unless it is empty. -/
def textPiece (text : String) : Option Piece := if text = "" then none else some (.text text)

/-- The formats of the providers. -/
inductive Format where
  | chat
  | responses
  | anthropic
  | gemini
  deriving DecidableEq, Repr

/-- The images that a format takes by their URL: Gemini takes only those whose URL has the data. -/
def Format.supports : Format → String → Bool
  | .gemini, url => (Gemini.convertImageUrlToPart url).isSome
  | _, _ => true

/-- What a part of the user shows in a format. -/
def pieceOf (format : Format) (item : Value) : Option Piece :=
  if (typeOf item).any (· ∈ textTypes) then (textOf item).bind textPiece
  else (imageUrlOf item).bind fun url => if format.supports url then some (.image url) else none

/-! ## What is sent -/

variable (fromStr : String → Option Value) (modelName : String)

/-- The messages that are sent. -/
def Format.convert : Format → List Message → List Value
  | .chat, messages => Chat.convertMessages fromStr messages
  | .responses, messages => (Responses.convertMessages fromStr messages).2
  | .anthropic, messages => (Anthropic.convertMessages fromStr messages).2
  | .gemini, messages => (Gemini.convertMessages fromStr messages modelName).2

/-- The field with the content of a message. -/
def Format.contentKey : Format → String
  | .gemini => "parts"
  | _ => "content"

/-- A plain text as a content. -/
def Format.plain : Format → String → Value
  | .chat, text => .string text
  | .responses, text => .array [textPart "input_text" text]
  | .anthropic, text => .array [textPart "text" text]
  | .gemini, text => .array [Gemini.textPart text]

/-- What a part that is sent shows. -/
def Format.shows : Format → Value → Option Piece
  | .chat, part =>
    if typeOf part = some "text" then (textOf part).bind textPiece
    else (imageUrlOf part).map .image
  | .responses, part =>
    if typeOf part = some "input_text" then (textOf part).bind textPiece
    else if typeOf part = some "input_image" then
      ((part.get "image_url").bind Value.asStr).map .image
    else none
  | .anthropic, part => pieceOf .anthropic part
  | .gemini, part => match textOf part, part.get "inlineData" with
    | some text, _ => textPiece text
    | none, some data => match (data.get "mimeType").bind Value.asStr,
        (data.get "data").bind Value.asStr with
      | some mimeType, some data => some (.image (dataUrl ⟨mimeType, data⟩))
      | _, _ => none
    | none, none => none

/-- The content that is sent for a text of the user: the pieces of a part array, and any other text
as it is. -/
def Carries (format : Format) (text : String) (content : Value) : Prop :=
  match arrayOf fromStr text with
  | some items =>
    if isPartArray items then
      (∃ parts, content = .array parts ∧
          parts.filterMap format.shows = items.filterMap (pieceOf format)) ∨
        (items.filterMap (pieceOf format) = [] ∧ content = format.plain text)
    else content = format.plain text
  | none => content = format.plain text

/-- A text of the user reaches the model. -/
def Reaches (format : Format) (text : String) : Prop :=
  ∃ message content, format.convert fromStr modelName [.user text] = [message] ∧
    message.get "role" = some (.string "user") ∧
    message.get format.contentKey = some content ∧ Carries fromStr format text content

variable {fromStr modelName}

/-! ## Reading built parts -/

@[simp] theorem get_textPart (type text key : String) : (textPart type text).get key =
    if "text" = key then some (.string text)
    else if "type" = key then some (.string type) else none := by
  rw [textPart, get_ofFields, lastField, lastField, lastField]
  split
  · rfl
  · rfl

@[simp] theorem typeOf_textPart (type text : String) :
    typeOf (textPart type text) = some type := by
  simp [typeOf, Value.asStr]

@[simp] theorem textOf_textPart (type text : String) :
    textOf (textPart type text) = some text := by
  simp [textOf, Value.asStr]

/-- A converter of parts that keeps what they show. -/
theorem filterMap_of_mapM {f : Value → Option Value} {g h : Value → Option Piece} :
    ∀ {items parts : List Value}, items.mapM f = some parts →
      (∀ item ∈ items, ∀ part, f item = some part → g part = h item) →
      parts.filterMap g = items.filterMap h := by
  intro items
  induction items with
  | nil =>
    intro parts hparts _
    cases hparts
    rfl
  | cons item items ih =>
    intro parts hparts hkeep
    simp only [mapM_cons, Option.bind_eq_bind, Option.bind_eq_some_iff] at hparts
    obtain ⟨part, hpart, rest, hrest, hcons⟩ := hparts
    cases hcons
    obtain ⟨hone, hall⟩ := forall_mem_cons.1 hkeep
    rw [filterMap_cons, filterMap_cons, hone part hpart, ih hrest hall]

theorem mapM_isSome {f : Value → Option Value} {items : List Value} :
    (items.mapM f).isSome = items.all fun item => (f item).isSome := by
  induction items with
  | nil => rfl
  | cons item items ih =>
    rw [mapM_cons, all_cons, ← ih]
    cases f item with
    | none => rfl
    | some part =>
      cases hrest : items.mapM f with
      | none => simp
      | some rest => simp

/-! ## Chat Completions and Responses -/

variable {item part : Value}

theorem imageUrlOf_eq_some {url : String} (h : imageUrlOf item = some url) :
    typeOf item = some "image_url" ∧
      (item.get "image_url").bind extractImageUrlValue = some url := by
  rw [imageUrlOf] at h
  split at h
  · next htype => exact ⟨htype, h⟩
  · cases h

theorem not_text_of_image : "image_url" ∉ textTypes := by decide

/-- What a converter makes of a text part. -/
theorem text_cases (item : Value) :
    (∃ type, typeOf item = some type ∧ type ∈ textTypes) ∨
      ∀ type, typeOf item = some type → type ∉ textTypes := by
  cases htype : typeOf item with
  | none => exact .inr fun type h => nomatch h
  | some type =>
    by_cases hmem : type ∈ textTypes
    · exact .inl ⟨type, rfl, hmem⟩
    · refine .inr fun type' h => ?_
      cases h
      exact hmem

/-- A converter of parts that takes text parts and `image_url` parts, and what it makes of them. -/
structure TakesParts (convert : Value → Option Value) (format : Format) (type : String)
    (sent : Value → String → Value) : Prop where
  text : ∀ item t, typeOf item = some t → t ∈ textTypes →
    convert item = (textOf item).map (textPart type)
  image : ∀ item, (∀ t, typeOf item = some t → t ∉ textTypes) →
    convert item = (imageUrlOf item).map (sent item)
  shows_text : ∀ text, format.shows (textPart type text) = textPiece text
  shows_image : ∀ item url, format.shows (sent item url) = some (.image url)
  supports : ∀ url, format.supports url = true

variable {convert : Value → Option Value} {format : Format} {type : String}
  {sent : Value → String → Value}

theorem TakesParts.isSome (h : TakesParts convert format type sent) (item : Value) :
    (convert item).isSome = (isTextPart item || (imageUrlOf item).isSome) := by
  rcases text_cases item with ⟨t, htype, hmem⟩ | hnone
  · have himage : imageUrlOf item = none := by
      rw [imageUrlOf, if_neg]
      rintro himage
      cases htype.symm.trans himage
      exact not_text_of_image hmem
    rw [h.text item t htype hmem, himage, isTextPart, htype]
    simp [hmem]
  · have htext : (typeOf item).any (· ∈ textTypes) = false := by
      cases htype : typeOf item with
      | none => rfl
      | some t => simpa using hnone t htype
    rw [h.image item hnone, isTextPart, htext]
    simp

theorem TakesParts.shows (h : TakesParts convert format type sent)
    (hpart : convert item = some part) : format.shows part = pieceOf format item := by
  rcases text_cases item with ⟨t, htype, hmem⟩ | hnone
  · rw [h.text item t htype hmem] at hpart
    obtain ⟨text, htext, rfl⟩ := Option.map_eq_some_iff.1 hpart
    rw [h.shows_text, pieceOf, htype, if_pos (by simpa using hmem), htext]
    rfl
  · have htext : (typeOf item).any (· ∈ textTypes) = false := by
      cases htype : typeOf item with
      | none => rfl
      | some t => simpa using hnone t htype
    rw [h.image item hnone] at hpart
    obtain ⟨url, hurl, rfl⟩ := Option.map_eq_some_iff.1 hpart
    rw [h.shows_image, pieceOf, htext, if_neg Bool.false_ne_true, hurl, Option.bind_some,
      h.supports, if_pos rfl]

/-- An array of parts is converted part by part, and any other array is not. -/
theorem TakesParts.mapM (h : TakesParts convert format type sent) (items : List Value) :
    if isPartArray items then ∃ parts, items.mapM convert = some parts ∧
      parts.filterMap format.shows = items.filterMap (pieceOf format)
    else items.mapM convert = none := by
  have hsome : (items.mapM convert).isSome = isPartArray items := by
    rw [mapM_isSome, isPartArray]
    exact congrArg _ (funext h.isSome)
  cases hmap : items.mapM convert with
  | none =>
    rw [hmap] at hsome
    rw [← hsome, Option.isSome_none, if_neg Bool.false_ne_true]
  | some parts =>
    rw [hmap] at hsome
    rw [← hsome, Option.isSome_some, if_pos rfl]
    exact ⟨parts, rfl, filterMap_of_mapM hmap fun item _ part hpart => h.shows hpart⟩

/-- The image part of Chat Completions. -/
def Chat.imagePart (item : Value) (url : String) : Value :=
  let detail := (((item.get "image_url").bind fun value => value.get "detail").bind
    Value.asStr).toList.map fun detail => ("detail", Value.string detail)
  ofFields [("type", .string "image_url"),
    ("image_url", ofFields (("url", .string url) :: detail))]

theorem Chat.takesParts : TakesParts (Chat.contentPart "user") .chat "text" Chat.imagePart where
  text := fun item t htype hmem => by
    simp [Chat.contentPart, htype, hmem]
  image := fun item hnone => by
    rw [Chat.contentPart, imageUrlOf]
    cases htype : typeOf item with
    | none => rfl
    | some t =>
      simp only [Option.bind_some, if_neg (hnone t htype), and_true, Option.some.injEq]
      by_cases himage : t = "image_url"
      · rw [if_pos himage, if_pos himage]
        cases hvalue : item.get "image_url" with
        | none => rfl
        | some value =>
          rw [Option.bind_some, Option.bind_some]
          cases extractImageUrlValue value with
          | none => rfl
          | some url => simp [Chat.imagePart, hvalue]
      · rw [if_neg himage, if_neg himage]
        rfl
  shows_text := fun text => by simp [Format.shows]
  shows_image := fun item url => by
    have htype : typeOf (Chat.imagePart item url) = some "image_url" := by
      rw [typeOf, Chat.imagePart, get_ofFields]
      rfl
    have hurl : imageUrlOf (Chat.imagePart item url) = some url := by
      rw [imageUrlOf, if_pos htype, Chat.imagePart, get_ofFields]
      have hvalue : ∀ fields, lastField "url" fields = none →
          extractImageUrlValue (ofFields (("url", .string url) :: fields)) = some url := by
        intro fields hfields
        rw [extractImageUrlValue, get_ofFields, lastField, hfields]
        rfl
      refine hvalue _ ?_
      cases ((item.get "image_url").bind fun value => value.get "detail").bind Value.asStr with
      | none => rfl
      | some detail => rfl
    simp [Format.shows, htype, hurl]
  supports := fun url => rfl

/-- The image part of the Responses format. -/
def Responses.imagePart (_item : Value) (url : String) : Value :=
  ofFields [("type", .string "input_image"), ("image_url", .string url)]

theorem Responses.takesParts :
    TakesParts (Responses.contentPart "user") .responses "input_text" Responses.imagePart where
  text := fun item t htype hmem => by
    simp [Responses.contentPart, htype, hmem, Responses.textItemType]
  image := fun item hnone => by
    rw [Responses.contentPart, imageUrlOf]
    cases htype : typeOf item with
    | none => rfl
    | some t =>
      have huser : ("user" : String) ≠ "assistant" := by decide
      simp only [Option.bind_some, if_neg (hnone t htype), Option.some.injEq, huser, ne_eq,
        not_false_eq_true, and_true]
      by_cases himage : t = "image_url"
      · rw [if_pos himage, if_pos himage]
        cases item.get "image_url" with
        | none => rfl
        | some value => rfl
      · rw [if_neg himage, if_neg himage]
        rfl
  shows_text := fun text => by simp [Format.shows]
  shows_image := fun item url => by
    have htype : typeOf (Responses.imagePart item url) = some "input_image" := by
      rw [typeOf, Responses.imagePart, get_ofFields]
      rfl
    have hurl : (Responses.imagePart item url).get "image_url" = some (.string url) := by
      rw [Responses.imagePart, get_ofFields]
      rfl
    simp [Format.shows, htype, hurl, Value.asStr]
  supports := fun url => rfl

/-- A message of a user is not an assistant's. -/
theorem trimFinalAssistant_user {message : Value} (h : message.get "role" = some (.string "user")) :
    trimFinalAssistant [message] = [message] := by
  have hnot : (message.get "role").bind Value.asStr ≠ some "assistant" := by
    rw [h]
    decide
  simp only [trimFinalAssistant, modifyLast, if_neg hnot]

section Texts

variable {text : String}

theorem chat_reaches (hblank : isBlank text = false) : Reaches fromStr modelName .chat text := by
  have hcontent : Chat.convertContent fromStr (.user text) =
      match Chat.parseContentParts fromStr "user" text with
      | some parts => some (.array parts)
      | none => some (.string text) := by
    have hnot : ("user" : String) ≠ "tool" := by decide
    rw [Chat.convertContent, Message.user, Option.map_some]
    cases hparts : Chat.parseContentParts fromStr "user" text with
    | none => simp only [hnot, false_and, if_false, hblank, Bool.false_eq_true, hparts]
    | some parts => simp only [hnot, false_and, if_false, hblank, Bool.false_eq_true, hparts]
  obtain ⟨content, hsome, hcarries⟩ : ∃ content,
      Chat.convertContent fromStr (.user text) = some content ∧
        Carries fromStr .chat text content := by
    rw [hcontent, Chat.parseContentParts, if_neg (by decide)]
    unfold Carries
    cases harray : arrayOf fromStr text with
    | none => exact ⟨_, rfl, rfl⟩
    | some items =>
      simp only [Option.bind_some]
      have hparts := Chat.takesParts.mapM items
      cases items with
      | nil => exact ⟨_, rfl, .inr ⟨rfl, rfl⟩⟩
      | cons item items =>
        rw [isEmpty_cons, if_neg Bool.false_ne_true]
        split at hparts
        · next hall =>
          obtain ⟨parts, hmap, hshows⟩ := hparts
          rw [hmap]
          exact ⟨_, rfl, by rw [if_pos hall]; exact .inl ⟨parts, rfl, hshows⟩⟩
        · next hall =>
          rw [hparts]
          exact ⟨_, rfl, by rw [if_neg hall]; rfl⟩
  have hmessage : Chat.convertSingleMessage fromStr (.user text) =
      ofFields [("role", .string "user"), ("content", content)] := by
    rw [Chat.convertSingleMessage, hsome]
    rfl
  have hrole : (Chat.convertSingleMessage fromStr (.user text)).get "role" =
      some (.string "user") := by
    rw [hmessage, get_ofFields]
    rfl
  refine ⟨_, content, ?_, hrole, ?_, hcarries⟩
  · have hconvert : Format.chat.convert fromStr modelName [.user text] =
        trimFinalAssistant [Chat.convertSingleMessage fromStr (.user text)] := rfl
    rw [hconvert, trimFinalAssistant_user hrole]
  · rw [hmessage, get_ofFields]
    rfl

theorem responses_reaches (hblank : isBlank text = false) :
    Reaches fromStr modelName .responses text := by
  have hcontent : Responses.convertContent fromStr "user" text =
      (Responses.parseContentParts fromStr "user" text).getD [textPart "input_text" text] := by
    rw [Responses.convertContent, hblank, if_neg Bool.false_ne_true]
    rfl
  have hcarries : Carries fromStr .responses text
      (.array (Responses.convertContent fromStr "user" text)) := by
    rw [hcontent, Responses.parseContentParts]
    unfold Carries
    cases harray : arrayOf fromStr text with
    | none => exact rfl
    | some items =>
      simp only [Option.bind_some]
      have hparts := Responses.takesParts.mapM items
      cases items with
      | nil => exact .inr ⟨rfl, rfl⟩
      | cons item items =>
        rw [isEmpty_cons, if_neg Bool.false_ne_true]
        split at hparts
        · next hall =>
          obtain ⟨parts, hmap, hshows⟩ := hparts
          rw [hmap, if_pos hall]
          exact .inl ⟨parts, rfl, hshows⟩
        · next hall =>
          rw [hparts, if_neg hall]
          rfl
  have hrole : (Responses.messageItem "user" (Responses.convertContent fromStr "user" text)).get
      "role" = some (.string "user") := by
    rw [Responses.messageItem, get_ofFields]
    rfl
  refine ⟨_, _, ?_, hrole, ?_, hcarries⟩
  · have hconvert : Format.responses.convert fromStr modelName [.user text] = trimFinalAssistant
        [Responses.messageItem "user" (Responses.convertContent fromStr "user" text)] := rfl
    rw [hconvert, trimFinalAssistant_user hrole]
  · rw [Responses.messageItem, get_ofFields]
    rfl

/-! ## Anthropic and Gemini -/

theorem anthropic_convert (text : String) :
    Format.anthropic.convert fromStr modelName [.user text] =
      [Anthropic.blocksMessage "user" (match arrayOf fromStr text with
        | some items => .array items
        | none => .array [textPart "text" text])] := by
  have hmessage : Anthropic.convertUserMessage fromStr (.user text) =
      Anthropic.blocksMessage "user" (match arrayOf fromStr text with
        | some items => .array items
        | none => .array [textPart "text" text]) := by
    rw [Anthropic.convertUserMessage]
    change (match arrayOf fromStr text with
      | some items => Anthropic.blocksMessage "user" (.array items)
      | none => Anthropic.blocksMessage "user" (.array [textPart "text" text])) = _
    cases arrayOf fromStr text with
    | none => rfl
    | some items => rfl
  have hrole : ∀ content, ((Anthropic.blocksMessage "user" content).get "role").bind Value.asStr ≠
      some "assistant" := by
    intro content
    rw [Anthropic.blocksMessage, get_ofFields]
    exact (by decide : some "user" ≠ some "assistant")
  have hconvert : Format.anthropic.convert fromStr modelName [.user text] =
      Anthropic.trimFinalAssistant [Anthropic.convertUserMessage fromStr (.user text)] := rfl
  rw [hconvert, hmessage, Anthropic.trimFinalAssistant, modifyLast, if_neg (hrole _)]

theorem get_blocksMessage (content : Value) :
    (Anthropic.blocksMessage "user" content).get "role" = some (.string "user") ∧
      (Anthropic.blocksMessage "user" content).get "content" = some content := by
  rw [Anthropic.blocksMessage, get_ofFields, get_ofFields]
  exact ⟨rfl, rfl⟩

/-- Anthropic's format reaches the model with a text exactly if a JSON array is one of parts. -/
theorem anthropic_reaches_iff : Reaches fromStr modelName .anthropic text ↔
    ∀ items, arrayOf fromStr text = some items → isPartArray items := by
  have hconvert := @anthropic_convert fromStr modelName text
  refine ⟨?_, fun hparts => ?_⟩
  · rintro ⟨message, content, hmessage, hrole, hget, hcarries⟩ items harray
    rw [hconvert, harray] at hmessage
    cases hmessage
    have hcontent := (get_blocksMessage (.array items)).2.symm.trans hget
    cases hcontent
    by_contra hnot
    unfold Carries at hcarries
    rw [harray] at hcarries
    simp only [if_neg hnot] at hcarries
    -- an array with the text as its only part is an array of parts
    cases hcarries
    exact hnot (by simp [isPartArray, isTextPart, textTypes])
  · refine ⟨_, _, hconvert, (get_blocksMessage _).1, (get_blocksMessage _).2, ?_⟩
    unfold Carries
    cases harray : arrayOf fromStr text with
    | none => exact rfl
    | some items =>
      simp only [if_pos (hparts items harray)]
      exact .inl ⟨items, rfl, rfl⟩

theorem shows_geminiText (t : String) : Format.gemini.shows (Gemini.textPart t) = textPiece t := by
  have htext : textOf (Gemini.textPart t) = some t := by
    rw [textOf, Gemini.textPart, get_ofFields]
    rfl
  simp [Format.shows, htext]

theorem shows_geminiImage (mimeType data : String) :
    Format.gemini.shows (Gemini.imagePart mimeType data) =
      some (.image (dataUrl ⟨mimeType, data⟩)) := by
  have htext : textOf (Gemini.imagePart mimeType data) = none := by
    rw [textOf, Gemini.imagePart, get_ofFields]
    rfl
  have hdata : (Gemini.imagePart mimeType data).get "inlineData" =
      some (ofFields [("mimeType", .string mimeType), ("data", .string data)]) := by
    rw [Gemini.imagePart, get_ofFields]
    rfl
  have hmime : ((ofFields [("mimeType", .string mimeType), ("data", .string data)]).get
      "mimeType").bind Value.asStr = some mimeType := by
    rw [get_ofFields]
    rfl
  have hbytes : ((ofFields [("mimeType", .string mimeType), ("data", .string data)]).get
      "data").bind Value.asStr = some data := by
    rw [get_ofFields]
    rfl
  simp [Format.shows, htext, hdata, hmime, hbytes]

/-- An image is sent with all of its URL. -/
theorem shows_convertImageUrlToPart {url : String}
    (h : Gemini.convertImageUrlToPart url = some part) :
    Format.gemini.shows part = some (.image url) := by
  rw [Gemini.convertImageUrlToPart] at h
  split at h
  · next hdata =>
    obtain ⟨⟨mimeType, data⟩, hsplit, hpart⟩ := Option.bind_eq_some_iff.1 h
    simp only at hpart
    split at hpart
    · cases hpart
    · cases hpart
      rw [shows_geminiImage]
      obtain ⟨rest, hrest⟩ := isPrefixOf_iff_prefix.1 hdata
      obtain ⟨n, hfind, hpair⟩ := Option.map_eq_some_iff.1 hsplit
      cases hpair
      have hdrop : url.toList.drop 5 = rest := by
        rw [← hrest]
        rfl
      rw [hdrop] at hfind ⊢
      have hcut := Text.eq_append_of_prefix (Text.find_eq_some hfind).1
      have hurl : dataUrl ⟨String.ofList (rest.take n),
          String.ofList (rest.drop (n + ";base64,".toList.length))⟩ = url := by
        apply String.toList_inj.1
        rw [← hrest]
        nth_rewrite 3 [hcut]
        simp [dataUrl]
      rw [hurl]
  · cases h

/-- What Gemini's converter makes of a part of a part array. -/
theorem gemini_shows (hpart : isTextPart item || (imageUrlOf item).isSome) :
    (Gemini.contentPart false item).bind Format.gemini.shows = pieceOf .gemini item := by
  rw [Gemini.contentPart.eq_def, pieceOf]
  cases htype : typeOf item with
  | none => simp [isTextPart, imageUrlOf, htype] at hpart
  | some t =>
    simp only [Option.any_some, decide_eq_true_eq]
    by_cases hmem : t ∈ textTypes
    · rw [if_pos hmem, if_pos hmem]
      cases htext : textOf item with
      | none => rfl
      | some text =>
        by_cases hempty : text = ""
        · simp [Option.filter, hempty, textPiece]
        · simp [Option.filter, hempty, shows_geminiText]
    · have himage : (imageUrlOf item).isSome := by
        simpa [isTextPart, htype, hmem] using hpart
      obtain ⟨url, hurl⟩ := Option.isSome_iff_exists.1 himage
      obtain ⟨htype', hvalue⟩ := imageUrlOf_eq_some hurl
      cases htype.symm.trans htype'
      rw [if_neg hmem, if_neg hmem, if_pos ⟨rfl, rfl⟩, hvalue, hurl, Option.bind_some,
        Option.bind_some, Format.supports]
      cases hconvert : Gemini.convertImageUrlToPart url with
      | none => rfl
      | some part => exact shows_convertImageUrlToPart hconvert

/-- Gemini's format reaches the model with a text that is no JSON array of something else. -/
theorem gemini_reaches (hblank : isBlank text = false)
    (hparts : ∀ items, arrayOf fromStr text = some items → isPartArray items) :
    Reaches fromStr modelName .gemini text := by
  have hcarries : Carries fromStr .gemini text
      (.array (Gemini.convertContentParts fromStr text false)) := by
    rw [Gemini.convertContentParts, hblank, if_neg Bool.false_ne_true]
    unfold Carries
    cases harray : arrayOf fromStr text with
    | none => exact rfl
    | some items =>
      have hall := hparts items harray
      have hshows : (items.filterMap (Gemini.contentPart false)).filterMap Format.gemini.shows =
          items.filterMap (pieceOf .gemini) := by
        rw [filterMap_filterMap]
        exact filterMap_congr fun item hitem =>
          gemini_shows (all_eq_true.1 hall item hitem)
      simp only [if_pos hall]
      by_cases hnil : items.filterMap (Gemini.contentPart false) = []
      · rw [hnil] at hshows ⊢
        exact .inr ⟨hshows.symm, rfl⟩
      · rw [if_neg (by simpa using hnil)]
        exact .inl ⟨_, rfl, hshows⟩
  have hne : (Gemini.convertContentParts fromStr text false).isEmpty = false := by
    rw [Gemini.convertContentParts, hblank, if_neg Bool.false_ne_true]
    split
    · rfl
    · simp only
      split
      · rfl
      · next hnil => simpa using hnil
  have hconvert : Format.gemini.convert fromStr modelName [.user text] =
      [ofFields [("role", .string "user"),
        ("parts", .array (Gemini.convertContentParts fromStr text false))]] := by
    have hpush : Format.gemini.convert fromStr modelName [.user text] = Gemini.pushContent
        (Gemini.pushContent [] "user" (Gemini.convertContentParts fromStr text false ++ [])) "user"
        [] := rfl
    rw [hpush, append_nil]
    simp [Gemini.pushContent, hne]
  refine ⟨_, _, hconvert, ?_, ?_, hcarries⟩
  · rw [get_ofFields]
    rfl
  · rw [get_ofFields]
    rfl

/-- A parser that knows one text: an array with the number one. -/
def knowsOne (text : String) : Option Value :=
  if text = "[1]" then some (.array [.number (.int 1)]) else none

end Texts

end MessageConverters

end OpenBitFun
