import OpenBitFun.ModelMessage
import OpenBitFun.Text

/-!
# Message converters

Each provider has a format of its own for a conversation; the converters make it out of the
messages (`message_converter.rs` of the providers). Parsing JSON is left to a parameter.
-/

namespace OpenBitFun

namespace MessageConverters

open Json

variable (fromStr : String → Option Value)

/-! ## Common parts -/

/-- A string that is white space. -/
def isBlank (s : String) : Bool := (Text.trim s.toList).isEmpty

/-- `trim_end` of a string. -/
def trimEnd (s : String) : String := String.ofList (Text.trimEnd s.toList)

/-- The types of text parts. -/
def textTypes : List String := ["text", "input_text", "output_text"]

/-- The items of a content that is a JSON array. -/
def arrayOf (content : String) : Option (List Value) := (fromStr content).bind Value.asArray

/-- `extract_image_url_value`: the URL of an object, or a string. -/
def extractImageUrlValue (value : Value) : Option String :=
  ((value.get "url").bind Value.asStr).or value.asStr

/-- The type of a part. -/
def typeOf (part : Value) : Option String := (part.get "type").bind Value.asStr

/-- The text of a part. -/
def textOf (part : Value) : Option String := (part.get "text").bind Value.asStr

/-- A content part with a type and a text. -/
def textPart (type text : String) : Value :=
  ofFields [("type", .string type), ("text", .string text)]

/-- The URL of an attachment. -/
def dataUrl (image : ToolImageAttachment) : String :=
  "data:" ++ image.mimeType ++ ";base64," ++ image.dataBase64

/-- `last_mut` with a change. -/
def modifyLast (f : Value → Value) : List Value → List Value
  | [] => []
  | [v] => [f v]
  | v :: w :: l => v :: modifyLast f (w :: l)

/-- A value whose text, if it has one, loses the white space at its end. -/
def trimText (part : Value) : Value :=
  part.modify "text" fun
    | .string text => .string (trimEnd text)
    | value => value

/-! ## Chat Completions -/

namespace Chat

/-- One part in `parse_chat_completions_content_parts`. -/
def contentPart (role : String) (item : Value) : Option Value :=
  (typeOf item).bind fun itemType =>
    if itemType ∈ textTypes then (textOf item).map (textPart "text")
    else if itemType = "image_url" ∧ role = "user" then
      (item.get "image_url").bind fun imageUrlValue =>
        (extractImageUrlValue imageUrlValue).map fun url =>
          let detail := ((imageUrlValue.get "detail").bind Value.asStr).toList.map fun detail =>
            ("detail", Value.string detail)
          ofFields [("type", .string "image_url"),
            ("image_url", ofFields (("url", .string url) :: detail))]
    else none

/-- `parse_chat_completions_content_parts`: the text of a tool is never taken apart. -/
def parseContentParts (role content : String) : Option (List Value) :=
  if role = "tool" then none
  else (arrayOf fromStr content).bind fun items =>
    if items.isEmpty then none else items.mapM (contentPart role)

/-- The content of a message in `convert_single_message`. -/
def convertContent (msg : Message) : Option Value :=
  let hasToolCalls := msg.toolCalls.isSome
  let content := msg.content.map fun content =>
    if msg.role = "tool" ∧ msg.isError.getD false ∧ !content.startsWith "[TOOL ERROR]" then
      "[TOOL ERROR] " ++ content
    else content
  match content with
  | some content =>
    if isBlank content then
      if msg.role = "assistant" ∧ hasToolCalls then some (.string content)
      else if msg.role = "tool" then some (.string "Tool execution completed")
      else some (.string " ")
    else match parseContentParts fromStr msg.role content with
      | some parts => some (.array parts)
      | none => some (.string content)
  | none =>
    if msg.role = "assistant" ∧ hasToolCalls then none
    else if msg.role = "tool" then some (.string "Tool execution completed")
    else some (.string " ")

/-- A tool call. -/
def convertToolCall (call : MessageToolCall) : Value :=
  ofFields [("id", .string call.id), ("type", .string "function"),
    ("function", ofFields [("name", .string call.name),
      ("arguments", .string (call.serializedArguments fromStr))])]

/-- `convert_single_message`. -/
def convertSingleMessage (msg : Message) : Value :=
  ofFields ([("role", .string msg.role)] ++
    (convertContent fromStr msg).toList.map (fun content => ("content", content)) ++
    msg.reasoningContent.toList.map (fun reasoning => ("reasoning_content", .string reasoning)) ++
    msg.toolCalls.toList.map
      (fun calls => ("tool_calls", .array (calls.map (convertToolCall fromStr)))) ++
    msg.toolCallId.toList.map (fun id => ("tool_call_id", .string id)) ++
    if msg.role = "tool" then [] else msg.name.toList.map fun name => ("name", .string name))

/-- The parts about the images of a tool's result. -/
def toolImages (msg : Message) : List Value :=
  match msg.attachments? with
  | some attachments =>
    textPart "text" ("Images returned by tool " ++ msg.name.getD "unknown" ++
        " (tool_call_id: " ++ msg.toolCallId.getD "unknown" ++ "):") ::
      attachments.map fun attachment =>
        ofFields [("type", .string "image_url"),
          ("image_url", ofFields [("url", .string (dataUrl attachment)),
            ("detail", .string "auto")])]
  | none => []

/-- The message of a user with the images of tools, if there are any. -/
def imageMessage (images : List Value) : List Value :=
  if images.isEmpty then []
  else [ofFields [("role", .string "user"), ("content", .array images)]]

/-- The loop of `convert_messages`: images wait until all results of a batch of tools are there. -/
def convertFrom (images : List Value) : List Message → List Value
  | [] => imageMessage images
  | msg :: msgs =>
    if msg.role = "tool" then
      convertSingleMessage fromStr { msg with toolImageAttachments := none } ::
        convertFrom (images ++ toolImages msg) msgs
    else
      imageMessage images ++ convertSingleMessage fromStr msg :: convertFrom [] msgs

end Chat

/-- The last part, from the end, with a text loses the white space at its end. -/
def trimLastText : List Value → List Value
  | [] => []
  | item :: items =>
    if items.any fun item => (textOf item).isSome then item :: trimLastText items
    else trimText item :: items

/-- `trim_final_assistant_trailing_whitespace` of the OpenAI formats. -/
def trimFinalAssistant (messages : List Value) : List Value :=
  modifyLast (fun last =>
    if (last.get "role").bind Value.asStr = some "assistant" then
      last.modify "content" fun
        | .string text => .string (trimEnd text)
        | .array items => .array (trimLastText items)
        | value => value
    else last) messages

/-- `convert_messages` to Chat Completions. -/
def Chat.convertMessages (messages : List Message) : List Value :=
  trimFinalAssistant (Chat.convertFrom fromStr [] messages)

/-! ## Responses -/

namespace Responses

/-- `OPENAI_RESPONSES_REPLAY_PROTOCOL`. -/
def replayProtocol : String := "openai_responses"

/-- `responses_text_item_type`. -/
def textItemType (role : String) : String :=
  if role = "assistant" then "output_text" else "input_text"

/-- One part in `parse_responses_content_parts`. -/
def contentPart (role : String) (item : Value) : Option Value :=
  (typeOf item).bind fun itemType =>
    if itemType ∈ textTypes then (textOf item).map (textPart (textItemType role))
    else if itemType = "image_url" ∧ role ≠ "assistant" then
      (item.get "image_url").bind fun imageUrlValue =>
        (extractImageUrlValue imageUrlValue).map fun url =>
          ofFields [("type", .string "input_image"), ("image_url", .string url)]
    else none

/-- `parse_responses_content_parts`. -/
def parseContentParts (role content : String) : Option (List Value) :=
  (arrayOf fromStr content).bind fun items =>
    if items.isEmpty then none else items.mapM (contentPart role)

/-- `convert_message_content_to_responses_items`. -/
def convertContent (role content : String) : List Value :=
  if isBlank content then [textPart (textItemType role) " "]
  else (parseContentParts fromStr role content).getD [textPart (textItemType role) content]

/-- The item of a message. -/
def messageItem (role : String) (content : List Value) : Value :=
  ofFields [("type", .string "message"), ("role", .string role), ("content", .array content)]

/-- The item of a tool call. -/
def functionCall (call : MessageToolCall) : Value :=
  ofFields [("type", .string "function_call"), ("call_id", .string call.id),
    ("name", .string call.name), ("arguments", .string (call.serializedArguments fromStr))]

/-- `convert_tool_message_to_responses_item`. -/
def convertToolMessage (msg : Message) : Option Value :=
  msg.toolCallId.map fun callId =>
    let text := msg.content.getD ""
    let text := if msg.isError.getD false ∧ !text.startsWith "[TOOL ERROR]" then
      "[TOOL ERROR] " ++ text else text
    let text := if text = "" then "Tool execution completed" else text
    let output := match msg.attachments? with
      | some attachments => .array (attachments.map (fun attachment =>
          ofFields [("type", .string "input_image"),
            ("image_url", .string (dataUrl attachment))]) ++ [textPart "input_text" text])
      | none => .string text
    ofFields [("type", .string "function_call_output"), ("call_id", .string callId),
      ("output", output)]

/-- The item of opaque reasoning. -/
def reasoningItem (itemId : Option String) (summary : List String) (opaqueState : String) : Value :=
  ofFields ([("type", .string "reasoning"),
      ("summary", .array (summary.map (textPart "summary_text"))),
      ("encrypted_content", .string opaqueState)] ++
    (itemId.filter (· ≠ "")).toList.map fun id => ("id", .string id))

/-- What the loop of `convert_assistant_replay_items` keeps. -/
structure ReplayState where
  output : List Value
  assistantMessageUsed : Bool
  usedToolCalls : List String
  sawOpaqueReasoning : Bool

/-- One step of the loop of `convert_assistant_replay_items`. -/
def replayItem (message : Option Value) (calls : List MessageToolCall) (s : ReplayState) :
    ModelResponseReplayItem → Option ReplayState
  | .opaqueReasoning itemId summary opaqueState =>
    if opaqueState = "" then none
    else some { s with
      output := s.output ++ [reasoningItem itemId summary opaqueState]
      sawOpaqueReasoning := true }
  | .assistantMessage =>
    if s.assistantMessageUsed then none
    else message.map fun message =>
      { s with output := s.output ++ [message], assistantMessageUsed := true }
  | .functionCall callId =>
    if callId ∈ s.usedToolCalls then none
    else (calls.find? fun call => call.id = callId).map fun call =>
      { s with
        output := s.output ++ [functionCall fromStr call]
        usedToolCalls := s.usedToolCalls ++ [callId] }

/-- `convert_assistant_replay_items`: the items of an answer, if they are all of it. -/
def convertAssistantReplayItems (msg : Message) : Option (List Value) :=
  msg.modelResponseReplay.bind fun replay =>
    if replay.protocol ≠ replayProtocol ∨ replay.items = [] then none
    else
      let message := msg.content.map fun content =>
        messageItem "assistant" (convertContent fromStr "assistant" content)
      let calls := msg.toolCalls.getD []
      if calls.any (fun call => call.id = "") ∨ ¬(calls.map MessageToolCall.id).Nodup then none
      else (replay.items.foldlM (replayItem fromStr message calls) ⟨[], false, [], false⟩).bind
        fun s =>
          if !s.sawOpaqueReasoning ∨ s.assistantMessageUsed ≠ message.isSome ∨
              s.usedToolCalls.length ≠ calls.length then none
          else some s.output

/-- The items of a message. -/
def convertMessage (msg : Message) : List Value :=
  if msg.role = "system" then []
  else if msg.role = "tool" then (convertToolMessage msg).toList
  else if msg.role = "assistant" then
    (convertAssistantReplayItems fromStr msg).getD
      (msg.content.toList.map (fun content =>
          messageItem "assistant" (convertContent fromStr "assistant" content)) ++
        (msg.toolCalls.getD []).map (functionCall fromStr))
  else msg.content.toList.map fun content =>
    messageItem msg.role (convertContent fromStr msg.role content)

/-- The instructions in `convert_messages_to_responses_input`. -/
def instructions (messages : List Message) : Option String :=
  let texts := (messages.filter fun msg => msg.role = "system").filterMap fun msg =>
    msg.content.filter fun content => !isBlank content
  if texts = [] then none else some ("\n\n".intercalate texts)

/-- `convert_messages_to_responses_input`. -/
def convertMessages (messages : List Message) : Option String × List Value :=
  (instructions messages, trimFinalAssistant (messages.flatMap (convertMessage fromStr)))

end Responses

/-! ## Anthropic -/

namespace Anthropic

/-- A message with content blocks. -/
def blocksMessage (role : String) (content : Value) : Value :=
  ofFields [("role", .string role), ("content", content)]

/-- `convert_user_message`: a JSON array is sent as it is. -/
def convertUserMessage (msg : Message) : Value :=
  let content := msg.content.getD ""
  match arrayOf fromStr content with
  | some items => blocksMessage "user" (.array items)
  | none => blocksMessage "user" (.array [textPart "text" content])

/-- `convert_assistant_message`. -/
def convertAssistantMessage (msg : Message) : Option Value :=
  let thinking := if msg.reasoningContent.isSome || msg.thinkingSignature.isSome then
      [ofFields [("type", .string "thinking"),
        ("thinking", .string (msg.reasoningContent.getD "")),
        ("signature", .string (msg.thinkingSignature.getD ""))]]
    else []
  let text := (msg.content.filter (· ≠ "")).toList.map (textPart "text")
  let calls := (msg.toolCalls.getD []).map fun call =>
    ofFields [("type", .string "tool_use"), ("id", .string call.id), ("name", .string call.name),
      ("input", call.arguments)]
  let content := thinking ++ text ++ calls
  if content.isEmpty then none else some (blocksMessage "assistant" (.array content))

/-- The content of a tool's result. -/
def toolContent (msg : Message) : Value :=
  let text := msg.content.getD ""
  match msg.attachments? with
  | some attachments => .array (attachments.map (fun attachment =>
      ofFields [("type", .string "image"),
        ("source", ofFields [("type", .string "base64"),
          ("media_type", .string attachment.mimeType),
          ("data", .string attachment.dataBase64)])]) ++ [textPart "text" text])
  | none => .string text

/-- `convert_tool_result_message`. -/
def convertToolResultMessage (msg : Message) : Value :=
  let isError := if msg.isError.getD false then [("is_error", Value.bool true)] else []
  blocksMessage "user" (.array [ofFields ([("type", .string "tool_result"),
    ("tool_use_id", .string (msg.toolCallId.getD "")), ("content", toolContent msg)] ++ isError)])

/-- The message of a turn; an unknown role has none. -/
def convertMessage (msg : Message) : Option Value :=
  if msg.role = "user" then some (convertUserMessage fromStr msg)
  else if msg.role = "assistant" then convertAssistantMessage msg
  else if msg.role = "tool" then some (convertToolResultMessage msg)
  else none

/-- The role of a message, or nothing. -/
def roleOf (message : Value) : String := ((message.get "role").bind Value.asStr).getD ""

/-- One message in `merge_consecutive_messages`: `last` is what was merged last. -/
def mergeInto (last message : Value) : Option Value :=
  if roleOf last = roleOf message ∧ (roleOf message = "user" ∨ roleOf message = "assistant") then
    match (last.get "content").bind Value.asArray, (message.get "content").bind Value.asArray with
    | some lastBlocks, some currentBlocks =>
      some (last.modify "content" fun _ => .array (lastBlocks ++ currentBlocks))
    | _, _ => none
  else none

/-- `merge_consecutive_messages`. -/
def mergeConsecutive (messages : List Value) : List Value :=
  messages.foldl (fun merged message =>
    match merged.getLast?.bind fun last => mergeInto last message with
    | some last => merged.dropLast ++ [last]
    | none => merged ++ [message]) []

/-- `trim_final_assistant_trailing_whitespace` of Anthropic's format: only the last block counts. -/
def trimFinalAssistant (messages : List Value) : List Value :=
  modifyLast (fun last =>
    if (last.get "role").bind Value.asStr = some "assistant" then
      last.modify "content" fun
        | .string text => .string (trimEnd text)
        | .array blocks => .array (modifyLast
            (fun block => if typeOf block = some "text" then trimText block else block) blocks)
        | value => value
    else last) messages

/-- `convert_messages` to Anthropic's format: the last system message counts. -/
def convertMessages (messages : List Message) : Option String × List Value :=
  (((messages.filter fun msg => msg.role = "system").filterMap Message.content).getLast?,
    trimFinalAssistant (mergeConsecutive (messages.filterMap (convertMessage fromStr))))

end Anthropic

/-! ## Gemini -/

namespace Gemini

/-- A part with a text. -/
def textPart (text : String) : Value := ofFields [("text", .string text)]

/-- A part with an image. -/
def imagePart (mimeType data : String) : Value :=
  ofFields [("inlineData", ofFields [("mimeType", .string mimeType), ("data", .string data)])]

/-- `split_once` for a pattern. -/
def splitOnce (s pattern : List Char) : Option (List Char × List Char) :=
  (Text.find s pattern).map fun n => (s.take n, s.drop (n + pattern.length))

/-- `convert_image_url_to_part`: only the data of a URL can be sent. -/
def convertImageUrlToPart (url : String) : Option Value :=
  if "data:".toList.isPrefixOf url.toList then
    (splitOnce (url.toList.drop 5) ";base64,".toList).bind fun (mimeType, data) =>
      if mimeType.isEmpty || data.isEmpty then none
      else some (imagePart (String.ofList mimeType) (String.ofList data))
  else none

/-- One item in `convert_content_parts`. -/
def contentPart (isModelRole : Bool) (item : Value) : Option Value :=
  match typeOf item with
  | none => none
  | some itemType =>
    if itemType ∈ textTypes then ((textOf item).filter (· ≠ "")).map textPart
    else if itemType = "image_url" ∧ !isModelRole then
      ((item.get "image_url").bind extractImageUrlValue).bind convertImageUrlToPart
    else if itemType = "image" ∧ !isModelRole then
      match ((item.get "source").bind fun source => source.get "media_type").bind Value.asStr,
        ((item.get "source").bind fun source => source.get "data").bind Value.asStr with
      | some mimeType, some data => some (imagePart mimeType data)
      | _, _ => none
    else none

/-- `convert_content_parts`: items that are not known are left out. -/
def convertContentParts (content : String) (isModelRole : Bool) : List Value :=
  if isBlank content then []
  else match arrayOf fromStr content with
    | none => [textPart content]
    | some items =>
      let parts := items.filterMap (contentPart isModelRole)
      if parts.isEmpty then [textPart content] else parts

/-- `parse_tool_response`. -/
def parseToolResponse (content : Option String) : Value :=
  match content.filter fun content => !isBlank content with
  | none => ofFields [("content", .string "Tool execution completed")]
  | some content => match fromStr content with
    | some (.object fields) => .object fields
    | some value => ofFields [("content", value)]
    | none => ofFields [("content", .string content)]

/-- `push_content`: parts of the role that spoke last are added to its turn. -/
def pushContent (contents : List Value) (role : String) (parts : List Value) : List Value :=
  if parts.isEmpty then contents
  else
    let merged := contents.getLast?.bind fun last =>
      if ((last.get "role").bind Value.asStr).getD "" = role then
        ((last.get "parts").bind Value.asArray).map fun existing =>
          last.modify "parts" fun _ => .array (existing ++ parts)
      else none
    match merged with
    | some last => contents.dropLast ++ [last]
    | none => contents ++ [ofFields [("role", .string role), ("parts", .array parts)]]

/-- The part with a thought's signature. -/
def signaturePart (signature : String) : Value := ofFields [("thoughtSignature", .string signature)]

/-- The parts of the tool calls: the first one carries the signature. Gemini 3 asks for one. -/
def callParts (isGemini3 : Bool) (signature : Option String) : (first : Bool) →
    List MessageToolCall → List Value
  | _, [] => []
  | first, call :: calls =>
    let signed := match signature with
      | some signature => [("thoughtSignature", Value.string signature)]
      | none => if isGemini3 && first then
          [("thoughtSignature", .string "skip_thought_signature_validator")] else []
    ofFields (("functionCall", ofFields [("name", .string call.name), ("args", call.arguments)]) ::
      signed) :: callParts isGemini3 none false calls

/-- The parts of an assistant's message. -/
def assistantParts (isGemini3 : Bool) (msg : Message) : List Value :=
  let signature := msg.thinkingSignature.filter fun signature => !isBlank signature
  let calls := msg.toolCalls.getD []
  let content := msg.content.filter fun content => !isBlank content
  let signsContent := content.isSome && calls.isEmpty
  (if signsContent then signature.toList.map signaturePart else []) ++
    (content.toList.flatMap fun content => convertContentParts fromStr content true) ++
    (if signsContent then [] else callParts isGemini3 signature true calls) ++
    (if !signsContent && calls.isEmpty then signature.toList.map signaturePart else [])

/-- The parts with the images of a tool. -/
def imageParts (attachments : List ToolImageAttachment) : List Value :=
  attachments.map fun image => imagePart image.mimeType image.dataBase64

/-- The part with a tool's result. Gemini 3 takes images in it. -/
def functionResponse (isGemini3 : Bool) (toolName : String) (msg : Message) : Value :=
  let response := if msg.isError.getD false then
      ofFields [("error", .string ((msg.content.filter fun text => !isBlank text).getD
        "Tool execution failed"))]
    else parseToolResponse fromStr msg.content
  let parts := if isGemini3 then
      msg.attachments?.toList.map fun images => ("parts", Value.array (imageParts images))
    else []
  ofFields [("functionResponse",
    ofFields ([("name", .string toolName), ("response", response)] ++ parts))]

/-- The images of a tool that wait for the end of its batch. -/
def toolImages (isGemini3 : Bool) (toolName : String) (msg : Message) : List Value :=
  if isGemini3 then []
  else match msg.attachments? with
    | some images =>
      textPart ("Images returned by tool " ++ toolName ++ " (tool_call_id: " ++
        msg.toolCallId.getD "unknown" ++ "):") :: imageParts images
    | none => []

/-- The loop of `convert_messages`: the turns so far, and the images that wait. -/
def convertFrom (isGemini3 : Bool) (contents images : List Value) : List Message → List Value
  | [] => pushContent contents "user" images
  | msg :: msgs =>
    if msg.role = "tool" then
      let toolName := msg.name.getD ""
      -- a result without the name of its tool is left out
      if toolName = "" then convertFrom isGemini3 contents images msgs
      else convertFrom isGemini3
        (pushContent contents "user" [functionResponse fromStr isGemini3 toolName msg])
        (images ++ toolImages isGemini3 toolName msg) msgs
    else
      let contents := pushContent contents "user" images
      let contents := if msg.role = "user" then
          pushContent contents "user"
            (msg.content.toList.flatMap fun content => convertContentParts fromStr content false)
        else if msg.role = "assistant" then
          pushContent contents "model" (assistantParts fromStr isGemini3 msg)
        else contents
      convertFrom isGemini3 contents [] msgs

/-- The system instruction. -/
def systemInstruction (messages : List Message) : Option Value :=
  let texts := (messages.filter fun msg => msg.role = "system").filterMap fun msg =>
    msg.content.filter fun content => !isBlank content
  if texts = [] then none
  else some (ofFields [("parts", .array [textPart ("\n\n".intercalate texts)])])

/-- `convert_messages` to Gemini's format. -/
def convertMessages (messages : List Message) (modelName : String) : Option Value × List Value :=
  let isGemini3 := Text.contains modelName.toList "gemini-3".toList
  (systemInstruction messages, convertFrom fromStr isGemini3 [] [] messages)

end Gemini

end MessageConverters

end OpenBitFun
