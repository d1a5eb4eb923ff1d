import OpenBitFun.Json

/-!
# Messages to a model

A conversation as it is kept between requests (`Message`). A message of a user may have several
parts: then its content is the text of a JSON array.
-/

namespace OpenBitFun

/-- `ToolCall`. -/
structure MessageToolCall where
  id : String
  name : String
  arguments : Json.Value
  rawArguments : Option String

/-- `ToolImageAttachment`. -/
structure ToolImageAttachment where
  mimeType : String
  dataBase64 : String
  deriving DecidableEq

/-- `ModelResponseReplayItem`, with the texts of a summary. -/
inductive ModelResponseReplayItem where
  | opaqueReasoning (itemId : Option String) (summary : List String) (opaqueState : String)
  | assistantMessage
  | functionCall (callId : String)
  deriving DecidableEq

/-- `ModelResponseReplay`, without its origins. -/
structure ModelResponseReplay where
  protocol : String
  items : List ModelResponseReplayItem
  deriving DecidableEq

/-- `Message`. -/
structure Message where
  role : String
  content : Option String
  reasoningContent : Option String
  thinkingSignature : Option String
  toolCalls : Option (List MessageToolCall)
  toolCallId : Option String
  name : Option String
  isError : Option Bool
  toolImageAttachments : Option (List ToolImageAttachment)
  modelResponseReplay : Option ModelResponseReplay

namespace Message

/-- `Message::user`. -/
def user (content : String) : Message where
  role := "user"
  content := some content
  reasoningContent := none
  thinkingSignature := none
  toolCalls := none
  toolCallId := none
  name := none
  isError := none
  toolImageAttachments := none
  modelResponseReplay := none

/-- The attachments, where there are any. -/
def attachments? (msg : Message) : Option (List ToolImageAttachment) :=
  msg.toolImageAttachments.filter fun images => !images.isEmpty

end Message

/-- `serialized_arguments`: what the model wrote, if it is JSON. -/
def MessageToolCall.serializedArguments (fromStr : String → Option Json.Value)
    (call : MessageToolCall) : String :=
  (call.rawArguments.filter fun raw => (fromStr raw).isSome).getD call.arguments.render

end OpenBitFun
