import OpenBitFun.Json
import OpenBitFun.Text

/-!
# Messages of a session's context

What context compaction reads of a message: its role, its tool calls and results, and the metadata
that mark it as a reminder, as a user's own input, or as the summary of an earlier compaction. The
attachments (images) are of a type `A`; nothing here looks into them.
-/

namespace OpenBitFun

namespace Compaction

open Json (Value)

/-- `MessageRole`. -/
inductive MessageRole where
  | user
  | assistant
  | tool
  | system
  deriving DecidableEq, Repr

/-- `MessageSemanticKind`. -/
inductive MessageSemanticKind where
  | actualUserInput
  | internalReminder
  | compressionBoundaryMarker
  | compressionSummary
  | computerUseVerificationScreenshot
  | computerUsePostActionSnapshot
  deriving DecidableEq, Repr

/-- `InternalReminderKind`. -/
inductive InternalReminderKind where
  | generic
  | skillListingDiff
  | agentListingDiff
  | agentMode
  | sideQuestion
  | initAgentsMd
  | scheduledJob
  | forkSubagent
  | goalMode
  | goalContinuation
  | goalObjectiveUpdated
  | remoteFileDelivery
  | sessionMessageRequest
  | sessionMessageReply
  | loopRecovery
  | periodicLoopRecovery
  | userSteering
  | backgroundResult
  | interruptedContinue
  | thinkingOnlyRescue
  | finalizeCacheAnchor
  | compressionContinuation
  | stopHookBlock
  | hookContext
  | conditionalInstructions
  deriving DecidableEq, Repr

/-- `should_drop_during_compaction`. -/
def InternalReminderKind.shouldDropDuringCompaction : InternalReminderKind → Bool
  | .skillListingDiff | .agentListingDiff | .loopRecovery | .periodicLoopRecovery
  | .interruptedContinue | .thinkingOnlyRescue | .finalizeCacheAnchor | .compressionContinuation
  | .conditionalInstructions | .stopHookBlock => true
  | _ => false

/-! ## Todo lists -/

/-- `CompressedTodoItem`. -/
structure CompressedTodoItem where
  id : Option String
  content : String
  status : String
  deriving DecidableEq

/-- `CompressedTodoSnapshot`. -/
structure CompressedTodoSnapshot where
  todos : List CompressedTodoItem
  summary : Option String
  deriving DecidableEq

/-- One item of a todo list; an item without content is skipped. -/
def todoItem (todo : Value) : Option CompressedTodoItem := do
  let _ ← todo.asObject
  let content := Text.trim (← (todo.get "content").bind Value.asStr).toList
  if content = [] then none
  else some {
    id := (todo.get "id").bind Value.asStr
    content := String.ofList content
    status := ((todo.get "status").bind Value.asStr).getD "pending" }

/-- `todo_snapshot_from_value`. -/
def todoSnapshotFromValue (v : Value) : Option CompressedTodoSnapshot := do
  let todos ← (← v.get "todos").asArray
  if todos.isEmpty then
    return ⟨[], some "The current-turn task list was explicitly cleared."⟩
  let compressedTodos := todos.filterMap todoItem
  if compressedTodos.isEmpty then none else some ⟨compressedTodos, none⟩

/-! ## Summaries -/

/-- `CompressionContractItem`. -/
structure CompressionContractItem where
  target : String
  status : String
  summary : String
  errorKind : Option String

/-- `CompressionContract`: facts that a compaction retains. -/
structure CompressionContract where
  touchedFiles : List String
  verificationCommands : List CompressionContractItem
  blockingFailures : List CompressionContractItem
  subagentStatuses : List CompressionContractItem

/-- `is_empty`. -/
def CompressionContract.isEmpty (contract : CompressionContract) : Bool :=
  contract.touchedFiles.isEmpty && contract.verificationCommands.isEmpty &&
    contract.blockingFailures.isEmpty && contract.subagentStatuses.isEmpty

/-- `render_contract_items`. -/
def renderContractItems (title : String) (items : List CompressionContractItem) : List String :=
  if items.isEmpty then []
  else title :: items.map fun item =>
    "- " ++ item.target ++ " [" ++ item.status ++ "]: " ++ item.summary ++
      (match item.errorKind with
        | some errorKind => " (" ++ errorKind ++ ")"
        | none => "")

/-- `render_for_model`. -/
def CompressionContract.renderForModel (contract : CompressionContract) : String :=
  "\n".intercalate <|
    ["The following facts were retained during compression. Use them as authoritative " ++
      "context when continuing the task."] ++
    (if contract.touchedFiles.isEmpty then []
    else "Touched files:" :: contract.touchedFiles.map ("- " ++ ·)) ++
    renderContractItems "Verification commands:" contract.verificationCommands ++
    renderContractItems "Blocking failures:" contract.blockingFailures ++
    renderContractItems "Subagent statuses:" contract.subagentStatuses

/-- `CompressedMessage`, of which only the presence is read. -/
structure CompressedMessage where
  text : Option String

/-- `CompressionEntry`. -/
inductive CompressionEntry where
  | contract (contract : CompressionContract)
  | modelSummary (text : String)
  | turn (turnId : Option String) (messages : List CompressedMessage)
      (todo : Option CompressedTodoSnapshot)

/-- `CompressionPayload`: what a summary carries in its metadata. -/
structure CompressionPayload where
  entries : List CompressionEntry

/-- `from_summary`. -/
def CompressionPayload.fromSummary (text : String) : CompressionPayload := ⟨[.modelSummary text]⟩

/-! ## Messages -/

/-- A tool call. -/
structure ToolCall where
  toolId : String
  toolName : String
  arguments : Value
  rawArguments : Option String
  isError : Bool

/-- `MessageContent`. -/
inductive MessageContent (A : Type) where
  | text (text : String)
  | multimodal (text : String) (images : List A)
  | toolResult (toolId toolName : String) (result : Value) (resultForAssistant : Option String)
      (isError : Bool) (imageAttachments : Option (List A))
  | mixed (reasoningContent : Option String) (text : String) (toolCalls : List ToolCall)

/-- `Message`, with the metadata that compaction reads. -/
structure Message (A : Type) where
  /-- Its identity; a changed message has another one. -/
  id : String
  role : MessageRole
  content : MessageContent A
  /-- The dialog turn it belongs to. -/
  turnId : Option String
  semanticKind : Option MessageSemanticKind
  internalReminderKind : Option InternalReminderKind
  compressionPayload : Option CompressionPayload

variable {A : Type}

/-- `Message::user`, with a new id. -/
def Message.user (id text : String) : Message A :=
  ⟨id, .user, .text text, none, none, none, none⟩

/-- `render_system_reminder`. -/
def renderSystemReminder (text : String) : String :=
  "<system_reminder>\n" ++ text ++ "\n</system_reminder>"

/-- The text begins with one of the tags. -/
def startsWithTag (text : List Char) (tags : List String) : Bool :=
  tags.any fun tag => Text.startsWith text ("<" ++ tag ++ ">")

/-- `has_prompt_markup`. -/
def hasPromptMarkup (raw : String) : Bool :=
  startsWithTag (Text.trimStart raw.toList) ["user_query", "system_reminder", "system-reminder"]

/-- `is_system_reminder_only`. -/
def isSystemReminderOnly (raw : String) : Bool :=
  startsWithTag (Text.trim raw.toList) ["system_reminder", "system-reminder"]

/-- `Message::internal_reminder`, with a new id. -/
def Message.internalReminder (id : String) (kind : InternalReminderKind) (text : String) :
    Message A :=
  { Message.user id (if hasPromptMarkup text then text else renderSystemReminder text) with
    semanticKind := some .internalReminder
    internalReminderKind := some kind }

/-- The text of a plain or multimodal message. -/
def MessageContent.plainText : MessageContent A → Option String
  | .text t => some t
  | .multimodal t _ => some t
  | _ => none

/-- `is_actual_user_message`. -/
def Message.isActualUserMessage (m : Message A) : Bool :=
  if m.role ≠ .user then false
  else match m.semanticKind with
    | some kind => kind = .actualUserInput
    | none => !(m.content.plainText.any isSystemReminderOnly)

/-- The message is left out by every compaction. -/
def Message.isDroppable (m : Message A) : Bool :=
  m.internalReminderKind.any InternalReminderKind.shouldDropDuringCompaction

end Compaction

end OpenBitFun
