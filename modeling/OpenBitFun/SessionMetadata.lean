import OpenBitFun.Json
import OpenBitFun.Text

/-!
# Session metadata

What the session lists read of a session's metadata (`session/types.rs`, `session/metadata.rs`).
Older records keep the relation to a parent session in their custom metadata, so every reader
looks there too.
-/

namespace OpenBitFun

open Json

namespace Session

/-- What kind of session it is. -/
inductive SessionKind where
  | standard
  | subagent
  | ephemeralChild
  deriving DecidableEq, Repr

/-- The status of a session. -/
inductive SessionStatus where
  | active
  | archived
  | completed
  deriving DecidableEq, Repr

/-- What a child session is to its parent. -/
inductive SessionRelationshipKind where
  | btw
  | review
  | deepReview
  | miniapp
  | subagent
  deriving DecidableEq, Repr

/-- Whether a persisted subagent session may accept another delegated turn. -/
inductive SessionContinuationPolicy where
  | reusable
  | freshOnly
  deriving DecidableEq, Repr

/-- Where a session executes. -/
inductive SessionExecutionTargetKind where
  | local
  | managedWorktree
  | existingWorktree
  deriving DecidableEq, Repr

/-- The relation of a session to its parent. -/
structure SessionRelationship where
  kind : Option SessionRelationshipKind := none
  parentSessionId : Option String := none
  parentRequestId : Option String := none
  parentDialogTurnId : Option String := none
  parentTurnIndex : Option ℕ := none
  parentToolCallId : Option String := none
  subagentType : Option String := none
  continuationPolicy : Option SessionContinuationPolicy := none
  deriving DecidableEq, Repr

/-- The metadata of a session. -/
structure SessionMetadata where
  sessionId : String
  sessionName : String
  createdBy : Option String := none
  sessionKind : SessionKind := .standard
  createdAt : ℕ
  lastActiveAt : ℕ
  lastFinishedAt : Option ℕ := none
  status : SessionStatus := .active
  customMetadata : Option Value := none
  relationship : Option SessionRelationship := none
  executionTarget : Option SessionExecutionTargetKind := none
  workspaceId : Option String := none
  projectWorkspaceId : Option String := none

namespace SessionMetadata

/-- `is_internal_hidden` -/
def isInternalHidden (m : SessionMetadata) : Bool :=
  m.sessionKind == .subagent || m.sessionKind == .ephemeralChild

/-- `is_legacy_leaked_subagent_identity` -/
def isLegacyLeakedSubagentIdentity (createdBy : Option String) (sessionName : String) : Bool :=
  match createdBy with
  | none => false
  | some createdBy =>
    Text.startsWith createdBy.toList "session-" && Text.startsWith sessionName.toList "Subagent: "

/-- `is_legacy_leaked_subagent_candidate` -/
def isLegacyLeakedSubagentCandidate (m : SessionMetadata) : Bool :=
  isLegacyLeakedSubagentIdentity m.createdBy m.sessionName

/-- `should_hide_from_user_lists` -/
def shouldHideFromUserLists (m : SessionMetadata) : Bool :=
  m.isInternalHidden || m.isLegacyLeakedSubagentCandidate

/-- A text field of the custom metadata. -/
def custom (m : SessionMetadata) (key : String) : Option String :=
  (m.customMetadata.bind fun custom => custom.get key).bind Value.asStr

end SessionMetadata

/-- `str::trim` and the test that something is left. -/
def trimmed (s : String) : Option String :=
  let s := String.ofList (Text.trim s.toList)
  if s.isEmpty then none else some s

/-! ## The relation of an older record -/

/-- The kind of a relation, as the custom metadata spell it. -/
def legacyRelationshipKind (kind : String) : Option SessionRelationshipKind :=
  if kind = "subagent" then some .subagent
  else if kind = "btw" then some .btw
  else if kind = "review" then some .review
  else if kind = "deep_review" then some .deepReview
  else if kind = "miniapp" then some .miniapp
  else none

/-- `normalized_session_relationship`: every field from the relation, or else from the custom
metadata; none when there is no field at all. -/
def normalizedSessionRelationship (m : SessionMetadata) : Option SessionRelationship :=
  let existing := m.relationship
  let relationship : SessionRelationship :=
    { kind := (existing.bind (·.kind)).or ((m.custom "kind").bind legacyRelationshipKind)
      parentSessionId := (existing.bind (·.parentSessionId)).or (m.custom "parentSessionId")
      parentRequestId := (existing.bind (·.parentRequestId)).or (m.custom "parentRequestId")
      parentDialogTurnId :=
        (existing.bind (·.parentDialogTurnId)).or (m.custom "parentDialogTurnId")
      parentTurnIndex := (existing.bind (·.parentTurnIndex)).or
        ((m.customMetadata.bind fun custom => custom.get "parentTurnIndex").bind Value.asU64)
      parentToolCallId := (existing.bind (·.parentToolCallId)).or (m.custom "parentToolCallId")
      subagentType := (existing.bind (·.subagentType)).or (m.custom "subagentType")
      continuationPolicy := existing.bind (·.continuationPolicy) }
  if relationship = {} then none else some relationship

end Session

end OpenBitFun
