import Mathlib
import OpenBitFun.AssocMap
import OpenBitFun.Retention
import OpenBitFun.Utf8

/-!
# Token anchors

After a request its input tokens are recorded as an anchor (`token_anchor.rs`): so many messages had
so many tokens. A later request that begins with the same messages of a model starts counting from
there. A session retains its recent anchors and the first and the last of each turn.
-/

namespace OpenBitFun

namespace TokenAnchors

/-! ## Anchors -/

/-- `TOKEN_ANCHOR_RECENT_RETAIN_COUNT`. -/
def TOKEN_ANCHOR_RECENT_RETAIN_COUNT : ℕ := 64

/-- `MessageRole`. -/
inductive MessageRole where
  | user
  | assistant
  | tool
  | system
  deriving DecidableEq, Repr

/-- `MessageSemanticKind`. -/
inductive MessageSemanticKind where
  | actualUserInput
  | internalReminder
  | compressionBoundaryMarker
  | compressionSummary
  | computerUseVerificationScreenshot
  | computerUsePostActionSnapshot
  deriving DecidableEq, Repr

/-- `Message`, as far as a prefix is told from another. -/
structure Message where
  id : String
  role : MessageRole
  semanticKind : Option MessageSemanticKind
  deriving DecidableEq, Repr

/-- `TokenAnchor`. -/
structure TokenAnchor where
  anchorId : String
  sessionId : String
  turnId : String
  roundId : String
  prefixMessageCount : ℕ
  prefixLastMessageId : Option String
  prefixDigest : String
  modelId : String
  inputTokens : ℕ
  systemTokensAtAnchor : ℕ
  toolTokensAtAnchor : ℕ
  prependedReminderTokensAtAnchor : ℕ
  createdAtUnixMs : ℕ
  deriving DecidableEq, Repr

/-- `TokenAnchorSkip`. -/
structure TokenAnchorSkip where
  anchorId : String
  prefixMessageCount : ℕ
  reason : String
  deriving DecidableEq, Repr

/-- `TokenAnchorSelection`. -/
structure TokenAnchorSelection where
  selected : Option TokenAnchor
  skipped : List TokenAnchorSkip
  deriving DecidableEq, Repr

/-- `TokenAnchorRetentionStats`. -/
structure TokenAnchorRetentionStats where
  before : ℕ
  after : ℕ
  removed : ℕ
  recentLimit : ℕ
  retainedRecent : ℕ
  retainedTurnBoundaries : ℕ
  deriving DecidableEq, Repr

/-- `TokenAnchorInput`. -/
structure TokenAnchorInput where
  sessionId : String
  turnId : String
  roundId : String
  modelId : String
  inputTokens : ℕ
  systemTokensAtAnchor : ℕ
  toolTokensAtAnchor : ℕ
  prependedReminderTokensAtAnchor : ℕ
  deriving DecidableEq, Repr

/-! ## The digest of a prefix -/

/-- `format!("{:?}", role)`. -/
def MessageRole.debug : MessageRole → String
  | .user => "User"
  | .assistant => "Assistant"
  | .tool => "Tool"
  | .system => "System"

/-- `semantic_kind_tag`. -/
def semanticKindTag : MessageSemanticKind → String
  | .actualUserInput => "actual_user_input"
  | .internalReminder => "internal_reminder"
  | .compressionBoundaryMarker => "compression_boundary_marker"
  | .compressionSummary => "compression_summary"
  | .computerUseVerificationScreenshot => "computer_use_verification_screenshot"
  | .computerUsePostActionSnapshot => "computer_use_post_action_snapshot"

/-- `as_bytes`. -/
def asBytes (text : String) : List UInt8 := Utf8.encode text.toList

/-- What one message adds to the digest. -/
def messageBytes (message : Message) : List UInt8 :=
  (if message.role ≠ .system then asBytes message.id ++ [0] else []) ++
    asBytes message.role.debug ++ [0] ++
    (message.semanticKind.elim [] fun kind => asBytes (semanticKindTag kind)) ++ [0xff]

/-- `digest_message_prefix`; `sha256` is the digest of some bytes in hexadecimal digits. -/
def digestMessagePrefix (sha256 : List UInt8 → String) (messages : List Message) : String :=
  sha256 (messages.flatMap messageBytes)

section

variable (sha256 : List UInt8 → String)

/-- `TokenAnchor::from_request_prefix`, with the new id and the time. -/
def TokenAnchor.fromRequestPrefix (uuid : String) (unixMs : ℕ) (input : TokenAnchorInput)
    (messages : List Message) : TokenAnchor where
  anchorId := "token_anchor_" ++ uuid
  sessionId := input.sessionId
  turnId := input.turnId
  roundId := input.roundId
  prefixMessageCount := messages.length
  prefixLastMessageId := messages.getLast?.map (·.id)
  prefixDigest := digestMessagePrefix sha256 messages
  modelId := input.modelId
  inputTokens := input.inputTokens
  systemTokensAtAnchor := input.systemTokensAtAnchor
  toolTokensAtAnchor := input.toolTokensAtAnchor
  prependedReminderTokensAtAnchor := input.prependedReminderTokensAtAnchor
  createdAtUnixMs := unixMs

/-- The last check of `prefix_mismatch_reason`. -/
def TokenAnchor.digestMismatch (anchor : TokenAnchor) (messages : List Message) : Option String :=
  let currentDigest := digestMessagePrefix sha256 (messages.take anchor.prefixMessageCount)
  if currentDigest ≠ anchor.prefixDigest then
    some ("prefix_digest_mismatch(expected=" ++ anchor.prefixDigest ++ ", actual=" ++
      currentDigest ++ ")")
  else none

/-- `TokenAnchor::prefix_mismatch_reason`. -/
def TokenAnchor.prefixMismatchReason (anchor : TokenAnchor) (messages : List Message) :
    Option String :=
  if anchor.prefixMessageCount > messages.length then
    some ("anchor_prefix_longer_than_messages(anchor_prefix=" ++
      toString anchor.prefixMessageCount ++ ", messages=" ++ toString messages.length ++ ")")
  else match anchor.prefixMessageCount, anchor.prefixLastMessageId with
    | 0, none => anchor.digestMismatch sha256 messages
    | 0, some _ => some "empty_prefix_has_last_message_id"
    | count + 1, some lastId =>
      let currentLastId := messages[count]?.map (·.id)
      if currentLastId ≠ some lastId then
        some ("prefix_last_message_id_mismatch(expected=" ++ lastId ++ ", actual=" ++
          currentLastId.getD "<missing>" ++ ")")
      else anchor.digestMismatch sha256 messages
    | _ + 1, none => some "non_empty_prefix_missing_last_message_id"

end

/-! ## Retention -/

/-- The first and the last index of each turn. -/
def turnBoundaries (anchors : List TokenAnchor) : AssocMap String (ℕ × ℕ) :=
  anchors.zipIdx.foldl (fun boundaries (anchor, index) =>
    match boundaries.lookup anchor.turnId with
    | some (first, _) => boundaries.insert anchor.turnId (first, index)
    | none => boundaries.insert anchor.turnId (index, index)) ∅

/-- The indices that are boundaries. -/
def boundaryIndices (anchors : List TokenAnchor) : Finset ℕ :=
  ((turnBoundaries anchors).entries.flatMap fun x => [x.2.1, x.2.2]).toFinset

/-- `apply_anchor_retention`. -/
def applyAnchorRetention (anchors : List TokenAnchor) (recentLimit : ℕ) :
    Option TokenAnchorRetentionStats × List TokenAnchor :=
  let before := anchors.length
  if before ≤ recentLimit then (none, anchors)
  else
    let recentStart := before - recentLimit
    let retainedRecent := before - recentStart
    let retainIndices :=
      (List.range' recentStart retainedRecent).toFinset ∪ boundaryIndices anchors
    if retainIndices.card = before then (none, anchors)
    else
      let retained := (anchors.zipIdx.filter (·.2 ∈ retainIndices)).map (·.1)
      let after := retained.length
      (some ⟨before, after, before - after, recentLimit, retainedRecent,
        (boundaryIndices anchors).card⟩, retained)

/-! ## The store -/

/-- `TokenAnchorStore`. -/
structure TokenAnchorStore where
  anchorsBySession : AssocMap String (List TokenAnchor)

namespace TokenAnchorStore

/-- `new`. -/
def new : TokenAnchorStore := ⟨∅⟩

/-- `append`. -/
def append (store : TokenAnchorStore) (anchor : TokenAnchor) :
    Option TokenAnchorRetentionStats × TokenAnchorStore :=
  let anchors := (store.anchorsBySession.lookup anchor.sessionId).getD []
  let (stats, anchors) :=
    applyAnchorRetention (anchors ++ [anchor]) TOKEN_ANCHOR_RECENT_RETAIN_COUNT
  (stats, ⟨store.anchorsBySession.insert anchor.sessionId anchors⟩)

/-- `anchors`. -/
def anchors (store : TokenAnchorStore) (sessionId : String) : List TokenAnchor :=
  (store.anchorsBySession.lookup sessionId).getD []

/-- The loop of `select_latest_matching_for_model`. -/
def selectFrom (sha256 : List UInt8 → String) (messages : List Message) (modelId : Option String)
    (skipped : List TokenAnchorSkip) : List TokenAnchor → TokenAnchorSelection
  | [] => ⟨none, if skipped.isEmpty then [⟨"<none>", 0, "no_anchors_recorded"⟩] else skipped⟩
  | anchor :: anchors =>
    let mismatch :=
      if modelId.any (· ≠ anchor.modelId) then some "model_id_mismatch"
      else anchor.prefixMismatchReason sha256 messages
    match mismatch with
    | some reason => selectFrom sha256 messages modelId
      (skipped ++ [⟨anchor.anchorId, anchor.prefixMessageCount, reason⟩]) anchors
    | none => ⟨some anchor, skipped⟩

/-- `select_latest_matching_for_model`. -/
def selectLatestMatchingForModel (sha256 : List UInt8 → String) (store : TokenAnchorStore)
    (sessionId : String) (messages : List Message) (modelId : Option String) :
    TokenAnchorSelection :=
  match store.anchorsBySession.lookup sessionId with
  | none => ⟨none, [⟨"<none>", 0, "no_anchor_store_for_session"⟩]⟩
  | some anchors => selectFrom sha256 messages modelId [] anchors.reverse

end TokenAnchorStore

end TokenAnchors

end OpenBitFun
