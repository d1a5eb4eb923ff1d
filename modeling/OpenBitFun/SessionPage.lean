import Mathlib
import OpenBitFun.AssocMap
import OpenBitFun.SessionMetadata

/-!
# Pages of the session catalog

`PreparedSessionCatalog` (`session/page.rs`) splits the visible sessions into top-level sessions
and children, and hands them out in pages of top-level sessions, each followed by its children. A
cursor names the last top-level session of a page. The catalog reads cursors of its own, cursors of
another revision, and the plain numbers of older clients.
-/

namespace OpenBitFun

open Json

namespace Session

/-! ## Queries -/

/-- By which time a query orders the sessions. -/
inductive SessionCatalogOrdering where
  | created
  | updated
  deriving DecidableEq, Repr

/-- A navigation query. -/
structure SessionCatalogQuery where
  workspaceId : String
  ordering : SessionCatalogOrdering
  source : String
  sources : List String := []
  sortTimestamps : AssocMap String ℕ := ∅

/-- `catalog_workspace_id` -/
def catalogWorkspaceId (m : SessionMetadata) : Option String :=
  let isolated := m.executionTarget.any fun kind => kind != .local
  if isolated then m.projectWorkspaceId else m.workspaceId

/-- `catalog_source_matches` -/
def catalogSourceMatches (m : SessionMetadata) (query : SessionCatalogQuery) : Bool :=
  let metadataSource := ((m.custom "importedFrom").filter fun value => !value.isEmpty).getD
    "openbitfun"
  if !query.sources.isEmpty then query.sources.any fun source => source == metadataSource
  else query.source == "all" || metadataSource == query.source

/-- `catalog_parent_id`: a structured side or review session is a child; of the older records only
the reviews are. -/
def catalogParentId (m : SessionMetadata) : Option String :=
  match m.relationship.bind (·.kind) with
  | some kind =>
    if kind ≠ .btw ∧ kind ≠ .review ∧ kind ≠ .deepReview then none
    else (m.relationship.bind (·.parentSessionId)).bind trimmed
  | none =>
    if m.custom "kind" = some "review" ∨ m.custom "kind" = some "deep_review" then
      (m.custom "parentSessionId").bind trimmed
    else none

/-- `catalog_hides_subagent` -/
def catalogHidesSubagent (m : SessionMetadata) : Bool :=
  match m.relationship.bind (·.kind) with
  | some kind => kind == .subagent
  | none => m.custom "kind" == some "subagent"

/-- `catalog_sort_key`: the time that orders the sessions, and the time of creation. -/
def catalogSortKey (m : SessionMetadata) (query : SessionCatalogQuery) : ℕ × ℕ :=
  let timestamp :=
    if query.ordering = .created then m.createdAt
    else
      (((query.sortTimestamps.lookup m.sessionId).or m.lastFinishedAt).or
        ((m.customMetadata.bind fun custom => custom.get "lastFinishedAt").bind
          Value.asU64)).getD m.createdAt
  (timestamp, m.createdAt)

/-- The comparison of two keys. -/
def compareKeys : ℕ × ℕ → ℕ × ℕ → Ordering := compareLex (compareOn Prod.fst) (compareOn Prod.snd)

/-- `catalog_order`: latest first, and by identifier among equals. -/
def catalogOrder (left right : SessionMetadata) (query : SessionCatalogQuery) : Ordering :=
  (compareKeys (catalogSortKey right query) (catalogSortKey left query)).then
    (compare left.sessionId right.sessionId)

/-- `session_parent_id` -/
def sessionParentId (m : SessionMetadata) : Option String :=
  ((m.relationship.bind (·.parentSessionId)).bind trimmed).or
    ((m.customMetadata.bind fun custom =>
      ((custom.get "parentSessionId").or (custom.get "parent_session_id")).bind Value.asStr).bind
        trimmed)

/-! ## The catalog -/

/-- The navigation projection of a list of sessions. -/
structure PreparedSessionCatalog where
  topLevelSessions : List SessionMetadata
  childrenByParent : AssocMap String (List SessionMetadata)
  offsets : AssocMap String ℕ
  query : Option SessionCatalogQuery
  revision : Option String

/-- The query that is taken: every session it could list must name its workspace. -/
def acceptedQuery (indexedSessions : List SessionMetadata) (query : Option SessionCatalogQuery) :
    Option SessionCatalogQuery :=
  query.filter fun query =>
    !query.workspaceId.isEmpty && indexedSessions.all fun m =>
      m.shouldHideFromUserLists || m.status == .archived || catalogHidesSubagent m ||
        (catalogWorkspaceId m).isSome

/-- Which sessions are listed at all. -/
def isVisible (query : Option SessionCatalogQuery) (m : SessionMetadata) : Bool :=
  !m.shouldHideFromUserLists && m.status != .archived && query.all fun query =>
    catalogWorkspaceId m == some query.workspaceId && !catalogHidesSubagent m

/-- The parent that the catalog reads. -/
def parentId (query : Option SessionCatalogQuery) (m : SessionMetadata) : Option String :=
  if query.isSome then catalogParentId m else sessionParentId m

/-- The parent, if it is visible. -/
def visibleParent (query : Option SessionCatalogQuery) (visibleIds : List String)
    (m : SessionMetadata) : Option String :=
  (parentId query m).filter fun parent => visibleIds.contains parent

/-- One turn of the loop of `new`: a session with a visible parent joins its children, any other is
a top-level session. -/
def place (query : Option SessionCatalogQuery) (visibleIds : List String)
    (placed : List SessionMetadata × AssocMap String (List SessionMetadata))
    (m : SessionMetadata) : List SessionMetadata × AssocMap String (List SessionMetadata) :=
  match visibleParent query visibleIds m with
  | some parent => (placed.1, placed.2.insert parent (placed.2.list parent ++ [m]))
  | none => (placed.1 ++ [m], placed.2)

/-- `retain` and `sort_by` with a query. -/
def arrange (query : SessionCatalogQuery) (sessions : List SessionMetadata) :
    List SessionMetadata :=
  (sessions.filter fun m => catalogSourceMatches m query).insertionSort fun left right =>
    (catalogOrder left right query).isLE

/-- The top-level sessions in their order. -/
def arrangeTopLevel (query : Option SessionCatalogQuery) (sessions : List SessionMetadata) :
    List SessionMetadata :=
  match query with
  | some query => arrange query sessions
  | none => sessions

/-- The children of a session in their order: without a query the latest first. -/
def arrangeChildren (query : Option SessionCatalogQuery) (sessions : List SessionMetadata) :
    List SessionMetadata :=
  match query with
  | some query => arrange query sessions
  | none => sessions.insertionSort fun left right => right.lastActiveAt ≤ left.lastActiveAt

namespace PreparedSessionCatalog

/-- `PreparedSessionCatalog::new` -/
def new (indexedSessions : List SessionMetadata) (query : Option SessionCatalogQuery) :
    PreparedSessionCatalog :=
  let query := acceptedQuery indexedSessions query
  let visibleSessions := indexedSessions.filter (isVisible query)
  let visibleIds := visibleSessions.map (·.sessionId)
  let placed := visibleSessions.foldl (place query visibleIds) ([], ∅)
  let topLevelSessions := arrangeTopLevel query placed.1
  { topLevelSessions
    childrenByParent := placed.2.mapValues fun _ => arrangeChildren query
    offsets := topLevelSessions.zipIdx.foldl (fun m x => m.insert x.1.sessionId x.2) ∅
    query
    revision := none }

/-- `with_revision` -/
def withRevision (catalog : PreparedSessionCatalog) (revision : String) : PreparedSessionCatalog :=
  if catalog.query.isSome then { catalog with revision := some revision } else catalog

/-- The children of a session. -/
def children (catalog : PreparedSessionCatalog) (sessionId : String) : List SessionMetadata :=
  catalog.childrenByParent.list sessionId

/-- A session and then its children. -/
def family (catalog : PreparedSessionCatalog) (m : SessionMetadata) : List SessionMetadata :=
  m :: catalog.children m.sessionId

end PreparedSessionCatalog

/-! ## Cursors -/

/-- What a cursor says. -/
structure SessionMetadataPageCursor where
  lastActiveAt : ℕ
  sessionId : String
  catalogRevision : Option String
  deriving DecidableEq, Repr

/-- The text of a cursor, written and read by `serde_json`. -/
structure CursorFormat where
  /-- `serde_json::to_string` -/
  toString : SessionMetadataPageCursor → Option String
  /-- `serde_json::from_str` -/
  fromStr : String → Option SessionMetadataPageCursor

/-- What a cursor says is read back from its text. -/
def CursorFormat.Restores (format : CursorFormat) (cursor : SessionMetadataPageCursor) : Prop :=
  ∃ text, format.toString cursor = some text ∧ format.fromStr text = some cursor

namespace PreparedSessionCatalog

variable (format : CursorFormat) (catalog : PreparedSessionCatalog)

/-- `session_metadata_page_cursor` -/
def sessionMetadataPageCursor (m : SessionMetadata) (revision : Option String) : String :=
  (format.toString ⟨m.lastActiveAt, m.sessionId, revision⟩).getD m.sessionId

/-- `session_metadata_page_offset`: after the session that the cursor names, or where a plain
number says. -/
def sessionMetadataPageOffset (cursor : Option String) (offsets : AssocMap String ℕ) : ℕ :=
  match cursor with
  | none => 0
  | some cursor =>
    match (format.fromStr cursor).bind fun parsed => offsets.lookup parsed.sessionId with
    | some index => index + 1
    | none => (Text.parseUsize cursor.toList).getD 0

/-- Whether a cursor comes from another revision. -/
def isReset (cursor : Option String) : Bool :=
  catalog.revision.any fun revision => cursor.any fun cursor =>
    ((format.fromStr cursor).bind (·.catalogRevision)) != some revision

/-- The `while` loop of `page`: moves past the sessions that tie with the one before. The loop ends
before the sessions do, so their number is fuel enough. -/
def pastTie (query : SessionCatalogQuery) (sessions : List SessionMetadata) (offset : ℕ) :
    (fuel nextOffset : ℕ) → ℕ
  | 0, nextOffset => nextOffset
  | fuel + 1, nextOffset =>
    if offset < nextOffset ∧ nextOffset < sessions.length ∧
        (sessions[nextOffset - 1]?).map (catalogSortKey · query) =
          (sessions[nextOffset]?).map (catalogSortKey · query) then
      pastTie query sessions offset fuel (nextOffset + 1)
    else nextOffset

/-- Where the page that starts at an offset ends. -/
def pageEnd (offset limit : ℕ) : ℕ :=
  let nextOffset := min (offset + max limit 1) catalog.topLevelSessions.length
  match catalog.query with
  | some query =>
    pastTie query catalog.topLevelSessions offset catalog.topLevelSessions.length nextOffset
  | none => nextOffset

end PreparedSessionCatalog

/-- A page. -/
structure SessionMetadataPage where
  sessions : List SessionMetadata
  totalTopLevelCount : ℕ
  loadedTopLevelCount : ℕ
  nextCursor : Option String
  hasMore : Bool
  catalogQuery : Option SessionCatalogQuery
  catalogRevision : Option String
  catalogReset : Bool

/-- `PreparedSessionCatalog::page` -/
def PreparedSessionCatalog.page (format : CursorFormat) (catalog : PreparedSessionCatalog)
    (cursor : Option String) (limit : ℕ) : SessionMetadataPage :=
  let catalogReset := catalog.isReset format cursor
  let cursor := cursor.filter fun _ => !catalogReset
  let total := catalog.topLevelSessions.length
  let offset := min (sessionMetadataPageOffset format cursor catalog.offsets) total
  let nextOffset := catalog.pageEnd offset limit
  let selected := (catalog.topLevelSessions.drop offset).take (nextOffset - offset)
  let hasMore := decide (nextOffset < total)
  { sessions := selected.flatMap catalog.family
    totalTopLevelCount := total
    loadedTopLevelCount := selected.length
    nextCursor := if hasMore then
        selected.getLast?.map fun m => sessionMetadataPageCursor format m catalog.revision
      else none
    hasMore
    catalogQuery := catalog.query
    catalogRevision := catalog.revision
    catalogReset }

end Session

end OpenBitFun
