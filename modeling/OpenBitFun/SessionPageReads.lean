import OpenBitFun.SessionPagePlaces

/-!
# Reading a catalog page by page

A client starts without a cursor and follows `next_cursor`. The cursor of a page stands for the
number of top-level sessions handed out so far, so the pages cut the catalog's listing into
consecutive parts.
-/

namespace OpenBitFun

open List

namespace Session

namespace PreparedSessionCatalog

variable {format : CursorFormat} {catalog : PreparedSessionCatalog}
  {sessions : List SessionMetadata}

/-! ## Where a page ends -/

section PageEnd

variable {query : SessionCatalogQuery} {all : List SessionMetadata} {offset limit : ℕ}

/-- Two neighbours with one key. -/
def Ties (query : SessionCatalogQuery) (all : List SessionMetadata) (i : ℕ) : Prop :=
  (all[i - 1]?).map (catalogSortKey · query) = (all[i]?).map (catalogSortKey · query)

theorem le_pastTie (query : SessionCatalogQuery) (all : List SessionMetadata)
    (offset fuel : ℕ) : ∀ next, next ≤ pastTie query all offset fuel next := by
  induction fuel with
  | zero => exact fun next => le_rfl
  | succ fuel ih =>
    intro next
    rw [pastTie]
    split_ifs
    · exact (Nat.le_succ next).trans (ih _)
    · exact le_rfl

theorem pastTie_le (fuel : ℕ) : ∀ next ≤ all.length,
    pastTie query all offset fuel next ≤ all.length := by
  induction fuel with
  | zero => exact fun next h => h
  | succ fuel ih =>
    intro next h
    rw [pastTie]
    split_ifs with hmore
    · exact ih _ hmore.2.1
    · exact h

/-- The loop stops at a change of the key, or at the end. -/
theorem not_ties_pastTie (fuel : ℕ) : ∀ next, all.length ≤ next + fuel → offset < next →
    pastTie query all offset fuel next < all.length →
      ¬Ties query all (pastTie query all offset fuel next) := by
  induction fuel with
  | zero =>
    intro next hfuel _ hlt
    exact absurd hlt (by rw [pastTie]; omega)
  | succ fuel ih =>
    intro next hfuel hoffset hlt
    rw [pastTie] at hlt ⊢
    split_ifs at hlt ⊢ with hmore
    · exact ih _ (by omega) (by omega) hlt
    · exact fun hties => hmore ⟨hoffset, hlt, hties⟩

/-- A page goes on at least to its limit. -/
theorem le_pageEnd (catalog : PreparedSessionCatalog) (offset limit : ℕ) :
    min (offset + max limit 1) catalog.topLevelSessions.length ≤ catalog.pageEnd offset limit := by
  rw [pageEnd]
  cases catalog.query with
  | none => exact le_rfl
  | some query => exact le_pastTie _ _ _ _ _

theorem pageEnd_le (catalog : PreparedSessionCatalog) (offset limit : ℕ) :
    catalog.pageEnd offset limit ≤ catalog.topLevelSessions.length := by
  rw [pageEnd]
  cases catalog.query with
  | none => exact Nat.min_le_right _ _
  | some query => exact pastTie_le _ _ (Nat.min_le_right _ _)

/-- With a query no tie goes across the end of a page. -/
theorem not_ties_pageEnd (hquery : catalog.query = some query)
    (hlt : catalog.pageEnd offset limit < catalog.topLevelSessions.length) :
    ¬Ties query catalog.topLevelSessions (catalog.pageEnd offset limit) := by
  have hend : catalog.pageEnd offset limit = pastTie query catalog.topLevelSessions offset
      catalog.topLevelSessions.length
      (min (offset + max limit 1) catalog.topLevelSessions.length) := by
    rw [pageEnd, hquery]
  rw [hend] at hlt ⊢
  refine not_ties_pastTie _ _ (Nat.le_add_left _ _) ?_ hlt
  have hle := le_pastTie query catalog.topLevelSessions offset
    catalog.topLevelSessions.length (min (offset + max limit 1) catalog.topLevelSessions.length)
  omega

end PageEnd

/-! ## Cursors -/

/-- The offset table of a list of sessions. -/
theorem lookup_offsets {all : List SessionMetadata} :
    ∀ (start : ℕ) (m : AssocMap String ℕ), (all.map (·.sessionId)).Nodup →
      (∀ x ∉ all.map (·.sessionId), ((all.zipIdx start).foldl
          (fun m x => m.insert x.1.sessionId x.2) m).lookup x = m.lookup x) ∧
        ∀ i x, all[i]? = some x → ((all.zipIdx start).foldl
          (fun m x => m.insert x.1.sessionId x.2) m).lookup x.sessionId = some (start + i) := by
  induction all with
  | nil => exact fun _ _ _ => ⟨fun _ _ => rfl, fun i x h => absurd h (by simp)⟩
  | cons y all ih =>
    intro start m hids
    rw [map_cons, nodup_cons] at hids
    obtain ⟨hother, hlookup⟩ := ih (start + 1) (m.insert y.sessionId start) hids.2
    rw [zipIdx_cons, foldl_cons]
    refine ⟨fun x hx => ?_, fun i x hx => ?_⟩
    · rw [map_cons, mem_cons, not_or] at hx
      rw [hother x hx.2, AssocMap.lookup_insert, if_neg hx.1]
    · cases i with
      | zero =>
        obtain rfl : y = x := Option.some.inj hx
        rw [hother _ hids.1, AssocMap.lookup_insert, if_pos rfl]
        rfl
      | succ i =>
        rw [hlookup i x hx, Nat.add_right_comm]
        rfl

/-- A cursor that the catalog reads as a number of sessions handed out. -/
structure Resolves (format : CursorFormat) (catalog : PreparedSessionCatalog)
    (cursor : Option String) (offset : ℕ) : Prop where
  own : catalog.isReset format cursor = false
  offset : min (sessionMetadataPageOffset format cursor catalog.offsets)
    catalog.topLevelSessions.length = offset

theorem Resolves.filter {cursor : Option String} {offset : ℕ}
    (h : Resolves format catalog cursor offset) :
    cursor.filter (fun _ => !catalog.isReset format cursor) = cursor := by
  rw [h.own]
  cases cursor <;> rfl

theorem resolves_none : Resolves format catalog none 0 := by
  refine ⟨?_, Nat.zero_min _⟩
  rw [isReset]
  cases catalog.revision <;> rfl

/-- The cursor of a session stands for all up to that session. -/
theorem resolves_cursor (h : Lists sessions catalog)
    (hids : (catalog.topLevelSessions.map (·.sessionId)).Nodup) {i : ℕ} {m : SessionMetadata}
    (hm : catalog.topLevelSessions[i]? = some m)
    (hrestores : format.Restores ⟨m.lastActiveAt, m.sessionId, catalog.revision⟩) :
    Resolves format catalog (some (sessionMetadataPageCursor format m catalog.revision))
      (i + 1) := by
  obtain ⟨text, htext, hparse⟩ := hrestores
  have hcursor : sessionMetadataPageCursor format m catalog.revision = text := by
    rw [sessionMetadataPageCursor, htext, Option.getD_some]
  have hoffset : catalog.offsets.lookup m.sessionId = some i := by
    rw [h.offsets, (lookup_offsets 0 ∅ hids).2 i m hm, Nat.zero_add]
  have hlt : i < catalog.topLevelSessions.length := (List.getElem?_eq_some_iff.1 hm).1
  rw [hcursor]
  refine ⟨?_, ?_⟩
  · rw [isReset]
    cases hrevision : catalog.revision with
    | none => rfl
    | some revision => simp [hparse, hrevision]
  · rw [sessionMetadataPageOffset, hparse, Option.bind_some, hoffset]
    exact Nat.min_eq_left hlt

/-! ## One page -/

/-- A page hands out the first of the sessions that remain. -/
structure ServesPage (catalog : PreparedSessionCatalog) (limit : ℕ)
    (rest selected after : List SessionMetadata) (page : SessionMetadataPage) : Prop where
  split : rest = selected ++ after
  sessions : page.sessions = selected.flatMap catalog.family
  loaded : page.loadedTopLevelCount = selected.length
  enough : min (max limit 1) rest.length ≤ selected.length
  ties : ∀ query, catalog.query = some query → ∀ x ∈ selected, ∀ y ∈ after,
    catalogSortKey x query ≠ catalogSortKey y query
  hasMore : page.hasMore ↔ after ≠ []
  ofCursor : page.catalogReset = false

/-- With a query, what stands on both sides of the end of a page has different keys. -/
theorem catalogSortKey_ne_of_pageEnd (h : Lists sessions catalog) {query : SessionCatalogQuery}
    (hquery : catalog.query = some query) (offset limit : ℕ) {x y : SessionMetadata}
    (hx : x ∈ catalog.topLevelSessions.take (catalog.pageEnd offset limit))
    (hy : y ∈ catalog.topLevelSessions.drop (catalog.pageEnd offset limit)) :
    catalogSortKey x query ≠ catalogSortKey y query := by
  obtain ⟨i, hi, rfl⟩ := mem_take_iff_getElem.1 hx
  obtain ⟨j, hj, rfl⟩ := mem_drop_iff_getElem.1 hy
  have hordered := h.ordered
  rw [hquery] at hordered
  have hsorted := pairwise_iff_getElem.1 hordered
  have hties : ¬Ties query catalog.topLevelSessions (catalog.pageEnd offset limit) :=
    not_ties_pageEnd hquery (by omega)
  generalize catalog.pageEnd offset limit = k at *
  have hle (a b : ℕ) (hb : b < catalog.topLevelSessions.length) (hab : a ≤ b) :
      catalog.topLevelSessions[a] = catalog.topLevelSessions[b] ∨
        (catalogOrder catalog.topLevelSessions[a] catalog.topLevelSessions[b] query).isLE := by
    rcases Nat.eq_or_lt_of_le hab with rfl | hlt
    · exact Or.inl rfl
    · exact Or.inr (hsorted a b _ hb hlt)
  refine catalogSortKey_ne (hle i (k - 1) (by omega) (by omega))
    (hsorted (k - 1) k (by omega) (by omega) (by omega)) (hle k _ (by omega) (by omega))
    fun heq => ?_
  refine hties ?_
  rw [Ties, getElem?_eq_getElem (by omega), getElem?_eq_getElem (by omega)]
  exact congrArg some heq

theorem servesPage (h : Lists sessions catalog) {cursor : Option String} {offset : ℕ}
    (hcursor : Resolves format catalog cursor offset) (limit : ℕ) :
    ServesPage catalog limit (catalog.topLevelSessions.drop offset)
      ((catalog.topLevelSessions.drop offset).take (catalog.pageEnd offset limit - offset))
      (catalog.topLevelSessions.drop (catalog.pageEnd offset limit))
      (catalog.page format cursor limit) := by
  have hoffset : offset ≤ catalog.topLevelSessions.length :=
    hcursor.offset ▸ Nat.min_le_right _ _
  have hmin := le_pageEnd catalog offset limit
  have hmax := pageEnd_le catalog offset limit
  have hrest : (catalog.topLevelSessions.drop offset).length =
      catalog.topLevelSessions.length - offset := length_drop
  refine ⟨?_, ?_, ?_, ?_, fun query hquery x hx y hy => ?_, ?_, hcursor.own⟩
  · have hsplit := take_append_drop (catalog.pageEnd offset limit - offset)
      (catalog.topLevelSessions.drop offset)
    rw [drop_drop, Nat.add_sub_cancel' (by omega)] at hsplit
    exact hsplit.symm
  · simp only [page, hcursor.filter, hcursor.offset]
  · simp only [page, hcursor.filter, hcursor.offset]
  · rw [length_take]
    omega
  · refine catalogSortKey_ne_of_pageEnd h hquery offset limit ?_ hy
    rw [take_drop, Nat.add_sub_cancel' (by omega)] at hx
    exact mem_of_mem_drop hx
  · simp only [page, hcursor.filter, hcursor.offset, decide_eq_true_eq]
    rw [Ne, drop_eq_nil_iff, not_le]

/-- The cursor that a page gives stands for the sessions up to the page's end. -/
theorem resolves_nextCursor (h : Lists sessions catalog)
    (hids : (catalog.topLevelSessions.map (·.sessionId)).Nodup)
    (hrestores : ∀ m ∈ catalog.topLevelSessions,
      format.Restores ⟨m.lastActiveAt, m.sessionId, catalog.revision⟩)
    {cursor : Option String} {offset : ℕ} (hcursor : Resolves format catalog cursor offset)
    {limit : ℕ} (hmore : catalog.pageEnd offset limit < catalog.topLevelSessions.length) :
    ∃ next, (catalog.page format cursor limit).nextCursor = some next ∧
      Resolves format catalog (some next) (catalog.pageEnd offset limit) := by
  have hmin := le_pageEnd catalog offset limit
  have hoffset : offset ≤ catalog.topLevelSessions.length :=
    hcursor.offset ▸ Nat.min_le_right _ _
  obtain ⟨m, hm⟩ : ∃ m, catalog.topLevelSessions[catalog.pageEnd offset limit - 1]? = some m :=
    ⟨_, getElem?_eq_getElem (by omega)⟩
  have hlast : ((catalog.topLevelSessions.drop offset).take
      (catalog.pageEnd offset limit - offset)).getLast? = some m := by
    rw [getLast?_eq_getElem?, length_take, length_drop,
      Nat.min_eq_left (by omega), getElem?_take_of_lt (by omega), getElem?_drop, ← hm]
    exact congrArg (catalog.topLevelSessions[·]?) (by omega)
  have hnext := resolves_cursor h hids hm (hrestores m (mem_of_getElem? hm))
  rw [Nat.sub_add_cancel (by omega)] at hnext
  refine ⟨_, ?_, hnext⟩
  simp only [page, hcursor.filter, hcursor.offset, hmore, decide_true, if_true, hlast,
    Option.map_some]

/-- A cursor of another revision, or of none, gives the first page and says so. -/
theorem page_of_isReset {cursor : Option String} (hreset : catalog.isReset format cursor)
    (limit : ℕ) : catalog.page format cursor limit =
      { catalog.page format none limit with catalogReset := true } := by
  have hnone : catalog.isReset format none = false :=
    (resolves_none : Resolves format catalog none 0).own
  have hdrop : cursor.filter (fun _ => !catalog.isReset format cursor) = none := by
    rw [hreset]
    cases cursor <;> rfl
  simp only [page, hreset, hnone, Bool.not_true, Option.filter_none]
  rw [hreset] at hdrop
  simp only [Bool.not_true] at hdrop
  rw [hdrop]

/-! ## All pages -/

/-- The pages that a client reads from a cursor on, with one limit after the other. -/
inductive Reads (format : CursorFormat) (catalog : PreparedSessionCatalog) :
    (limits : ℕ → ℕ) → (cursor : Option String) → List SessionMetadataPage → Prop
  | last {limits cursor} (hend : (catalog.page format cursor (limits 0)).nextCursor = none) :
    Reads format catalog limits cursor [catalog.page format cursor (limits 0)]
  | more {limits cursor next pages}
    (hnext : (catalog.page format cursor (limits 0)).nextCursor = some next)
    (hpages : Reads format catalog (fun i => limits (i + 1)) (some next) pages) :
    Reads format catalog limits cursor (catalog.page format cursor (limits 0) :: pages)

theorem Reads.unique {limits : ℕ → ℕ} {cursor : Option String} {pages : List SessionMetadataPage}
    (h : Reads format catalog limits cursor pages) :
    ∀ {pages'}, Reads format catalog limits cursor pages' → pages = pages' := by
  induction h with
  | last hend =>
    intro pages' h'
    cases h' with
    | last => rfl
    | more hnext => rw [hend] at hnext; cases hnext
  | more hnext hpages ih =>
    intro pages' h'
    cases h' with
    | last hend => rw [hend] at hnext; cases hnext
    | more hnext' hpages' =>
      obtain rfl := Option.some.inj (hnext.symm.trans hnext')
      rw [ih hpages']

/-- The pages hand out a list of top-level sessions, each page its part, and the last page is the
one after which nothing remains. -/
def Serves (catalog : PreparedSessionCatalog) :
    (limits : ℕ → ℕ) → (rest : List SessionMetadata) → List SessionMetadataPage → Prop
  | _, _, [] => False
  | limits, rest, page :: pages => ∃ selected after,
    ServesPage catalog (limits 0) rest selected after page ∧ (after = [] → pages = []) ∧
      (after ≠ [] → Serves catalog (fun i => limits (i + 1)) after pages)

/-- From a cursor on, finitely many pages hand out all that remains. -/
theorem exists_reads (h : Lists sessions catalog)
    (hids : (catalog.topLevelSessions.map (·.sessionId)).Nodup)
    (hrestores : ∀ m ∈ catalog.topLevelSessions,
      format.Restores ⟨m.lastActiveAt, m.sessionId, catalog.revision⟩) (remaining : ℕ) :
    ∀ (limits : ℕ → ℕ) {cursor : Option String} {offset : ℕ},
      catalog.topLevelSessions.length - offset < remaining →
      Resolves format catalog cursor offset → ∃ pages,
        Reads format catalog limits cursor pages ∧
          Serves catalog limits (catalog.topLevelSessions.drop offset) pages := by
  induction remaining with
  | zero => exact fun _ _ _ hremaining => absurd hremaining (Nat.not_lt_zero _)
  | succ remaining ih =>
    intro limits cursor offset hremaining hcursor
    have hpage := servesPage h hcursor (limits 0)
    have hmin := le_pageEnd catalog offset (limits 0)
    by_cases hmore : catalog.pageEnd offset (limits 0) < catalog.topLevelSessions.length
    · obtain ⟨next, hnext, hresolves⟩ := resolves_nextCursor h hids hrestores hcursor hmore
      obtain ⟨pages, hreads, hserves⟩ :=
        ih (fun i => limits (i + 1)) (by omega) hresolves
      refine ⟨_, .more hnext hreads, _, _, hpage, fun hnil => ?_, fun _ => hserves⟩
      exact absurd (drop_eq_nil_iff.1 hnil) (not_le.2 hmore)
    · have hend : (catalog.page format cursor (limits 0)).nextCursor = none := by
        simp only [page, hcursor.filter, hcursor.offset, hmore, decide_false]
        rfl
      refine ⟨_, .last hend, _, _, hpage, fun _ => rfl, fun hne => ?_⟩
      exact absurd (drop_eq_nil_iff.2 (not_lt.1 hmore)) hne

/-- The pages together hold the sessions handed out, each with its children. -/
theorem Serves.flatMap {pages : List SessionMetadataPage} :
    ∀ {limits : ℕ → ℕ} {rest : List SessionMetadata}, Serves catalog limits rest pages →
      pages.flatMap (·.sessions) = rest.flatMap catalog.family := by
  induction pages with
  | nil => exact fun h => h.elim
  | cons page pages ih =>
    rintro limits rest ⟨selected, after, hpage, hlast, hmore⟩
    rw [flatMap_cons, hpage.sessions, hpage.split, flatMap_append]
    by_cases hafter : after = []
    · rw [hlast hafter, hafter]
      rfl
    · rw [ih (hmore hafter)]

/-- A catalog, at a revision or at none. -/
def prepared (sessions : List SessionMetadata) (query : Option SessionCatalogQuery) :
    (revision : Option String) → PreparedSessionCatalog
  | none => new sessions query
  | some revision => (new sessions query).withRevision revision

theorem lists_prepared (sessions : List SessionMetadata) (query : Option SessionCatalogQuery)
    (revision : Option String) : Lists sessions (prepared sessions query revision) := by
  cases revision with
  | none => exact lists_new sessions query
  | some revision => exact (lists_new sessions query).withRevision revision

theorem nodup_topLevel_ids (h : Lists sessions catalog)
    (hids : (sessions.map (·.sessionId)).Nodup) :
    (catalog.topLevelSessions.map (·.sessionId)).Nodup :=
  (h.topLevel.map _).nodup_iff.2 (hids.sublist (filter_sublist.map _))

/-- A client that follows the cursors of a catalog, with any limits, comes to an end, and the pages
hand out the catalog's top-level sessions in their order, each once and with its children. A cursor
of another revision gives the first page. -/
theorem pages_complete (format : CursorFormat) (sessions : List SessionMetadata)
    (query : Option SessionCatalogQuery) (revision : Option String) (limits : ℕ → ℕ)
    (hids : (sessions.map (·.sessionId)).Nodup)
    (hrestores : ∀ m ∈ (prepared sessions query revision).topLevelSessions, format.Restores
      ⟨m.lastActiveAt, m.sessionId, (prepared sessions query revision).revision⟩) :
    let catalog := prepared sessions query revision
    Lists sessions catalog ∧ (catalog.topLevelSessions.map (·.sessionId)).Nodup ∧
    (∃ pages, Reads format catalog limits none pages) ∧
    (∀ pages, Reads format catalog limits none pages →
      Serves catalog limits catalog.topLevelSessions pages ∧
      pages.flatMap (·.sessions) =
        catalog.topLevelSessions.flatMap fun m => m :: catalog.children m.sessionId) ∧
    ∀ own cursor limit, catalog.revision = some own →
      (format.fromStr cursor).bind (·.catalogRevision) ≠ some own →
      catalog.page format (some cursor) limit =
        { catalog.page format none limit with catalogReset := true } := by
  intro catalog
  have hlists := lists_prepared sessions query revision
  have htop := nodup_topLevel_ids hlists hids
  obtain ⟨pages, hreads, hserves⟩ := exists_reads hlists htop hrestores _ limits
    (Nat.lt_succ_self _) resolves_none
  refine ⟨hlists, htop, ⟨pages, hreads⟩, fun pages' hreads' => ?_,
    fun own cursor limit hown hother => page_of_isReset ?_ limit⟩
  · obtain rfl := hreads.unique hreads'
    exact ⟨hserves, hserves.flatMap⟩
  · rw [isReset, hown]
    exact bne_iff_ne.2 hother

/-- Two sessions of a workspace, the first with a side session. -/
def sampleSessions : List SessionMetadata :=
  [{ sessionId := "old", sessionName := "", createdAt := 1, lastActiveAt := 9,
     workspaceId := some "main" },
   { sessionId := "side", sessionName := "", createdAt := 3, lastActiveAt := 3,
     workspaceId := some "main",
     relationship := some { kind := some .btw, parentSessionId := some "new" } },
   { sessionId := "new", sessionName := "", createdAt := 2, lastActiveAt := 5,
     workspaceId := some "main" }]

/-- All sessions of the workspace. -/
def sampleQuery : SessionCatalogQuery := ⟨"main", .created, "all", [], ∅⟩

/-- A cursor's compact rendering. -/
def renderCursor (cursor : SessionMetadataPageCursor) : String :=
  "\x7b\"last_active_at\":" ++ toString cursor.lastActiveAt ++ ",\"session_id\":" ++
    Json.renderString cursor.sessionId ++
    (cursor.catalogRevision.elim "" fun revision =>
      ",\"catalog_revision\":" ++ Json.renderString revision) ++ "\x7d"

/-- The rendering, and the reading of the cursors of the two sessions. -/
def sampleFormat : CursorFormat where
  toString cursor := some (renderCursor cursor)
  fromStr text := [⟨9, "old", some "v1"⟩, ⟨5, "new", some "v1"⟩].find? fun cursor =>
    renderCursor cursor == text

theorem sampleFormat_restores : ∀ m ∈ (prepared sampleSessions (some sampleQuery)
    (some "v1")).topLevelSessions, sampleFormat.Restores ⟨m.lastActiveAt, m.sessionId,
      (prepared sampleSessions (some sampleQuery) (some "v1")).revision⟩ := by
  intro m hm
  obtain ⟨hmem, -, hparent⟩ := (lists_prepared _ _ _).mem_topLevel.1 hm
  simp only [sampleSessions, mem_cons, not_mem_nil, or_false] at hmem
  rcases hmem with rfl | rfl | rfl
  · exact ⟨_, rfl, by decide⟩
  · exact absurd hparent (by decide)
  · exact ⟨_, rfl, by decide⟩

/-- The whole catalog, one top-level session at a time. -/
theorem pages_complete_sample : ∃ pages, Reads sampleFormat
    (prepared sampleSessions (some sampleQuery) (some "v1")) (fun _ => 1) none pages ∧
      (pages.flatMap (·.sessions)).map (·.sessionId) = ["new", "side", "old"] := by
  obtain ⟨-, -, ⟨pages, hreads⟩, hpages, -⟩ := pages_complete sampleFormat sampleSessions
    (some sampleQuery) (some "v1") (fun _ => 1) (by decide) sampleFormat_restores
  refine ⟨pages, hreads, ?_⟩
  rw [(hpages pages hreads).2]
  decide

/-! ## What the pages show -/

/-- The parent links among some sessions. -/
def ParentLink (query : Option SessionCatalogQuery) (sessions : List SessionMetadata)
    (child parent : SessionMetadata) : Prop :=
  child ∈ sessions ∧ parent ∈ sessions ∧ parentId query child = some parent.sessionId

/-- The catalog has two levels: a session stands on the first one when it has no visible parent, and
on the second one when its parent stands on the first and passes the filters. -/
def OnTwoLevels (query : Option SessionCatalogQuery) (sessions : List SessionMetadata)
    (m : SessionMetadata) : Prop :=
  ∀ parent, parentAmong query sessions m = some parent →
    ∃ p ∈ sessions, p.sessionId = parent ∧ passes query p ∧ parentAmong query sessions p = none

/-- How often the pages show a session. -/
def shown (pages : List SessionMetadataPage) (m : SessionMetadata) : ℕ :=
  ((pages.flatMap (·.sessions)).map (·.sessionId)).count m.sessionId

/-- Each session that passes the filters is shown once when it stands on one of the two levels, and
not at all otherwise. -/
theorem shown_pages (format : CursorFormat) (sessions : List SessionMetadata)
    (query : Option SessionCatalogQuery) (revision : Option String) (limits : ℕ → ℕ)
    (hids : (sessions.map (·.sessionId)).Nodup)
    (hrestores : ∀ m ∈ (prepared sessions query revision).topLevelSessions, format.Restores
      ⟨m.lastActiveAt, m.sessionId, (prepared sessions query revision).revision⟩) :
    let catalog := prepared sessions query revision
    (∃ pages, Reads format catalog limits none pages) ∧
    ∀ pages, Reads format catalog limits none pages →
      ∀ m ∈ sessions, passes catalog.query m →
        (OnTwoLevels catalog.query sessions m → shown pages m = 1) ∧
        (¬OnTwoLevels catalog.query sessions m → shown pages m = 0) := by
  intro catalog
  have hlists : Lists sessions catalog := lists_prepared sessions query revision
  obtain ⟨pages, hreads, hserves⟩ := exists_reads hlists
    (nodup_topLevel_ids hlists hids) hrestores _ limits (Nat.lt_succ_self _) resolves_none
  refine ⟨⟨pages, hreads⟩, fun pages' hreads' m hm hpasses => ?_⟩
  obtain rfl := hreads.unique hreads'
  have hshown : shown pages m = (catalog.listing.map (·.sessionId)).count m.sessionId := by
    rw [shown, hserves.flatMap]
    rfl
  have hlevels : OnTwoLevels catalog.query sessions m ↔ m ∈ catalog.listing := by
    rw [hlists.mem_listing]
    refine ⟨fun h => ⟨hm, hpasses, fun parent hparent => ?_⟩, fun h parent hparent => ?_⟩
    · obtain ⟨p, hp, hid, htop⟩ := h parent hparent
      exact ⟨p, hlists.mem_topLevel.2 ⟨hp, htop⟩, hid⟩
    · obtain ⟨p, hp, hid⟩ := h.2.2 parent hparent
      obtain ⟨hmem, htop⟩ := hlists.mem_topLevel.1 hp
      exact ⟨p, hmem, hid, htop⟩
  rw [hshown, hlevels]
  refine ⟨fun hmem => ?_, fun hmem => count_eq_zero.2 fun hid => hmem ?_⟩
  · exact count_eq_one_of_mem (hlists.nodup_listing_ids hids) (mem_map_of_mem hmem)
  · obtain ⟨x, hx, hsame⟩ := mem_map.1 hid
    rwa [← inj_on_of_nodup_map hids (hlists.mem_listing.1 hx).1 hm hsame]

/-- The sample's sessions are all shown. -/
theorem shown_pages_sample : ∃ pages, Reads sampleFormat
    (prepared sampleSessions (some sampleQuery) (some "v1")) (fun _ => 5) none pages ∧
      ∀ m ∈ sampleSessions, shown pages m = 1 := by
  obtain ⟨⟨pages, hreads⟩, hshown⟩ := shown_pages sampleFormat sampleSessions (some sampleQuery)
    (some "v1") (fun _ => 5) (by decide) sampleFormat_restores
  refine ⟨pages, hreads, fun m hm => (hshown pages hreads m hm ?_).1 ?_⟩
  · revert m
    decide
  · have hparents : ∀ m ∈ sampleSessions, parentAmong (prepared sampleSessions
        (some sampleQuery) (some "v1")).query sampleSessions m ∈ [none, some "new"] := by decide
    intro parent hparent
    have hnew := hparents m hm
    rw [hparent] at hnew
    obtain rfl : parent = "new" := by simpa using hnew
    exact ⟨_, mem_cons_of_mem _ (mem_cons_of_mem _ mem_cons_self), rfl, by decide,
      by decide⟩

/-- A session, its side session, and a side session of that one. -/
def chainSessions : List SessionMetadata :=
  let link (id : String) (parent : Option String) : SessionMetadata :=
    { sessionId := id, sessionName := "", createdAt := 1, lastActiveAt := 1,
      relationship := parent.map fun parent =>
        { kind := some .btw, parentSessionId := some parent } }
  [link "root" none, link "side" (some "root"), link "deep" (some "side")]

/-- The side session of the side session is visible, but on no page. -/
theorem deep_hidden :
    (chainSessions.map (·.sessionId)).Nodup ∧
    (∀ m, ¬Relation.TransGen (ParentLink none chainSessions) m m) ∧
    (∀ m ∈ chainSessions, passes none m) ∧
    ∀ pages, Reads sampleFormat (prepared chainSessions none none) (fun _ => 5) none pages →
      ∃ m ∈ chainSessions, shown pages m = 0 := by
  refine ⟨by decide, fun m hcycle => ?_, by decide, fun pages hreads => ?_⟩
  · -- The links lead up, from a session to one with fewer ancestors.
    let rank (m : SessionMetadata) : ℕ :=
      if m.sessionId = "root" then 0 else if m.sessionId = "side" then 1 else 2
    have hlink : ∀ child ∈ chainSessions, ∀ parent ∈ chainSessions,
        parentId none child = some parent.sessionId → rank parent < rank child := by decide
    have hup {child parent : SessionMetadata}
        (h : Relation.TransGen (ParentLink none chainSessions) child parent) :
        rank parent < rank child := by
      induction h with
      | single h => exact hlink _ h.1 _ h.2.1 h.2.2
      | tail _ h ih => exact (hlink _ h.1 _ h.2.1 h.2.2).trans ih
    exact (hup hcycle).false
  · obtain rfl := hreads.unique (.last (by decide))
    exact ⟨_, mem_cons_of_mem _ (mem_cons_of_mem _ mem_cons_self), by decide⟩

end PreparedSessionCatalog

end Session

end OpenBitFun
