import OpenBitFun.SessionPage

/-!
# Where the catalog puts a session

The catalog keeps the sessions that pass the filters of its query. Those without a visible parent
are its top-level sessions, in the order of the catalog; the others stand under their parent, which
need not be a top-level session itself.
-/

namespace OpenBitFun

open List

namespace Session

/-! ## The order -/

section Order

variable {query : SessionCatalogQuery} {x y z : SessionMetadata}

instance : Std.TransCmp compareKeys :=
  inferInstanceAs (Std.TransCmp (compareLex (compareOn Prod.fst) (compareOn Prod.snd)))

/-- Keys that compare as equal are equal. -/
theorem eq_of_compareKeys {a b : ℕ × ℕ} (h : compareKeys a b = .eq) : a = b := by
  rw [compareKeys, compareLex_eq_eq] at h
  exact Prod.ext (Std.LawfulEqCmp.eq_of_compare h.1) (Std.LawfulEqCmp.eq_of_compare h.2)

/-- The comparison of the keys of two sessions, the later one first. -/
instance : Std.TransCmp fun left right : SessionMetadata =>
    compareKeys (catalogSortKey right query) (catalogSortKey left query) where
  eq_swap := Std.OrientedCmp.eq_swap
  isLE_trans hxy hyz := Std.TransCmp.isLE_trans hyz hxy

instance : Std.TransCmp fun left right => catalogOrder left right query :=
  inferInstanceAs (Std.TransCmp (compareLex
    (fun left right => compareKeys (catalogSortKey right query) (catalogSortKey left query))
    (compareOn SessionMetadata.sessionId)))

instance : Std.Total fun left right => ((catalogOrder left right query).isLE : Prop) where
  total x y := by
    have hswap : catalogOrder x y query = (catalogOrder y x query).swap :=
      @Std.OrientedCmp.eq_swap _ (fun left right => catalogOrder left right query) _ x y
    cases hxy : catalogOrder y x query <;> rw [hxy] at hswap <;> simp [hswap]

instance : IsTrans SessionMetadata fun left right => (catalogOrder left right query).isLE where
  trans _ _ _ :=
    @Std.TransCmp.isLE_trans _ (fun left right => catalogOrder left right query) _ _ _ _

/-- The catalog's order is descending in the keys. -/
theorem compareKeys_of_catalogOrder (h : (catalogOrder x y query).isLE) :
    (compareKeys (catalogSortKey y query) (catalogSortKey x query)).isLE := by
  rw [catalogOrder] at h
  cases hkeys : compareKeys (catalogSortKey y query) (catalogSortKey x query) with
  | lt => rfl
  | eq => rfl
  | gt =>
    rw [hkeys] at h
    exact absurd h Bool.false_ne_true

/-- What stands before and after a change of the key has different keys. -/
theorem catalogSortKey_ne {w : SessionMetadata} (hwx : w = x ∨ (catalogOrder w x query).isLE)
    (hxy : (catalogOrder x y query).isLE) (hyz : y = z ∨ (catalogOrder y z query).isLE)
    (hne : catalogSortKey x query ≠ catalogSortKey y query) :
    catalogSortKey w query ≠ catalogSortKey z query := by
  intro heq
  have hrefl (m : SessionMetadata) :
      (compareKeys (catalogSortKey m query) (catalogSortKey m query)).isLE :=
    Std.ReflCmp.isLE_rfl
  have hwx' : (compareKeys (catalogSortKey x query) (catalogSortKey w query)).isLE :=
    hwx.elim (fun h => h ▸ hrefl w) compareKeys_of_catalogOrder
  have hyz' : (compareKeys (catalogSortKey z query) (catalogSortKey y query)).isLE :=
    hyz.elim (fun h => h ▸ hrefl y) compareKeys_of_catalogOrder
  rw [← heq] at hyz'
  -- The keys of `x` and `y` are between those of `w` and `z`, on both sides.
  have hle := Std.TransCmp.isLE_trans hwx' hyz'
  exact hne (eq_of_compareKeys (Std.OrientedCmp.isLE_antisymm hle
    (compareKeys_of_catalogOrder hxy)))

end Order

/-! ## The split -/

section Split

variable {query : Option SessionCatalogQuery} {ids : List String}

theorem foldl_place (sessions : List SessionMetadata) :
    ∀ placed, (sessions.foldl (place query ids) placed).1 =
        placed.1 ++ sessions.filter (fun m => (visibleParent query ids m).isNone) ∧
      ∀ parent, (sessions.foldl (place query ids) placed).2.list parent =
        placed.2.list parent ++
          sessions.filter fun m => visibleParent query ids m = some parent := by
  induction sessions with
  | nil =>
    intro placed
    simp
  | cons m sessions ih =>
    intro placed
    rw [foldl_cons]
    obtain ⟨htop, hchildren⟩ := ih (place query ids placed m)
    rw [htop]
    simp only [hchildren]
    cases hparent : visibleParent query ids m with
    | none => simp [place, hparent]
    | some parent =>
      refine ⟨by simp [place, hparent], fun parent' => ?_⟩
      by_cases hsame : parent' = parent
      · subst hsame
        simp [place, hparent, AssocMap.list_insert]
      · simp [place, hparent, AssocMap.list_insert, hsame, Ne.symm hsame]

end Split

/-- The filters of a catalog: which sessions are listed, and with a query which source. -/
def passes (query : Option SessionCatalogQuery) (m : SessionMetadata) : Bool :=
  isVisible query m && query.all fun query => catalogSourceMatches m query

theorem arrange_perm (query : SessionCatalogQuery) (sessions : List SessionMetadata) :
    (arrange query sessions).Perm (sessions.filter fun m => catalogSourceMatches m query) :=
  perm_insertionSort _ _

theorem arrangeTopLevel_perm (query : Option SessionCatalogQuery)
    (sessions : List SessionMetadata) :
    (arrangeTopLevel query sessions).Perm
      (sessions.filter fun m => query.all fun query => catalogSourceMatches m query) := by
  cases query with
  | none => simp [arrangeTopLevel]
  | some query => exact arrange_perm query sessions

theorem arrangeChildren_perm (query : Option SessionCatalogQuery)
    (sessions : List SessionMetadata) :
    (arrangeChildren query sessions).Perm
      (sessions.filter fun m => query.all fun query => catalogSourceMatches m query) := by
  cases query with
  | none => simpa [arrangeChildren] using perm_insertionSort _ sessions
  | some query => exact arrange_perm query sessions

theorem arrangeChildren_nil (query : Option SessionCatalogQuery) : arrangeChildren query [] = [] :=
  (arrangeChildren_perm query []).eq_nil

/-- The identifiers of the visible sessions. -/
def visibleIds (query : Option SessionCatalogQuery) (sessions : List SessionMetadata) :
    List String :=
  (sessions.filter (isVisible query)).map (·.sessionId)

/-- The visible parent of a session among the others. -/
def parentAmong (query : Option SessionCatalogQuery) (sessions : List SessionMetadata)
    (m : SessionMetadata) : Option String :=
  visibleParent query (visibleIds query sessions) m

namespace PreparedSessionCatalog

variable {sessions : List SessionMetadata} {query : Option SessionCatalogQuery}
  {catalog : PreparedSessionCatalog} {x y : SessionMetadata}

/-- What `new` makes of the sessions, at any revision. -/
structure Lists (sessions : List SessionMetadata) (catalog : PreparedSessionCatalog) : Prop where
  topLevel : catalog.topLevelSessions.Perm (sessions.filter fun m =>
    passes catalog.query m && (parentAmong catalog.query sessions m).isNone)
  children (parent : String) : (catalog.children parent).Perm (sessions.filter fun m =>
    passes catalog.query m && parentAmong catalog.query sessions m = some parent)
  offsets : catalog.offsets =
    catalog.topLevelSessions.zipIdx.foldl (fun m x => m.insert x.1.sessionId x.2) ∅
  /-- With a query the catalog's order, else the order of the index. -/
  ordered : match catalog.query with
    | some query => catalog.topLevelSessions.Pairwise fun x y => (catalogOrder x y query).isLE
    | none => catalog.topLevelSessions.Sublist sessions

theorem filter_passes (query : Option SessionCatalogQuery) (test : SessionMetadata → Bool)
    (sessions : List SessionMetadata) :
    ((sessions.filter (isVisible query)).filter test).filter
        (fun m => query.all fun query => catalogSourceMatches m query) =
      sessions.filter fun m => passes query m && test m := by
  rw [filter_filter, filter_filter]
  refine filter_congr fun m _ => ?_
  rw [passes, Bool.and_comm (isVisible query m), Bool.and_right_comm]

theorem topLevelSessions_new (sessions : List SessionMetadata)
    (query : Option SessionCatalogQuery) : (new sessions query).topLevelSessions =
      arrangeTopLevel (new sessions query).query
        ((sessions.filter (isVisible (new sessions query).query)).filter fun m =>
          (parentAmong (new sessions query).query sessions m).isNone) := by
  refine congrArg (arrangeTopLevel _) ((foldl_place _ _).1.trans ?_)
  rw [nil_append]
  rfl

theorem children_new (sessions : List SessionMetadata) (query : Option SessionCatalogQuery)
    (parent : String) : (new sessions query).children parent =
      arrangeChildren (new sessions query).query
        ((sessions.filter (isVisible (new sessions query).query)).filter fun m =>
          parentAmong (new sessions query).query sessions m = some parent) := by
  refine (AssocMap.list_mapValues (arrangeChildren_nil _) _ _).trans
    (congrArg (arrangeChildren _) (((foldl_place _ _).2 parent).trans ?_))
  exact nil_append _

theorem lists_new (sessions : List SessionMetadata) (query : Option SessionCatalogQuery) :
    Lists sessions (new sessions query) := by
  refine ⟨?_, fun parent => ?_, rfl, ?_⟩
  · rw [topLevelSessions_new, ← filter_passes]
    exact arrangeTopLevel_perm _ _
  · rw [children_new, ← filter_passes]
    exact arrangeChildren_perm _ _
  · rw [topLevelSessions_new]
    cases (new sessions query).query with
    | none => exact filter_sublist.trans filter_sublist
    | some query => exact pairwise_insertionSort _ _

theorem Lists.withRevision (h : Lists sessions catalog) (revision : String) :
    Lists sessions (catalog.withRevision revision) := by
  rw [PreparedSessionCatalog.withRevision]
  split_ifs
  · exact ⟨h.topLevel, h.children, h.offsets, h.ordered⟩
  · exact h

/-! ## The listing -/

/-- All that the catalog lists: every top-level session and its children. -/
def listing (catalog : PreparedSessionCatalog) : List SessionMetadata :=
  catalog.topLevelSessions.flatMap catalog.family

namespace Lists

variable (h : Lists sessions catalog)

include h

theorem mem_topLevel : x ∈ catalog.topLevelSessions ↔
    x ∈ sessions ∧ passes catalog.query x ∧ parentAmong catalog.query sessions x = none := by
  rw [h.topLevel.mem_iff, mem_filter, Bool.and_eq_true, Option.isNone_iff_eq_none]

theorem mem_children {parent : String} : x ∈ catalog.children parent ↔
    x ∈ sessions ∧ passes catalog.query x ∧
      parentAmong catalog.query sessions x = some parent := by
  rw [(h.children parent).mem_iff, mem_filter, Bool.and_eq_true, decide_eq_true_eq]

/-- The listing has the sessions that pass and are top-level, or whose parent is top-level and
passes. -/
theorem mem_listing : x ∈ catalog.listing ↔ x ∈ sessions ∧ passes catalog.query x ∧
    ∀ parent, parentAmong catalog.query sessions x = some parent →
      ∃ m ∈ catalog.topLevelSessions, m.sessionId = parent := by
  rw [listing, mem_flatMap]
  refine ⟨?_, fun ⟨hmem, hpasses, hparent⟩ => ?_⟩
  · rintro ⟨m, hm, hx⟩
    rcases mem_cons.1 hx with rfl | hx
    · obtain ⟨hmem, hpasses, hnone⟩ := h.mem_topLevel.1 hm
      refine ⟨hmem, hpasses, fun parent hparent => ?_⟩
      rw [hnone] at hparent
      cases hparent
    · obtain ⟨hmem, hpasses, hsome⟩ := h.mem_children.1 hx
      refine ⟨hmem, hpasses, fun parent hparent => ⟨m, hm, ?_⟩⟩
      rw [hsome] at hparent
      exact Option.some.inj hparent
  · cases hamong : parentAmong catalog.query sessions x with
    | none => exact ⟨x, h.mem_topLevel.2 ⟨hmem, hpasses, hamong⟩, mem_cons_self⟩
    | some parent =>
      obtain ⟨m, hm, rfl⟩ := hparent parent hamong
      exact ⟨m, hm, mem_cons_of_mem _ (h.mem_children.2 ⟨hmem, hpasses, hamong⟩)⟩

/-- With distinct identifiers, a session stands at most once in the listing. -/
theorem nodup_listing (hids : (sessions.map (·.sessionId)).Nodup) : catalog.listing.Nodup := by
  have hnodup : sessions.Nodup := List.Nodup.of_map _ hids
  rw [listing, nodup_flatMap]
  refine ⟨fun m hm => ?_, ?_⟩
  · refine nodup_cons.2 ⟨fun hmem => ?_, (h.children _).nodup_iff.2 (hnodup.filter _)⟩
    have hnone := (h.mem_topLevel.1 hm).2.2
    rw [(h.mem_children.1 hmem).2.2] at hnone
    cases hnone
  · have htop : catalog.topLevelSessions.Nodup := h.topLevel.nodup_iff.2 (hnodup.filter _)
    refine List.Pairwise.imp_of_mem (fun {m m'} hm hm' hne => ?_) htop
    intro x hx hx'
    rcases mem_cons.1 hx with rfl | hx <;> rcases mem_cons.1 hx' with rfl | hx'
    · exact hne rfl
    · have hnone := (h.mem_topLevel.1 hm).2.2
      rw [(h.mem_children.1 hx').2.2] at hnone
      cases hnone
    · have hnone := (h.mem_topLevel.1 hm').2.2
      rw [(h.mem_children.1 hx).2.2] at hnone
      cases hnone
    · -- A child has one parent, and the parents' identifiers differ.
      have hsome := (h.mem_children.1 hx).2.2
      rw [(h.mem_children.1 hx').2.2] at hsome
      exact hne (inj_on_of_nodup_map hids (h.mem_topLevel.1 hm).1 (h.mem_topLevel.1 hm').1
        (Option.some.inj hsome).symm)

/-- The identifiers of the listing are distinct too. -/
theorem nodup_listing_ids (hids : (sessions.map (·.sessionId)).Nodup) :
    (catalog.listing.map (·.sessionId)).Nodup :=
  (h.nodup_listing hids).map_on fun _ hx _ hy =>
    inj_on_of_nodup_map hids (h.mem_listing.1 hx).1 (h.mem_listing.1 hy).1

end Lists

end PreparedSessionCatalog

end Session

end OpenBitFun
