import OpenBitFun.SessionLineage

/-!
# The tree around a session

`build_session_lineage_snapshot` climbs from the anchor to the root of its tree, and walks the tree
from there. On a cycle there is no root, and the anchor stands for it.
-/

namespace OpenBitFun

open List

open DepthFirst

namespace Session

variable {metadataList : List SessionMetadata} {parent child id : String} {m : SessionMetadata}

/-! ## The sessions by their identifiers -/

theorem lookup_foldl_insert (metadataList : List SessionMetadata) :
    ∀ byId : AssocMap String SessionMetadata, (metadataList.map (·.sessionId)).Nodup →
      ((metadataList.foldl (fun byId m => byId.insert m.sessionId m) byId).lookup id = some m ↔
        (m ∈ metadataList ∧ m.sessionId = id) ∨
          id ∉ metadataList.map (·.sessionId) ∧ byId.lookup id = some m) := by
  induction metadataList with
  | nil => simp
  | cons x metadataList ih =>
    intro byId hids
    rw [map_cons, nodup_cons] at hids
    rw [foldl_cons, ih _ hids.2, AssocMap.lookup_insert, map_cons, mem_cons,
      mem_cons]
    by_cases hid : id = x.sessionId
    · subst hid
      rw [if_pos rfl]
      refine ⟨?_, ?_⟩
      · rintro (⟨hm, hid⟩ | ⟨-, heq⟩)
        · exact Or.inl ⟨Or.inr hm, hid⟩
        · exact Or.inl ⟨Or.inl (Option.some.inj heq).symm, by rw [Option.some.inj heq]⟩
      · rintro (⟨rfl | hm, hid⟩ | ⟨hnot, -⟩)
        · exact Or.inr ⟨hids.1, rfl⟩
        · exact Or.inl ⟨hm, hid⟩
        · exact absurd (Or.inl rfl) hnot
    · have hx : ¬(m = x ∧ m.sessionId = id) := by
        rintro ⟨rfl, rfl⟩
        exact hid rfl
      rw [if_neg hid, or_and_right, or_iff_right hx, not_or, and_iff_right hid]

theorem lookup_metadataById (hids : (metadataList.map (·.sessionId)).Nodup) :
    (metadataById metadataList).lookup id = some m ↔ m ∈ metadataList ∧ m.sessionId = id := by
  rw [metadataById, lookup_foldl_insert metadataList ∅ hids]
  simp

theorem isSome_lookup_metadataById (hids : (metadataList.map (·.sessionId)).Nodup) :
    ((metadataById metadataList).lookup id).isSome ↔ id ∈ metadataList.map (·.sessionId) := by
  rw [Option.isSome_iff_exists, mem_map]
  simp only [lookup_metadataById hids]

theorem mem_values (hids : (metadataList.map (·.sessionId)).Nodup) :
    m ∈ (metadataById metadataList).entries.map (·.2) ↔ m ∈ metadataList := by
  rw [mem_map]
  refine ⟨?_, fun hm => ⟨⟨m.sessionId, m⟩, ?_, rfl⟩⟩
  · rintro ⟨⟨id, m⟩, hentry, rfl⟩
    exact ((lookup_metadataById hids).1 (AList.mem_lookup_iff.2 hentry)).1
  · exact AList.mem_lookup_iff.1 ((lookup_metadataById hids).2 ⟨hm, rfl⟩)

/-! ## Links -/

/-- The child links of a snapshot: both ends are sessions. -/
def LineageLink (metadataList : List SessionMetadata) (parent child : String) : Prop :=
  ∃ m ∈ metadataList, m.sessionId = child ∧ subagentParentSessionId m = some parent ∧
    parent ∈ metadataList.map (·.sessionId)

theorem LineageLink.unique (hids : (metadataList.map (·.sessionId)).Nodup) {parent' : String}
    (h : LineageLink metadataList parent child) (h' : LineageLink metadataList parent' child) :
    parent = parent' := by
  obtain ⟨m, hm, hid, hparent, -⟩ := h
  obtain ⟨m', hm', hid', hparent', -⟩ := h'
  obtain rfl := inj_on_of_nodup_map hids hm hm' (hid.trans hid'.symm)
  exact Option.some.inj (hparent.symm.trans hparent')

theorem knownParent_eq_some (hids : (metadataList.map (·.sessionId)).Nodup) :
    knownParent (metadataById metadataList) child = some parent ↔
      LineageLink metadataList parent child := by
  rw [knownParent, Option.filter_eq_some_iff, Option.bind_eq_some_iff,
    isSome_lookup_metadataById hids]
  simp only [lookup_metadataById hids, LineageLink]
  refine ⟨?_, ?_⟩
  · rintro ⟨⟨m, ⟨hm, hid⟩, hparent⟩, hknown⟩
    exact ⟨m, hm, hid, hparent, hknown⟩
  · rintro ⟨m, hm, hid, hparent, hknown⟩
    exact ⟨⟨m, ⟨hm, hid⟩, hparent⟩, hknown⟩

theorem mem_foldl_joinParent (byId : AssocMap String SessionMetadata)
    (values : List SessionMetadata) : ∀ childIds : ChildIds,
      (child ∈ (values.foldl (joinParent byId) childIds).list parent ↔
        child ∈ childIds.list parent ∨ ∃ m ∈ values, m.sessionId = child ∧
          subagentParentSessionId m = some parent ∧ (byId.lookup parent).isSome) := by
  induction values with
  | nil => simp
  | cons m values ih =>
    intro childIds
    rw [foldl_cons, ih, exists_mem_cons_iff, ← or_assoc]
    refine or_congr_left ?_
    rw [joinParent]
    cases hparent : (subagentParentSessionId m).filter fun parent =>
        (byId.lookup parent).isSome with
    | none =>
      refine (or_iff_left ?_).symm
      rintro ⟨-, hsome, hknown⟩
      rw [hsome, Option.filter_some, if_pos hknown] at hparent
      cases hparent
    | some parent' =>
      obtain ⟨hsome, hknown⟩ := Option.filter_eq_some_iff.1 hparent
      dsimp only
      rw [mem_pushChild, hsome]
      refine or_congr_right ⟨?_, ?_⟩
      · rintro ⟨rfl, rfl⟩
        exact ⟨rfl, rfl, hknown⟩
      · rintro ⟨rfl, heq, -⟩
        exact ⟨(Option.some.inj heq).symm, rfl⟩

/-- The children of a session are those that link to it. -/
theorem mem_childrenByParent (hids : (metadataList.map (·.sessionId)).Nodup) :
    child ∈ (childrenByParent (metadataById metadataList)).list parent ↔
      LineageLink metadataList parent child := by
  rw [childrenByParent, AssocMap.list_mapValues rfl, mem_insertionSort,
    mem_foldl_joinParent]
  simp only [mem_values hids, isSome_lookup_metadataById hids]
  exact or_iff_right not_mem_nil

/-! ## Climbing -/

/-- Where the climb ends: above the anchor, and at the top unless the links form a cycle. -/
theorem climb_spec (hids : (metadataList.map (·.sessionId)).Nodup) {anchor : String}
    (hanchor : anchor ∈ metadataList.map (·.sessionId)) (fuel : ℕ) :
    ∀ {root : String} {ancestorIds : List String}, root ∈ metadataList.map (·.sessionId) →
      anchor ∈ ancestorIds → ancestorIds.Nodup → ancestorIds ⊆ metadataList.map (·.sessionId) →
      (∀ id ∈ ancestorIds, Relation.ReflTransGen (LineageLink metadataList) root id) →
      metadataList.length < fuel + ancestorIds.length →
      ∃ top, climb (metadataById metadataList) anchor fuel root ancestorIds = some top ∧
        top ∈ metadataList.map (·.sessionId) ∧
        Relation.ReflTransGen (LineageLink metadataList) top anchor ∧
        ((∀ id, ¬Relation.TransGen (LineageLink metadataList) id id) →
          ∀ parent, ¬LineageLink metadataList parent top) := by
  induction fuel with
  | zero =>
    intro root ancestorIds _ _ hnodup hsub _ hfuel
    have hlength := (subperm_of_subset hnodup hsub).length_le
    rw [length_map] at hlength
    omega
  | succ fuel ih =>
    intro root ancestorIds hroot hmem hnodup hsub hbelow hfuel
    rw [climb]
    cases hparent : knownParent (metadataById metadataList) root with
    | none =>
      refine ⟨root, rfl, hroot, hbelow anchor hmem, fun _ parent hlink => ?_⟩
      rw [(knownParent_eq_some hids).2 hlink] at hparent
      cases hparent
    | some parent =>
      have hlink := (knownParent_eq_some hids).1 hparent
      dsimp only
      split_ifs with hseen
      · -- The parent is below the session: a cycle.
        refine ⟨anchor, rfl, hanchor, .refl, fun hacyclic => absurd ?_ (hacyclic parent)⟩
        exact .head' hlink (hbelow parent hseen)
      · obtain ⟨-, -, -, -, hknown⟩ := hlink
        refine ih hknown (mem_cons_of_mem _ hmem) (nodup_cons.2 ⟨hseen, hnodup⟩)
          (cons_subset.2 ⟨hknown, hsub⟩) (fun id hid => ?_)
          (by rw [length_cons]; omega)
        rcases mem_cons.1 hid with rfl | hid
        · exact .refl
        · exact .head ((knownParent_eq_some hids).1 hparent) (hbelow id hid)

/-! ## The snapshot -/

/-- The identifiers that a snapshot shows, in their order. -/
def SessionLineageSnapshot.ids (snapshot : SessionLineageSnapshot) : List String :=
  snapshot.sessions.map (·.sessionId)

/-- The tree around an anchor: all that the links reach from the root, each once, the root first
and the anchor among them. On acyclic links every parent stands before its children, and the root
has no parent. -/
structure IsLineage (metadataList : List SessionMetadata) (anchor : String)
    (snapshot : SessionLineageSnapshot) : Prop where
  sessions : snapshot.sessions ⊆ metadataList
  nodup : snapshot.ids.Nodup
  root : snapshot.ids.head? = some snapshot.rootSessionId
  anchor : anchor ∈ snapshot.ids
  mem_iff (id : String) : id ∈ snapshot.ids ↔
    Relation.ReflTransGen (LineageLink metadataList) snapshot.rootSessionId id
  parentsFirst : (∀ id, ¬Relation.TransGen (LineageLink metadataList) id id) →
    (snapshot.ids.Pairwise fun earlier later => ¬LineageLink metadataList later earlier) ∧
      ∀ parent, ¬LineageLink metadataList parent snapshot.rootSessionId

/-- Looking up known identifiers gives back their sessions. -/
theorem map_filterMap_lookup (hids : (metadataList.map (·.sessionId)).Nodup) {ids : List String}
    (hknown : ∀ id ∈ ids, id ∈ metadataList.map (·.sessionId)) :
    (ids.filterMap (metadataById metadataList).lookup).map (·.sessionId) = ids := by
  induction ids with
  | nil => rfl
  | cons id ids ih =>
    obtain ⟨m, hm⟩ := Option.isSome_iff_exists.1
      ((isSome_lookup_metadataById hids).2 (hknown id mem_cons_self))
    rw [filterMap_cons, hm]
    dsimp only
    rw [map_cons, ((lookup_metadataById hids).1 hm).2,
      ih fun id hid => hknown id (mem_cons_of_mem _ hid)]

/-- A walk from a root puts the root out first. -/
theorem head?_ordered {children : String → List String} {root : String} {walk : Walk String}
    (h : Visits children emit skip .start [root] walk) : walk.ordered.head? = some root := by
  cases h with
  | seen hx => exact absurd hx not_mem_nil
  | fresh _ hbelow hrest =>
    cases hrest
    obtain ⟨added, hadded⟩ := hbelow.added
    have hordered := ordered_of_preOrder hbelow rfl
    rw [hadded.eq] at hordered
    dsimp only [skip]
    rw [hordered, reverse_append]
    rfl

theorem exists_snapshot (hids : (metadataList.map (·.sessionId)).Nodup)
    (anchorSessionId : String) : ∃ result,
      buildSessionLineageSnapshot metadataList anchorSessionId = some result ∧
      (result = none ↔ ∀ anchor, trimmed anchorSessionId = some anchor →
        anchor ∉ metadataList.map (·.sessionId)) ∧
      ∀ snapshot, result = some snapshot → ∃ anchor, trimmed anchorSessionId = some anchor ∧
        IsLineage metadataList anchor snapshot := by
  rw [buildSessionLineageSnapshot]
  cases trimmed anchorSessionId with
  | none => exact ⟨none, rfl, by simp, by simp⟩
  | some anchor =>
    dsimp only
    split_ifs with hunknown
    · refine ⟨none, rfl, iff_of_true rfl fun anchor' heq hmem => ?_, by simp⟩
      obtain rfl := Option.some.inj heq
      have hknown := (isSome_lookup_metadataById hids).2 hmem
      rw [Option.isNone_iff_eq_none.1 hunknown] at hknown
      cases hknown
    · have hanchor : anchor ∈ metadataList.map (·.sessionId) := by
        rw [← isSome_lookup_metadataById hids, ← Option.not_isNone, Bool.not_eq_true']
        exact Bool.eq_false_iff.2 hunknown
      obtain ⟨root, hclimb, hroot, habove, htop⟩ := climb_spec hids hanchor
        (metadataList.length + 1) hanchor (mem_singleton_self anchor) (nodup_singleton _)
        (cons_subset.2 ⟨hanchor, nil_subset _⟩)
        (fun id hid => mem_singleton.1 hid ▸ .refl) (by rw [length_singleton]; omega)
      have hlink : Child (childrenByParent (metadataById metadataList)).list =
          LineageLink metadataList := by
        funext parent child
        exact propext (mem_childrenByParent hids)
      have hchildren : ∀ parent, ∀ child ∈ (childrenByParent (metadataById metadataList)).list
          parent, child ∈ metadataList.map (·.sessionId) := by
        intro parent child hchild
        obtain ⟨m, hm, hid, -⟩ := (mem_childrenByParent hids).1 hchild
        exact mem_map.2 ⟨m, hm, hid⟩
      obtain ⟨walk, hwalk, hvisits⟩ := exists_walk emit skip hchildren
        (forall_mem_singleton.2 hroot)
      have hordered : walk.ordered = walk.visited.reverse := ordered_of_preOrder hvisits rfl
      have hmem (id : String) : id ∈ walk.ordered ↔
          Relation.ReflTransGen (LineageLink metadataList) root id := by
        rw [hordered, mem_reverse, mem_visited hvisits, hlink]
        simp
      have hknown : ∀ id ∈ walk.ordered, id ∈ metadataList.map (·.sessionId) := by
        intro id hid
        rcases Relation.ReflTransGen.cases_tail ((hmem id).1 hid) with rfl | ⟨parent, -, hchild⟩
        · exact hroot
        · obtain ⟨m, hm, rfl, -⟩ := hchild
          exact mem_map_of_mem hm
      have hids' : (walk.ordered.filterMap fun id => (metadataById metadataList).lookup id).map
          (·.sessionId) = walk.ordered := map_filterMap_lookup hids hknown
      have hvisit : collectSubagentPreOrder (childrenByParent (metadataById metadataList))
          (metadataList.length + 1) .start root = some walk := by
        rw [visitAll, foldlM_cons] at hwalk
        exact (bind_pure _).symm.trans hwalk
      refine ⟨some ⟨root, walk.ordered.filterMap fun id => (metadataById metadataList).lookup id⟩,
        ?_, iff_of_false (by simp) fun h => h anchor rfl hanchor, ?_⟩
      · rw [hclimb, Option.bind_eq_bind, Option.bind_some, hvisit]
        rfl
      · rintro snapshot ⟨⟩
        refine ⟨anchor, rfl, ?_, ?_, ?_, ?_, fun id => ?_, fun hacyclic => ⟨?_, htop hacyclic⟩⟩
        · intro m hm
          obtain ⟨id, -, hlookup⟩ := mem_filterMap.1 hm
          exact ((lookup_metadataById hids).1 hlookup).1
        · rw [SessionLineageSnapshot.ids, hids', hordered, nodup_reverse]
          exact nodup_visited hvisits
        · rw [SessionLineageSnapshot.ids, hids']
          exact head?_ordered hvisits
        · rw [SessionLineageSnapshot.ids, hids']
          exact (hmem anchor).2 habove
        · rw [SessionLineageSnapshot.ids, hids']
          exact hmem id
        · rw [SessionLineageSnapshot.ids, hids', hordered, pairwise_reverse]
          have hdiscovered := hvisits.discovered trivial fun x hx => Or.inl hx
          have hpairwise := hdiscovered.pairwise (nodup_visited hvisits)
            (fun x y z hx hy => LineageLink.unique hids (hlink ▸ hx) (hlink ▸ hy))
            (forall_mem_singleton.2 fun y _ => by
              rw [hlink]
              exact htop hacyclic y)
          rwa [hlink] at hpairwise

/-! ## Both traversals -/

/-- Both traversals come to an end and are exact, whatever the links are. -/
theorem lineage_exact (metadataList : List SessionMetadata)
    (hids : (metadataList.map (·.sessionId)).Nodup) (parentSessionId : String)
    (parentDialogTurnIds : List String) (anchorSessionId : String) :
    (∃ ids, collectHiddenSubagentCascade metadataList parentSessionId parentDialogTurnIds =
      some ids ∧ IsCascade metadataList parentSessionId parentDialogTurnIds ids) ∧
    ∃ result, buildSessionLineageSnapshot metadataList anchorSessionId = some result ∧
      (result = none ↔ ∀ anchor, trimmed anchorSessionId = some anchor →
        anchor ∉ metadataList.map (·.sessionId)) ∧
      ∀ snapshot, result = some snapshot → ∃ anchor, trimmed anchorSessionId = some anchor ∧
        IsLineage metadataList anchor snapshot :=
  ⟨exists_cascade metadataList parentSessionId parentDialogTurnIds,
    exists_snapshot hids anchorSessionId⟩

/-- A subagent session that a turn spawned. -/
def spawned (id parent : String) : SessionMetadata :=
  { sessionId := id, sessionName := "", createdAt := 1, lastActiveAt := 1,
    relationship := some
      { kind := some .subagent, parentSessionId := some parent, parentDialogTurnId := some "t" } }

/-- A subagent session and a subagent of it go in a cascade, the inner one first. -/
theorem lineage_exact_sample :
    IsCascade [spawned "helper" "main", spawned "scout" "helper"] "main" ["t"]
      ["scout", "helper"] := by
  obtain ⟨⟨ids, hids, hcascade⟩, -⟩ := lineage_exact
    [spawned "helper" "main", spawned "scout" "helper"] (by decide) "main" ["t"] "scout"
  obtain rfl : ids = ["scout", "helper"] :=
    Option.some.inj (hids.symm.trans (by decide))
  exact hcascade

/-- A blank identifier names no parent and no anchor, even where a session has it. -/
theorem blank_ignored :
    SpawnedIn [spawned "" " "] " " ["t"] "" ∧
    collectHiddenSubagentCascade [spawned "" " "] " " ["t"] = some [] ∧
    (buildSessionLineageSnapshot [spawned "" " "] "").map (·.isNone) = some true :=
  ⟨⟨_, mem_singleton_self _, rfl, "t", mem_singleton_self _, rfl⟩, by decide, by decide⟩

end Session

end OpenBitFun
