import Mathlib
import OpenBitFun.AssocMap
import OpenBitFun.DepthFirst
import OpenBitFun.SessionMetadata

/-!
# Subagent sessions of a session

A subagent session names its parent and the parent's turn that spawned it (`session/lineage.rs`).
Deleting turns deletes the subagents they spawned, children first; a snapshot shows the whole tree
around a session, parents first. The links come from stored records, so they may form cycles.
-/

namespace OpenBitFun

open List

open DepthFirst

namespace Session

/-- The facts that make a session a subagent session of a turn. -/
structure SubagentRelationshipFacts where
  kind : SessionRelationshipKind
  parentSessionId : String
  parentDialogTurnId : String

/-- `extract_subagent_relationship` -/
def extractSubagentRelationship (m : SessionMetadata) : Option SubagentRelationshipFacts := do
  let relationship ← normalizedSessionRelationship m
  let kind ← relationship.kind
  let parentSessionId ← relationship.parentSessionId
  let parentDialogTurnId ← relationship.parentDialogTurnId
  return ⟨kind, parentSessionId, parentDialogTurnId⟩

/-- The children of each parent. -/
abbrev ChildIds := AssocMap String (List String)

/-- `entry(parent).or_default().push(child)` -/
def pushChild (childIds : ChildIds) (parent child : String) : ChildIds :=
  childIds.insert parent (childIds.list parent ++ [child])

/-- `collect_subagent_pre_order` -/
def collectSubagentPreOrder (childIds : ChildIds) (fuel : ℕ) (walk : Walk String)
    (sessionId : String) : Option (Walk String) :=
  visit childIds.list emit skip fuel walk sessionId

/-- `collect_subagent_post_order` -/
def collectSubagentPostOrder (childIds : ChildIds) (fuel : ℕ) (walk : Walk String)
    (sessionId : String) : Option (Walk String) :=
  visit childIds.list skip emit fuel walk sessionId

/-! ## The cascade of a deletion -/

/-- One turn of the loop of `collect_hidden_subagent_cascade` over the metadata. -/
def collectSubagent (parentSessionId : String) (parentDialogTurnIds : List String)
    (collected : ChildIds × List String) (m : SessionMetadata) : ChildIds × List String :=
  match extractSubagentRelationship m with
  | none => collected
  | some relationship =>
    if relationship.kind ≠ .subagent then collected
    else
      (pushChild collected.1 relationship.parentSessionId m.sessionId,
        if relationship.parentSessionId = parentSessionId ∧
            relationship.parentDialogTurnId ∈ parentDialogTurnIds then
          collected.2 ++ [m.sessionId]
        else collected.2)

/-- `collect_hidden_subagent_cascade`. The walk has more fuel than there are sessions; none is a
walk that ran out of it. -/
def collectHiddenSubagentCascade (metadataList : List SessionMetadata) (parentSessionId : String)
    (parentDialogTurnIds : List String) : Option (List String) :=
  if (trimmed parentSessionId).isNone ∨ parentDialogTurnIds = [] then some []
  else
    let collected :=
      metadataList.foldl (collectSubagent parentSessionId parentDialogTurnIds) (∅, [])
    (collected.2.foldlM (collectSubagentPostOrder collected.1 (metadataList.length + 1))
      .start).map (·.ordered)

/-! ## The snapshot of a tree -/

/-- `subagent_parent_session_id` -/
def subagentParentSessionId (m : SessionMetadata) : Option String := do
  let relationship ← normalizedSessionRelationship m
  if relationship.kind = some .subagent then relationship.parentSessionId.bind trimmed else none

/-- The sessions of a tree. -/
structure SessionLineageSnapshot where
  rootSessionId : String
  sessions : List SessionMetadata

/-- The parent of a session, if it is a session too. -/
def knownParent (metadataById : AssocMap String SessionMetadata) (sessionId : String) :
    Option String :=
  ((metadataById.lookup sessionId).bind subagentParentSessionId).filter fun parent =>
    (metadataById.lookup parent).isSome

/-- The `while` loop of `build_session_lineage_snapshot`: climbs to the root, and falls back to the
anchor when it comes to an ancestor again. None is a loop that ran out of fuel. -/
def climb (metadataById : AssocMap String SessionMetadata) (anchor : String) :
    (fuel : ℕ) → (root : String) → (ancestorIds : List String) → Option String
  | 0, _, _ => none
  | fuel + 1, root, ancestorIds =>
    match knownParent metadataById root with
    | none => some root
    | some parent =>
      if parent ∈ ancestorIds then some anchor
      else climb metadataById anchor fuel parent (parent :: ancestorIds)

/-- One turn of the loop over the values: a session joins its parent's children. -/
def joinParent (metadataById : AssocMap String SessionMetadata) (childIds : ChildIds)
    (m : SessionMetadata) : ChildIds :=
  match (subagentParentSessionId m).filter fun parent => (metadataById.lookup parent).isSome with
  | some parent => pushChild childIds parent m.sessionId
  | none => childIds

/-- When a session was created; all children are known. -/
def createdAtOf (metadataById : AssocMap String SessionMetadata) (sessionId : String) : ℕ :=
  ((metadataById.lookup sessionId).map (·.createdAt)).getD 0

/-- The order among the children of a session. -/
def siblingOrder (metadataById : AssocMap String SessionMetadata) (left right : String) :
    Ordering :=
  (compare (createdAtOf metadataById left) (createdAtOf metadataById right)).then
    (compare left right)

/-- The children of each session, sorted. -/
def childrenByParent (metadataById : AssocMap String SessionMetadata) : ChildIds :=
  ((metadataById.entries.map (·.2)).foldl (joinParent metadataById) ∅).mapValues fun _ children =>
    children.insertionSort fun left right => (siblingOrder metadataById left right).isLE

/-- The sessions by their identifiers. -/
def metadataById (metadataList : List SessionMetadata) : AssocMap String SessionMetadata :=
  metadataList.foldl (fun byId m => byId.insert m.sessionId m) ∅

/-- `build_session_lineage_snapshot`. The outer option is none when a loop runs out of fuel. -/
def buildSessionLineageSnapshot (metadataList : List SessionMetadata) (anchorSessionId : String) :
    Option (Option SessionLineageSnapshot) :=
  match trimmed anchorSessionId with
  | none => some none
  | some anchor =>
    let byId := metadataById metadataList
    if (byId.lookup anchor).isNone then some none
    else do
      let root ← climb byId anchor (metadataList.length + 1) anchor [anchor]
      let walk ← collectSubagentPreOrder (childrenByParent byId) (metadataList.length + 1) .start
        root
      return some ⟨root, walk.ordered.filterMap byId.lookup⟩

/-! ## What the loops collect -/

section Collect

variable {parentSessionId parent child : String} {parentDialogTurnIds : List String}

theorem mem_pushChild {childIds : ChildIds} {parent' child' : String} :
    child' ∈ (pushChild childIds parent child).list parent' ↔
      child' ∈ childIds.list parent' ∨ parent' = parent ∧ child' = child := by
  rw [pushChild, AssocMap.list_insert]
  split_ifs with h
  · subst h
    simp
  · simp [h]

/-- A session is a subagent session of a parent. -/
def SubagentOf (m : SessionMetadata) (parent : String) : Prop :=
  ∃ turn, extractSubagentRelationship m = some ⟨.subagent, parent, turn⟩

/-- The child links among the sessions. -/
def SubagentLink (metadataList : List SessionMetadata) (parent child : String) : Prop :=
  ∃ m ∈ metadataList, m.sessionId = child ∧ SubagentOf m parent

/-- The subagent sessions that the turns of a session spawned. -/
def SpawnedIn (metadataList : List SessionMetadata) (parentSessionId : String)
    (parentDialogTurnIds : List String) (child : String) : Prop :=
  ∃ m ∈ metadataList, m.sessionId = child ∧ ∃ turn ∈ parentDialogTurnIds,
    extractSubagentRelationship m = some ⟨.subagent, parentSessionId, turn⟩

theorem mem_collectSubagent (parentSessionId : String) (parentDialogTurnIds : List String)
    (collected : ChildIds × List String) (m : SessionMetadata) :
    (∀ parent child,
      child ∈ (collectSubagent parentSessionId parentDialogTurnIds collected m).1.list parent ↔
        child ∈ collected.1.list parent ∨ m.sessionId = child ∧ SubagentOf m parent) ∧
    ∀ child, child ∈ (collectSubagent parentSessionId parentDialogTurnIds collected m).2 ↔
      child ∈ collected.2 ∨ m.sessionId = child ∧ ∃ turn ∈ parentDialogTurnIds,
        extractSubagentRelationship m = some ⟨.subagent, parentSessionId, turn⟩ := by
  rw [collectSubagent]
  simp only [SubagentOf]
  cases extractSubagentRelationship m with
  | none => simp
  | some relationship =>
    obtain ⟨kind, parent', turn⟩ := relationship
    by_cases hkind : kind = .subagent
    · subst hkind
      refine ⟨fun parent child => ?_, fun child => ?_⟩
      · simp [mem_pushChild, and_comm, eq_comm]
      · by_cases hroot : parent' = parentSessionId ∧ turn ∈ parentDialogTurnIds
        · simp [hroot, eq_comm]
        · have hnot : ¬∃ turn' ∈ parentDialogTurnIds,
              some (⟨.subagent, parent', turn⟩ : SubagentRelationshipFacts) =
                some ⟨.subagent, parentSessionId, turn'⟩ := by
            rintro ⟨turn', hmem, heq⟩
            cases heq
            exact hroot ⟨rfl, hmem⟩
          simp only [ne_eq, not_true_eq_false, if_false, if_neg hroot, hnot, and_false, or_false]
    · simp [hkind]

/-- What the loop over the metadata collects. -/
theorem mem_collected (parentSessionId : String) (parentDialogTurnIds : List String)
    (metadataList : List SessionMetadata) :
    ∀ collected : ChildIds × List String,
      (∀ parent child, child ∈ (metadataList.foldl
          (collectSubagent parentSessionId parentDialogTurnIds) collected).1.list parent ↔
        child ∈ collected.1.list parent ∨ SubagentLink metadataList parent child) ∧
      ∀ child, child ∈ (metadataList.foldl
          (collectSubagent parentSessionId parentDialogTurnIds) collected).2 ↔
        child ∈ collected.2 ∨ SpawnedIn metadataList parentSessionId parentDialogTurnIds child := by
  induction metadataList with
  | nil =>
    intro collected
    simp [SubagentLink, SpawnedIn]
  | cons m metadataList ih =>
    intro collected
    obtain ⟨hlinks, hroots⟩ := ih (collectSubagent parentSessionId parentDialogTurnIds collected m)
    obtain ⟨hlink, hroot⟩ :=
      mem_collectSubagent parentSessionId parentDialogTurnIds collected m
    refine ⟨fun parent child => ?_, fun child => ?_⟩
    · rw [foldl_cons, hlinks, hlink, or_assoc]
      simp only [SubagentLink, exists_mem_cons_iff]
    · rw [foldl_cons, hroots, hroot, or_assoc]
      simp only [SpawnedIn, exists_mem_cons_iff]

end Collect

/-! ## The cascade -/

section Cascade

variable {metadataList : List SessionMetadata} {nodes : List String} {childIds : ChildIds}

/-- With more fuel than sessions a walk along child links ends. -/
theorem exists_walk (enter leave : List String → String → List String) {starts : List String}
    (hchildren : ∀ parent, ∀ child ∈ childIds.list parent,
      child ∈ metadataList.map (·.sessionId))
    (hstarts : ∀ start ∈ starts, start ∈ metadataList.map (·.sessionId)) :
    ∃ walk, visitAll childIds.list enter leave (metadataList.length + 1) .start starts =
        some walk ∧ Visits childIds.list enter leave .start starts walk := by
  have hfuel : (unvisited (metadataList.map (·.sessionId)) Walk.start).length <
      metadataList.length + 1 := by
    refine Nat.lt_succ_of_le ((length_filter_le _ _).trans ?_)
    rw [length_map]
  obtain ⟨walk, hwalk, -⟩ := @exists_visitAll _ childIds.list enter leave _ _
    (fun x _ => hchildren x) _ _ _ hstarts hfuel
  exact ⟨walk, hwalk, visits_of_visitAll _ hwalk⟩

/-- The cascade of some turns: the subagent sessions that the turns spawned and all below them, each
once, and on acyclic links each after all its descendants. There is none without a parent. -/
structure IsCascade (metadataList : List SessionMetadata) (parentSessionId : String)
    (parentDialogTurnIds : List String) (ids : List String) : Prop where
  nodup : ids.Nodup
  mem_iff (id : String) : id ∈ ids ↔ (trimmed parentSessionId).isSome ∧ ∃ root,
    SpawnedIn metadataList parentSessionId parentDialogTurnIds root ∧
      Relation.ReflTransGen (SubagentLink metadataList) root id
  childrenFirst : (∀ id, ¬Relation.TransGen (SubagentLink metadataList) id id) →
    ids.Pairwise fun earlier later =>
      ¬Relation.TransGen (SubagentLink metadataList) earlier later
  cycle_of_parent : parentSessionId ∈ ids →
    Relation.TransGen (SubagentLink metadataList) parentSessionId parentSessionId

theorem exists_cascade (metadataList : List SessionMetadata) (parentSessionId : String)
    (parentDialogTurnIds : List String) :
    ∃ ids, collectHiddenSubagentCascade metadataList parentSessionId parentDialogTurnIds =
      some ids ∧ IsCascade metadataList parentSessionId parentDialogTurnIds ids := by
  rw [collectHiddenSubagentCascade]
  split_ifs with hnone
  · refine ⟨[], rfl, nodup_nil, fun id => ?_, fun _ => .nil, by simp⟩
    refine ⟨fun h => absurd h not_mem_nil, ?_⟩
    rintro ⟨hsome, root, ⟨m, -, -, turn, hturn, -⟩, -⟩
    rcases hnone with hblank | hturns
    · rw [Option.isNone_iff_eq_none.1 hblank] at hsome
      cases hsome
    · rw [hturns] at hturn
      cases hturn
  · obtain ⟨hlinks, hroots⟩ :=
      mem_collected parentSessionId parentDialogTurnIds metadataList (∅, [])
    generalize metadataList.foldl (collectSubagent parentSessionId parentDialogTurnIds)
      (∅, []) = collected at hlinks hroots ⊢
    have hlink : Child collected.1.list = SubagentLink metadataList := by
      funext parent child
      exact propext ((hlinks parent child).trans (or_iff_right not_mem_nil))
    have hroot (child : String) : child ∈ collected.2 ↔
        SpawnedIn metadataList parentSessionId parentDialogTurnIds child :=
      (hroots child).trans (or_iff_right not_mem_nil)
    have hknown : ∀ parent, ∀ child ∈ collected.1.list parent,
        child ∈ metadataList.map (·.sessionId) := by
      intro parent child hchild
      obtain ⟨m, hm, hid, -⟩ := ((hlinks parent child).1 hchild).resolve_left not_mem_nil
      exact mem_map.2 ⟨m, hm, hid⟩
    have hstarts : ∀ start ∈ collected.2, start ∈ metadataList.map (·.sessionId) := by
      intro start hstart
      obtain ⟨m, hm, hid, -⟩ := (hroot start).1 hstart
      exact mem_map.2 ⟨m, hm, hid⟩
    obtain ⟨walk, hwalk, hvisits⟩ := exists_walk skip emit hknown hstarts
    have hperm : walk.ordered.Perm walk.visited := by
      have h := perm_of_postOrder hvisits [] (List.Perm.refl _)
      rwa [append_nil] at h
    have hmem (id : String) : id ∈ walk.ordered ↔ ∃ root,
        SpawnedIn metadataList parentSessionId parentDialogTurnIds root ∧
          Relation.ReflTransGen (SubagentLink metadataList) root id := by
      rw [hperm.mem_iff, mem_visited hvisits, hlink]
      simp only [hroot]
    have hnodup : walk.ordered.Nodup := hperm.nodup_iff.2 (nodup_visited hvisits)
    refine ⟨walk.ordered, ?_, hnodup, fun id => ?_, fun hacyclic => ?_, fun hparent => ?_⟩
    · exact congrArg (Option.map (·.ordered)) hwalk
    · rw [hmem, and_iff_right]
      exact Option.isSome_iff_ne_none.2 fun hblank =>
        hnone (Or.inl (Option.isNone_iff_eq_none.2 hblank))
    · have hacyclic' : Acyclic collected.1.list := by
        rw [Acyclic, hlink]
        exact hacyclic
      have hbottom := bottomUp_of_postOrder hacyclic' hvisits [] (List.Perm.refl _)
        (fun _ h => absurd h not_mem_nil) .nil
      exact hlink ▸ hbottom.pairwise hnodup
    · -- The parent is above every spawned session, so a walk back to it is a cycle.
      obtain ⟨root, ⟨m, hm, hid, turn, -, hturn⟩, hreach⟩ := (hmem parentSessionId).1 hparent
      exact .head' ⟨m, hm, hid, turn, hturn⟩ hreach

end Cascade

end Session

end OpenBitFun
