import Mathlib
import OpenBitFun.Json
import OpenBitFun.Run

/-!
# Undo and redo of a session

A session is reverted to the turn of a user prompt (`session/revert.rs`): undo hides the last prompt
that is visible, redo shows the first that is hidden, and a prompt can be chosen by its id. The
turns come in any order, their indices may leave gaps, and between the prompts there are turns of
maintenance.
-/

namespace OpenBitFun

open List

namespace SessionRevert

/-! ## Turns and states -/

/-- `DialogTurnKind`. -/
inductive DialogTurnKind where
  | userDialog
  | manualCompaction
  | localCommand
  deriving DecidableEq, Repr

/-- `UserMessageData`, as far as a prompt is read from it. -/
structure UserMessageData where
  content : String
  metadata : Option Json.Value

/-- `DialogTurnData`, as far as it is read here. -/
structure DialogTurnData where
  turnId : String
  turnIndex : ℕ
  kind : DialogTurnKind
  userMessage : UserMessageData

/-- `usize::MAX`. -/
def usizeMax : ℕ := 2 ^ 64 - 1

/-- `SESSION_REVERT_SCHEMA_VERSION`. -/
def SESSION_REVERT_SCHEMA_VERSION : ℕ := 1

/-- `SessionRevertPhase`. -/
inductive SessionRevertPhase where
  | applying
  | staged
  | clearing
  | committing
  deriving DecidableEq, Repr

/-- `SessionWorkspaceCheckpoint`. -/
structure SessionWorkspaceCheckpoint where
  path : String
  snapshotId : Option String
  deriving DecidableEq, Repr

/-- `SessionRevertState`. -/
@[ext] structure SessionRevertState where
  schemaVersion : ℕ
  /-- The index of the first turn that is hidden. -/
  boundaryTurn : ℕ
  /-- Behind the last turn there was when the revert began. -/
  originalTurnEnd : ℕ
  phase : SessionRevertPhase
  workspaceCheckpoint : List SessionWorkspaceCheckpoint
  deriving DecidableEq, Repr

/-- `SessionRevertState::initial`. -/
def SessionRevertState.initial (boundaryTurn originalTurnEnd : ℕ) : SessionRevertState where
  schemaVersion := SESSION_REVERT_SCHEMA_VERSION
  boundaryTurn := boundaryTurn
  originalTurnEnd := originalTurnEnd
  phase := .applying
  workspaceCheckpoint := []

/-- `SessionRevertTransition`. -/
inductive SessionRevertTransition where
  | stage (state : SessionRevertState) (replacementPrompt : Option String) (hiddenTurnCount : ℕ)
  | clear (previousState : SessionRevertState)
  deriving DecidableEq, Repr

/-! ## The resolvers -/

/-- `max_by_key`: the last element with the greatest key. -/
def maxByKey {α : Type} (key : α → ℕ) : List α → Option α
  | [] => none
  | a :: l =>
    match maxByKey key l with
    | none => some a
    | some b => if key a ≤ key b then some b else some a

/-- `min_by_key`: the first element with the least key. -/
def minByKey {α : Type} (key : α → ℕ) : List α → Option α
  | [] => none
  | a :: l =>
    match minByKey key l with
    | none => some a
    | some b => if key a ≤ key b then some a else some b

/-- `original_turn_end`. -/
def originalTurnEnd (turns : List DialogTurnData) : ℕ :=
  ((turns.map fun turn => min (turn.turnIndex + 1) usizeMax).max?).getD 0

/-- How many turns a boundary hides. -/
def hiddenTurnCount (turns : List DialogTurnData) (boundaryTurn : ℕ) : ℕ :=
  turns.countP (boundaryTurn ≤ ·.turnIndex)

/-- The prompt of a turn as the user wrote it. -/
def replacementPrompt (target : DialogTurnData) : String :=
  ((target.userMessage.metadata.bind (·.get "original_text")).bind (·.asStr)).getD
    target.userMessage.content

/-- The turns before a prompt stay, of the current revert or of a new one. -/
def stageAt (turns : List DialogTurnData) (current : Option SessionRevertState)
    (target : DialogTurnData) : SessionRevertTransition :=
  let state := current.getD (.initial target.turnIndex (originalTurnEnd turns))
  let state := { state with boundaryTurn := target.turnIndex, phase := .applying }
  .stage state (some (replacementPrompt target)) (hiddenTurnCount turns state.boundaryTurn)

/-- `resolve_undo`. -/
def resolveUndo (turns : List DialogTurnData) (current : Option SessionRevertState) :
    Option SessionRevertTransition :=
  let currentBoundary := (current.map (·.boundaryTurn)).getD (originalTurnEnd turns)
  (maxByKey (·.turnIndex) ((turns.filter (·.kind = .userDialog)).filter
    (·.turnIndex < currentBoundary))).map (stageAt turns current)

/-- `resolve_targeted`. -/
def resolveTargeted (turns : List DialogTurnData) (targetTurnId : String)
    (current : Option SessionRevertState) : Option SessionRevertTransition :=
  (turns.find? fun turn => turn.kind = .userDialog ∧ turn.turnId = targetTurnId).map
    (stageAt turns current)

/-- `resolve_redo`. -/
def resolveRedo (turns : List DialogTurnData) (current : Option SessionRevertState) :
    Option SessionRevertTransition :=
  match current with
  | none => none
  | some current =>
    match minByKey (·.turnIndex) ((turns.filter (·.kind = .userDialog)).filter fun turn =>
        turn.turnIndex > current.boundaryTurn ∧ turn.turnIndex < current.originalTurnEnd) with
    | some next =>
      let state := { current with boundaryTurn := next.turnIndex, phase := .applying }
      some (.stage state none (hiddenTurnCount turns state.boundaryTurn))
    | none => some (.clear current)

/-! ## What the resolvers find -/

theorem maxByKey_eq_none {α : Type} {key : α → ℕ} {l : List α} (h : maxByKey key l = none) :
    l = [] := by
  cases l with
  | nil => rfl
  | cons a l =>
    rw [maxByKey] at h
    split at h
    · cases h
    · split at h
      · cases h
      · cases h

theorem maxByKey_eq_some {α : Type} {key : α → ℕ} {l : List α} {m : α}
    (h : maxByKey key l = some m) : m ∈ l ∧ ∀ a ∈ l, key a ≤ key m := by
  induction l generalizing m with
  | nil => cases h
  | cons a l ih =>
    rw [maxByKey] at h
    cases hrest : maxByKey key l with
    | none =>
      rw [hrest] at h
      cases h
      rw [maxByKey_eq_none hrest]
      simp
    | some b =>
      obtain ⟨hb, hmax⟩ := ih hrest
      rw [hrest] at h
      dsimp only at h
      split at h
      · rename_i hle
        cases h
        exact ⟨mem_cons_of_mem _ hb, forall_mem_cons.2 ⟨hle, hmax⟩⟩
      · rename_i hlt
        cases h
        refine ⟨mem_cons_self, forall_mem_cons.2 ⟨Nat.le_refl _, fun c hc => ?_⟩⟩
        have := hmax c hc
        omega

theorem minByKey_eq_none {α : Type} {key : α → ℕ} {l : List α} (h : minByKey key l = none) :
    l = [] := by
  cases l with
  | nil => rfl
  | cons a l =>
    rw [minByKey] at h
    split at h
    · cases h
    · split at h
      · cases h
      · cases h

theorem minByKey_eq_some {α : Type} {key : α → ℕ} {l : List α} {m : α}
    (h : minByKey key l = some m) : m ∈ l ∧ ∀ a ∈ l, key m ≤ key a := by
  induction l generalizing m with
  | nil => cases h
  | cons a l ih =>
    rw [minByKey] at h
    cases hrest : minByKey key l with
    | none =>
      rw [hrest] at h
      cases h
      rw [minByKey_eq_none hrest]
      simp
    | some b =>
      obtain ⟨hb, hmin⟩ := ih hrest
      rw [hrest] at h
      dsimp only at h
      split at h
      · rename_i hle
        cases h
        refine ⟨mem_cons_self, forall_mem_cons.2 ⟨Nat.le_refl _, fun c hc => ?_⟩⟩
        have := hmin c hc
        omega
      · rename_i hlt
        cases h
        exact ⟨mem_cons_of_mem _ hb, forall_mem_cons.2 ⟨by omega, hmin⟩⟩

variable {turns : List DialogTurnData} {current : Option SessionRevertState}
  {s state : SessionRevertState}

/-- The indices of the user's turns. -/
def userIndices (turns : List DialogTurnData) : Set ℕ :=
  {i | ∃ turn ∈ turns, turn.kind = .userDialog ∧ turn.turnIndex = i}

/-- Where the visible turns end. -/
def visibleEnd (turns : List DialogTurnData) (current : Option SessionRevertState) : ℕ :=
  (current.map (·.boundaryTurn)).getD (originalTurnEnd turns)

/-- The state that a revert goes on from. -/
def base (turns : List DialogTurnData) (current : Option SessionRevertState) : SessionRevertState :=
  current.getD (.initial 0 (originalTurnEnd turns))

/-- A state with another boundary. -/
def SessionRevertState.at (s : SessionRevertState) (i : ℕ) : SessionRevertState :=
  { s with boundaryTurn := i, phase := .applying }

theorem stageAt_eq (turns : List DialogTurnData) (current : Option SessionRevertState)
    (target : DialogTurnData) :
    stageAt turns current target = .stage ((base turns current).at target.turnIndex)
      (some (replacementPrompt target)) (hiddenTurnCount turns target.turnIndex) := by
  cases current with
  | none => rfl
  | some s => rfl

/-- An undo goes to the last prompt that is visible. -/
theorem resolveUndo_cases (turns : List DialogTurnData) (current : Option SessionRevertState) :
    (resolveUndo turns current = none ∧ ∀ i ∈ userIndices turns, visibleEnd turns current ≤ i) ∨
    ∃ target ∈ turns, IsGreatest {i ∈ userIndices turns | i < visibleEnd turns current}
        target.turnIndex ∧
      resolveUndo turns current = some (.stage ((base turns current).at target.turnIndex)
        (some (replacementPrompt target)) (hiddenTurnCount turns target.turnIndex)) := by
  have hmem : ∀ turn, turn ∈ (turns.filter (·.kind = .userDialog)).filter
      (·.turnIndex < visibleEnd turns current) ↔
      turn ∈ turns ∧ turn.kind = .userDialog ∧ turn.turnIndex < visibleEnd turns current := by
    intro turn
    rw [mem_filter, mem_filter, decide_eq_true_iff, decide_eq_true_iff, and_assoc]
  have hresolve : resolveUndo turns current =
      (maxByKey (·.turnIndex) ((turns.filter (·.kind = .userDialog)).filter
        (·.turnIndex < visibleEnd turns current))).map (stageAt turns current) := rfl
  rw [hresolve]
  cases hmax : maxByKey (·.turnIndex) ((turns.filter (·.kind = .userDialog)).filter
      (·.turnIndex < visibleEnd turns current)) with
  | none =>
    refine .inl ⟨rfl, ?_⟩
    rintro i ⟨turn, hturn, huser, rfl⟩
    refine Nat.le_of_not_lt fun hlt => ?_
    have hin := (hmem turn).2 ⟨hturn, huser, hlt⟩
    rw [maxByKey_eq_none hmax] at hin
    cases hin
  | some target =>
    obtain ⟨hin, hgreatest⟩ := maxByKey_eq_some hmax
    obtain ⟨hturn, huser, hlt⟩ := (hmem target).1 hin
    refine .inr ⟨target, hturn, ⟨⟨⟨target, hturn, huser, rfl⟩, hlt⟩, ?_⟩,
      congrArg some (stageAt_eq turns current target)⟩
    rintro i ⟨⟨turn, hturn, huser, rfl⟩, hlt⟩
    exact hgreatest turn ((hmem turn).2 ⟨hturn, huser, hlt⟩)

/-- A prompt is chosen by the id of its turn. -/
theorem exists_of_resolveTargeted {id : String} {transition : SessionRevertTransition}
    (h : resolveTargeted turns id current = some transition) :
    ∃ target ∈ turns, target.turnIndex ∈ userIndices turns ∧
      transition = .stage ((base turns current).at target.turnIndex)
        (some (replacementPrompt target)) (hiddenTurnCount turns target.turnIndex) := by
  obtain ⟨target, hfind, rfl⟩ := Option.map_eq_some_iff.1 h
  have hkind : target.kind = .userDialog := by
    have hmatch := find?_some hfind
    rw [decide_eq_true_iff] at hmatch
    exact hmatch.1
  have hturn := mem_of_find?_eq_some hfind
  exact ⟨target, hturn, ⟨target, hturn, hkind, rfl⟩, stageAt_eq turns current target⟩

/-- A redo goes to the first prompt that is hidden behind the boundary, or ends the revert. -/
theorem resolveRedo_cases (turns : List DialogTurnData) (s : SessionRevertState) :
    (resolveRedo turns (some s) = some (.clear s) ∧
      ∀ i ∈ userIndices turns, i < s.originalTurnEnd → i ≤ s.boundaryTurn) ∨
    ∃ i, IsLeast {i ∈ userIndices turns | s.boundaryTurn < i ∧ i < s.originalTurnEnd} i ∧
      resolveRedo turns (some s) = some (.stage (s.at i) none (hiddenTurnCount turns i)) := by
  have hmem : ∀ turn, turn ∈ (turns.filter (·.kind = .userDialog)).filter (fun turn =>
      turn.turnIndex > s.boundaryTurn ∧ turn.turnIndex < s.originalTurnEnd) ↔
      turn ∈ turns ∧ turn.kind = .userDialog ∧ s.boundaryTurn < turn.turnIndex ∧
        turn.turnIndex < s.originalTurnEnd := by
    intro turn
    rw [mem_filter, mem_filter, decide_eq_true_iff, decide_eq_true_iff, and_assoc]
  rw [resolveRedo]
  cases hmin : minByKey (·.turnIndex) ((turns.filter (·.kind = .userDialog)).filter fun turn =>
      turn.turnIndex > s.boundaryTurn ∧ turn.turnIndex < s.originalTurnEnd) with
  | none =>
    refine .inl ⟨rfl, ?_⟩
    rintro i ⟨turn, hturn, huser, rfl⟩ hlt
    refine Nat.le_of_not_lt fun hgt => ?_
    have hin := (hmem turn).2 ⟨hturn, huser, hgt, hlt⟩
    rw [minByKey_eq_none hmin] at hin
    cases hin
  | some next =>
    obtain ⟨hin, hleast⟩ := minByKey_eq_some hmin
    obtain ⟨hturn, huser, hgt, hlt⟩ := (hmem next).1 hin
    refine .inr ⟨next.turnIndex, ⟨⟨⟨next, hturn, huser, rfl⟩, hgt, hlt⟩, ?_⟩, rfl⟩
    rintro i ⟨⟨turn, hturn, huser, rfl⟩, hgt, hlt⟩
    exact hleast turn ((hmem turn).2 ⟨hturn, huser, hgt, hlt⟩)

/-! ## Runs -/

/-- The requests that are resolved. -/
inductive RevertRequest where
  | undo
  | targeted (targetTurnId : String)
  | redo
  deriving DecidableEq, Repr

/-- The resolver of a request. -/
def resolve (turns : List DialogTurnData) (current : Option SessionRevertState) :
    RevertRequest → Option SessionRevertTransition
  | .undo => resolveUndo turns current
  | .targeted id => resolveTargeted turns id current
  | .redo => resolveRedo turns current

/-- The state after a transition. -/
def SessionRevertTransition.next : SessionRevertTransition → Option SessionRevertState
  | .stage state _ _ => some state
  | .clear _ => none

/-- A request that is resolved. -/
def Resolves (turns : List DialogTurnData) (current : Option SessionRevertState)
    (label : RevertRequest × SessionRevertTransition) (current' : Option SessionRevertState) :
    Prop :=
  resolve turns current label.1 = some label.2 ∧ current' = label.2.next

/-- A state that the resolvers return: its boundary is a prompt. -/
structure Staged (turns : List DialogTurnData) (s : SessionRevertState) : Prop where
  boundary : s.boundaryTurn ∈ userIndices turns
  originalTurnEnd : s.originalTurnEnd = originalTurnEnd turns
  phase : s.phase = .applying
  workspaceCheckpoint : s.workspaceCheckpoint = []

/-- What a transition keeps of the state before it. -/
structure Keeps (turns : List DialogTurnData) (current : Option SessionRevertState)
    (transition : SessionRevertTransition) : Prop where
  /-- Until the revert ends, its limit and its checkpoint stay. -/
  stage : ∀ state prompt hidden, transition = .stage state prompt hidden →
    hidden = turns.countP (state.boundaryTurn ≤ ·.turnIndex) ∧
    ∀ s, current = some s → state.originalTurnEnd = s.originalTurnEnd ∧
      state.workspaceCheckpoint = s.workspaceCheckpoint
  clear : ∀ s, transition = .clear s → current = some s

theorem keeps_of_stage {i : ℕ} {prompt : Option String} :
    Keeps turns current (.stage ((base turns current).at i) prompt (hiddenTurnCount turns i)) := by
  refine ⟨?_, ?_⟩
  · rintro _ _ _ ⟨⟩
    refine ⟨rfl, ?_⟩
    rintro s rfl
    exact ⟨rfl, rfl⟩
  · rintro s ⟨⟩

theorem keeps_of_resolve {request : RevertRequest} {transition : SessionRevertTransition}
    (h : resolve turns current request = some transition) : Keeps turns current transition := by
  cases request with
  | undo =>
    rcases resolveUndo_cases turns current with ⟨hnone, -⟩ | ⟨target, -, -, hsome⟩
    · cases hnone.symm.trans h
    · cases hsome.symm.trans h
      exact keeps_of_stage
  | targeted id =>
    obtain ⟨target, -, -, rfl⟩ := exists_of_resolveTargeted h
    exact keeps_of_stage
  | redo =>
    cases current with
    | none => cases h
    | some s =>
      rcases resolveRedo_cases turns s with ⟨hclear, -⟩ | ⟨i, -, hstage⟩
      · cases hclear.symm.trans h
        refine ⟨?_, ?_⟩
        · rintro _ _ _ ⟨⟩
        · rintro _ ⟨⟩
          rfl
      · cases hstage.symm.trans h
        exact @keeps_of_stage turns (some s) i none

/-- From no state or from one that was returned, another prompt is staged. -/
theorem staged_at {i : ℕ} (hi : i ∈ userIndices turns)
    (h : ∀ s, current = some s → Staged turns s) :
    Staged turns ((base turns current).at i) := by
  cases current with
  | none => exact ⟨hi, rfl, rfl, rfl⟩
  | some s => exact ⟨hi, (h s rfl).originalTurnEnd, rfl, (h s rfl).workspaceCheckpoint⟩

theorem Staged.resolve {request : RevertRequest} {transition : SessionRevertTransition}
    (h : ∀ s, current = some s → Staged turns s)
    (hresolve : resolve turns current request = some transition) :
    ∀ s, transition.next = some s → Staged turns s := by
  cases request with
  | undo =>
    rcases resolveUndo_cases turns current with ⟨hnone, -⟩ | ⟨target, -, hgreatest, hsome⟩
    · cases hnone.symm.trans hresolve
    · cases hsome.symm.trans hresolve
      rintro s ⟨⟩
      exact staged_at hgreatest.1.1 h
  | targeted id =>
    obtain ⟨target, -, huser, rfl⟩ := exists_of_resolveTargeted hresolve
    rintro s ⟨⟩
    exact staged_at huser h
  | redo =>
    cases current with
    | none => cases hresolve
    | some s =>
      rcases resolveRedo_cases turns s with ⟨hclear, -⟩ | ⟨i, hleast, hstage⟩
      · cases hclear.symm.trans hresolve
        rintro s ⟨⟩
      · cases hstage.symm.trans hresolve
        rintro _ ⟨⟩
        exact @staged_at turns (some s) i hleast.1.1 h

theorem staged_of_run {tr : List (RevertRequest × SessionRevertTransition)}
    (h : Run (Resolves turns) none tr current) : ∀ s, current = some s → Staged turns s := by
  refine h.invariant (P := fun current => ∀ s, current = some s → Staged turns s)
    (by rintro s ⟨⟩) ?_
  rintro current label current' hcurrent ⟨hresolve, rfl⟩
  exact Staged.resolve hcurrent hresolve

/-! ## Undo and redo -/

/-- Undo again and again visits these boundaries. -/
inductive Undoes (turns : List DialogTurnData) : Option SessionRevertState → List ℕ → Prop
  | done {current : Option SessionRevertState} (h : resolveUndo turns current = none) :
      Undoes turns current []
  | step {current : Option SessionRevertState} {state : SessionRevertState}
      {prompt : Option String} {hidden : ℕ} {visited : List ℕ}
      (h : resolveUndo turns current = some (.stage state prompt hidden))
      (rest : Undoes turns (some state) visited) :
      Undoes turns current (state.boundaryTurn :: visited)

/-- Redo again and again visits these boundaries, and then ends the revert. -/
inductive Redoes (turns : List DialogTurnData) : SessionRevertState → List ℕ → Prop
  | clear {s : SessionRevertState} (h : resolveRedo turns (some s) = some (.clear s)) :
      Redoes turns s []
  | step {s state : SessionRevertState} {prompt : Option String} {hidden : ℕ} {visited : List ℕ}
      (h : resolveRedo turns (some s) = some (.stage state prompt hidden))
      (rest : Redoes turns state visited) : Redoes turns s (state.boundaryTurn :: visited)

/-- Undo and redo as the inverse of each other, from a state or from none. -/
structure UndoRedo (turns : List DialogTurnData) (current : Option SessionRevertState) : Prop where
  boundary : ∀ s, current = some s → s.boundaryTurn ∈ userIndices turns
  /-- A redo takes back an undo. -/
  redo_undo : ∀ s state prompt hidden, current = some s →
    resolveUndo turns current = some (.stage state prompt hidden) →
      ∃ hidden', resolveRedo turns (some state) = some (.stage s none hidden')
  /-- The redo of the first undo ends the revert. -/
  redo_first_undo : ∀ state prompt hidden, current = none →
    resolveUndo turns current = some (.stage state prompt hidden) →
      resolveRedo turns (some state) = some (.clear state)
  /-- An undo takes back a redo. -/
  undo_redo : ∀ s state prompt hidden, current = some s →
    resolveRedo turns current = some (.stage state prompt hidden) →
      ∃ prompt' hidden', resolveUndo turns (some state) = some (.stage s prompt' hidden')
  /-- Undo visits the visible prompts, the last first. -/
  undoes : ∃ visited, Undoes turns current visited ∧ visited.Pairwise (· > ·) ∧
    ∀ i, i ∈ visited ↔ i ∈ userIndices turns ∧ ∀ s, current = some s → i < s.boundaryTurn
  /-- Redo visits the prompts behind the boundary, and ends. -/
  redoes : ∀ s, current = some s → ∃ visited, Redoes turns s visited ∧ visited.Pairwise (· < ·) ∧
    ∀ i, i ∈ visited ↔ i ∈ userIndices turns ∧ s.boundaryTurn < i
  /-- Every transition keeps the limit and the checkpoint, and counts what is hidden. -/
  keeps : ∀ request transition, resolve turns current request = some transition →
    Keeps turns current transition

/-- No turn is behind the limit of a revert. -/
theorem lt_originalTurnEnd (h : ∀ turn ∈ turns, turn.turnIndex < usizeMax) {i : ℕ}
    (hi : i ∈ userIndices turns) : i < originalTurnEnd turns := by
  obtain ⟨turn, hturn, -, rfl⟩ := hi
  have hmem : min (turn.turnIndex + 1) usizeMax ∈
      turns.map fun turn => min (turn.turnIndex + 1) usizeMax := mem_map.2 ⟨turn, hturn, rfl⟩
  rw [originalTurnEnd]
  cases hmax : (turns.map fun turn => min (turn.turnIndex + 1) usizeMax).max? with
  | none =>
    rw [max?_eq_none_iff.1 hmax] at hmem
    cases hmem
  | some m =>
    have hle := (max?_eq_some_iff.1 hmax).2 _ hmem
    have hlt := h turn hturn
    rw [Nat.min_eq_left hlt] at hle
    exact hle

theorem SessionRevertState.at_boundaryTurn (h : s.phase = .applying) (i : ℕ) :
    (s.at i).at s.boundaryTurn = s := by
  ext : 1
  · rfl
  · rfl
  · rfl
  · exact h.symm
  · rfl

/-- A prompt behind which the boundary is next is the one a redo goes to. -/
theorem resolveRedo_of_next (h : Staged turns s)
    (hlt : ∀ i ∈ userIndices turns, i < originalTurnEnd turns) {i : ℕ}
    (hgreatest : IsGreatest {k ∈ userIndices turns | k < s.boundaryTurn} i) :
    ∃ hidden, resolveRedo turns (some (s.at i)) = some (.stage s none hidden) := by
  rcases resolveRedo_cases turns (s.at i) with ⟨-, hnone⟩ | ⟨k, hleast, hstage⟩
  · -- the boundary is a prompt behind the undone one
    have hend := hlt s.boundaryTurn h.boundary
    rw [← h.originalTurnEnd] at hend
    have hle : s.boundaryTurn ≤ i := hnone s.boundaryTurn h.boundary hend
    exact absurd hgreatest.1.2 (Nat.not_lt.2 hle)
  · obtain rfl : k = s.boundaryTurn := by
      have hend := hlt s.boundaryTurn h.boundary
      rw [← h.originalTurnEnd] at hend
      have hle : k ≤ s.boundaryTurn := hleast.2 ⟨h.boundary, hgreatest.1.2, hend⟩
      refine Nat.le_antisymm hle (Nat.le_of_not_lt fun hless => ?_)
      have hback : k ≤ i := hgreatest.2 ⟨hleast.1.1, hless⟩
      exact absurd hleast.1.2.1 (Nat.not_lt.2 hback)
    rw [SessionRevertState.at_boundaryTurn h.phase] at hstage
    exact ⟨_, hstage⟩

/-- And the one before it is where an undo goes to. -/
theorem resolveUndo_of_next (h : Staged turns s) {i : ℕ}
    (hleast : IsLeast {k ∈ userIndices turns | s.boundaryTurn < k ∧ k < s.originalTurnEnd} i) :
    ∃ prompt hidden, resolveUndo turns (some (s.at i)) = some (.stage s prompt hidden) := by
  rcases resolveUndo_cases turns (some (s.at i)) with ⟨-, hnone⟩ | ⟨target, -, hgreatest, hstage⟩
  · have hle : i ≤ s.boundaryTurn := hnone s.boundaryTurn h.boundary
    exact absurd hleast.1.2.1 (Nat.not_lt.2 hle)
  · have hboundary : target.turnIndex = s.boundaryTurn := by
      have hle : s.boundaryTurn ≤ target.turnIndex := hgreatest.2 ⟨h.boundary, hleast.1.2.1⟩
      refine Nat.le_antisymm (Nat.le_of_not_lt fun hless => ?_) hle
      have hbefore : target.turnIndex < i := hgreatest.1.2
      have hback : i ≤ target.turnIndex :=
        hleast.2 ⟨hgreatest.1.1, hless, hbefore.trans hleast.1.2.2⟩
      exact absurd hbefore (Nat.not_lt.2 hback)
    change resolveUndo turns (some (s.at i)) = some (.stage ((s.at i).at target.turnIndex) _ _)
      at hstage
    rw [hboundary, SessionRevertState.at_boundaryTurn h.phase] at hstage
    exact ⟨_, _, hstage⟩

/-- Undo ends, as every undo moves the end of the visible turns to a smaller index. -/
theorem exists_undoes (turns : List DialogTurnData) (current : Option SessionRevertState) :
    ∃ visited, Undoes turns current visited ∧ visited.Pairwise (· > ·) ∧
      ∀ i, i ∈ visited ↔ i ∈ userIndices turns ∧ i < visibleEnd turns current := by
  induction hend : visibleEnd turns current using Nat.strong_induction_on generalizing current with
  | h n ih =>
    subst hend
    rcases resolveUndo_cases turns current with ⟨hnone, hall⟩ | ⟨target, -, hgreatest, hstage⟩
    · refine ⟨[], .done hnone, .nil, fun i => ?_⟩
      refine iff_of_false (fun h => by cases h) fun h => ?_
      exact absurd h.2 (Nat.not_lt.2 (hall i h.1))
    · obtain ⟨visited, hundoes, hpairwise, hmem⟩ := ih target.turnIndex hgreatest.1.2
        (some ((base turns current).at target.turnIndex)) rfl
      refine ⟨_, .step hstage hundoes, pairwise_cons.2 ⟨fun i hi => ((hmem i).1 hi).2,
        hpairwise⟩, fun i => ?_⟩
      rw [mem_cons, hmem]
      refine ⟨?_, fun h => ?_⟩
      · rintro (rfl | h)
        · exact hgreatest.1
        · exact ⟨h.1, h.2.trans hgreatest.1.2⟩
      · rcases Nat.lt_or_eq_of_le (hgreatest.2 h) with hlt | heq
        · exact .inr ⟨h.1, hlt⟩
        · exact .inl heq

/-- Redo ends, as every redo moves the boundary towards the limit. -/
theorem exists_redoes (turns : List DialogTurnData) (s : SessionRevertState) :
    ∃ visited, Redoes turns s visited ∧ visited.Pairwise (· < ·) ∧
      ∀ i, i ∈ visited ↔ i ∈ userIndices turns ∧ s.boundaryTurn < i ∧ i < s.originalTurnEnd := by
  induction hleft : s.originalTurnEnd - s.boundaryTurn using Nat.strong_induction_on
    generalizing s with
  | h n ih =>
    subst hleft
    rcases resolveRedo_cases turns s with ⟨hclear, hall⟩ | ⟨k, hleast, hstage⟩
    · refine ⟨[], .clear hclear, .nil, fun i => ?_⟩
      refine iff_of_false (fun h => by cases h) fun h => ?_
      exact absurd h.2.1 (Nat.not_lt.2 (hall i h.1 h.2.2))
    · have hbehind := hleast.1.2
      have hless : s.originalTurnEnd - k < s.originalTurnEnd - s.boundaryTurn := by omega
      obtain ⟨visited, hredoes, hpairwise, hmem⟩ := ih _ hless (s.at k) rfl
      refine ⟨_, .step hstage hredoes, pairwise_cons.2 ⟨fun i hi => ((hmem i).1 hi).2.1,
        hpairwise⟩, fun i => ?_⟩
      rw [mem_cons, hmem]
      refine ⟨?_, fun h => ?_⟩
      · rintro (rfl | h)
        · exact hleast.1
        · exact ⟨h.1, hbehind.1.trans h.2.1, h.2.2⟩
      · rcases Nat.lt_or_eq_of_le (hleast.2 h) with hlt | heq
        · exact .inr ⟨h.1, hlt, h.2.2⟩
        · exact .inl heq.symm

/-- Undo and redo are inverse in every state of a run, for turns in any order. -/
theorem undoRedo_of_run {tr : List (RevertRequest × SessionRevertTransition)}
    (hmax : ∀ turn ∈ turns, turn.turnIndex < usizeMax)
    (h : Run (Resolves turns) none tr current) : UndoRedo turns current := by
  have hstaged := staged_of_run h
  have hlt := fun i => @lt_originalTurnEnd turns hmax i
  refine ⟨fun s hs => (hstaged s hs).boundary, ?_, ?_, ?_, ?_, ?_, fun _ _ => keeps_of_resolve⟩
  · rintro s state prompt hidden rfl hundo
    rcases resolveUndo_cases turns (some s) with ⟨hnone, -⟩ | ⟨target, -, hgreatest, hstage⟩
    · cases hnone.symm.trans hundo
    · cases hstage.symm.trans hundo
      exact resolveRedo_of_next (hstaged s rfl) hlt hgreatest
  · rintro state prompt hidden rfl hundo
    rcases resolveUndo_cases turns none with ⟨hnone, -⟩ | ⟨target, -, hgreatest, hstage⟩
    · cases hnone.symm.trans hundo
    · cases hstage.symm.trans hundo
      -- behind the last prompt there is no other
      rcases resolveRedo_cases turns ((base turns none).at target.turnIndex) with
        ⟨hclear, -⟩ | ⟨k, hleast, -⟩
      · exact hclear
      · have hle := hgreatest.2 ⟨hleast.1.1, hlt k hleast.1.1⟩
        exact absurd hleast.1.2.1 (Nat.not_lt.2 hle)
  · rintro s state prompt hidden rfl hredo
    rcases resolveRedo_cases turns s with ⟨hclear, -⟩ | ⟨k, hleast, hstage⟩
    · cases hclear.symm.trans hredo
    · cases hstage.symm.trans hredo
      exact resolveUndo_of_next (hstaged s rfl) hleast
  · obtain ⟨visited, hundoes, hpairwise, hmem⟩ := exists_undoes turns current
    refine ⟨visited, hundoes, hpairwise, fun i => (hmem i).trans (and_congr_right fun hi => ?_)⟩
    cases current with
    | none => exact iff_of_true (hlt i hi) (by rintro s ⟨⟩)
    | some s =>
      refine ⟨?_, fun h => h s rfl⟩
      rintro hless _ ⟨⟩
      exact hless
  · intro s hs
    obtain ⟨visited, hredoes, hpairwise, hmem⟩ := exists_redoes turns s
    refine ⟨visited, hredoes, hpairwise, fun i => (hmem i).trans (and_congr_right fun hi => ?_)⟩
    rw [(hstaged s hs).originalTurnEnd]
    exact and_iff_left (hlt i hi)

/-- Two prompts with maintenance between them, in another order, after an undo. -/
theorem undoRedo_two_prompts : ∃ current,
    UndoRedo [⟨"turn-2", 2, .userDialog, ⟨"second", none⟩⟩,
      ⟨"turn-1", 1, .manualCompaction, ⟨"internal compact", none⟩⟩,
      ⟨"turn-0", 0, .userDialog, ⟨"first", none⟩⟩] (some current) ∧ current.boundaryTurn = 2 := by
  refine ⟨⟨1, 2, 3, .applying, []⟩, @undoRedo_of_run _ _ [_] ?_ (Run.single (show Resolves _ none
    (.undo, .stage ⟨1, 2, 3, .applying, []⟩ (some "second") 1) _ from ⟨?_, rfl⟩)), rfl⟩
  · decide
  · rfl

end SessionRevert

end OpenBitFun
