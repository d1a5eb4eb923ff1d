import OpenBitFun.DeepReviewLedger
import OpenBitFun.Run

/-!
# Deep Review, all turns together

Reviewers of many turns call the tracker at the same time. A call locks the record of its turn; a
pruning that is due comes before it and locks the records part by part. A run is any interleaving
of these steps and of drops of guards. In a run in which no call touches a turn whose record was
pruned while it was in use, the turn stays within its budgets (`budgets_hold_unless_pruned`). A
reviewer that works for more than an hour without any call for its turn loses the record, and the
turn starts again with all its budgets (`packet_active_twice`).
-/

namespace OpenBitFun

open List

namespace DeepReview

variable {ρ : Type}

/-- A call, and the guards that lived when it was made. -/
structure Entry (ρ : Type) where
  /-- The turn. -/
  turn : String
  /-- The operation. -/
  operation : Operation ρ
  /-- Its answer. -/
  answer : Answer
  /-- The guards alive before it. -/
  guards : Guards

/-- What was charged to a turn. -/
def ledgerOf (turn : String) (history : List (Entry ρ)) : Ledger :=
  history.filterMap fun entry =>
    if entry.turn = turn then entry.operation.charge entry.answer else none

/-- The guards of a turn. -/
def Guards.of (turn : String) (guards : Guards) : Guards :=
  guards.filter fun guard => decide (guard.parentDialogTurnId = turn)

/-- The tracker, and what happens around it. -/
structure World (ρ : Type) where
  /-- The tracker. -/
  tracker : DeepReviewBudgetTracker ρ
  /-- The times of the prunings under way. -/
  pruning : List ℕ
  /-- The guards that are alive. -/
  guards : Guards
  /-- The calls so far, the newest first. -/
  history : List (Entry ρ)

/-- What can happen. -/
inductive Action (ρ : Type) where
  /-- A call works on the record of its turn. -/
  | call (turn : String) (operation : Operation ρ) (now : ℕ)
  /-- A guard is dropped. -/
  | drop (guard : DeepReviewActiveReviewerGuard) (now : ℕ)
  /-- A call finds that pruning is due. -/
  | startPruning (now : ℕ)
  /-- It prunes a part of the records. -/
  | retain (now : ℕ) (shard : String → Bool)
  /-- It has pruned all. -/
  | finishPruning (now : ℕ)

namespace World

variable (w : World ρ)

/-- The tracker at its start. -/
def new (now : ℕ) : World ρ := ⟨.new now, [], [], []⟩

/-- What can happen now. -/
def enabled : Action ρ → Bool
  | .call .. => true
  | .drop guard _ => decide (guard ∈ w.guards)
  | .startPruning now => w.tracker.pruningDue now
  | .retain now _ | .finishPruning now => decide (now ∈ w.pruning)

/-- What it does. -/
def perform [Inhabited ρ] (policy : DeepReviewExecutionPolicy) : Action ρ → World ρ
  | .call turn operation now =>
    let outcome := w.tracker.onTurn policy turn operation now
    { w with
      tracker := outcome.2
      guards := outcome.1.guard.toList ++ w.guards
      history := ⟨turn, operation, outcome.1, w.guards⟩ :: w.history }
  | .drop guard now =>
    { w with tracker := w.tracker.drop guard now, guards := w.guards.erase guard }
  | .startPruning now => { w with pruning := now :: w.pruning }
  | .retain now shard => { w with tracker := w.tracker.retain now shard }
  | .finishPruning now =>
    { w with
      tracker := { w.tracker with lastPrunedAt := now }
      pruning := w.pruning.erase now }

/-- One step. -/
def Step [Inhabited ρ] (policy : DeepReviewExecutionPolicy) (w : World ρ) (action : Action ρ)
    (w' : World ρ) : Prop :=
  w.enabled action = true ∧ w' = w.perform policy action

/-- What was charged to a turn. -/
def ledger (turn : String) : Ledger := ledgerOf turn w.history

/-- The guards of a turn that are alive. -/
def alive (turn : String) : Guards := w.guards.of turn

/-- **The budgets of a turn** hold. -/
structure BudgetsHold (policy : DeepReviewExecutionPolicy) (turn : String) (w : World ρ) :
    Prop where
  /-- the charges stay within the budgets -/
  ledger : Within policy (w.ledger turn)
  /-- a guard is handed out only while fewer than the bound are alive -/
  starts : ∀ entry ∈ w.history, entry.turn = turn → ∀ guard ∈ entry.answer.guard,
    ∀ maxActive ∈ entry.operation.maxActive, (entry.guards.of turn).length < maxActive
  /-- no packet has two living guards -/
  packets : (w.alive turn).packets.Nodup
  /-- a page is repeated for a reviewer only if it was charged -/
  repeats : ∀ entry older, entry :: older <:+ w.history → entry.turn = turn →
    ∀ page ∈ entry.operation.repeated entry.answer, page ∈ (ledgerOf turn older).returned

/-- A call that touches the turn finds its record, unless nothing was charged to the turn and none
of its guards is alive. -/
def Steady (turn : String) : Action ρ → Prop
  | .call turn' operation _ => turn' = turn → operation.answerBlank turn = none →
    w.tracker.turns.lookup turn = none → w.ledger turn = [] ∧ w.alive turn = []
  | _ => True

/-- The invariant: the budgets of the turn hold, and its record, if there is one, is synced. -/
structure Inv (policy : DeepReviewExecutionPolicy) (turn : String) (w : World ρ) : Prop where
  holds : w.BudgetsHold policy turn
  synced : ∀ budget, w.tracker.turns.lookup turn = some budget →
    Synced budget (w.ledger turn) (w.alive turn)

variable {w} {policy : DeepReviewExecutionPolicy} {turn : String}

theorem inv_new (now : ℕ) : (new now : World ρ).Inv policy turn where
  holds := ⟨within_nil, fun _ h => absurd h not_mem_nil, nodup_nil,
    fun _ _ h => absurd (suffix_nil.mp h) (cons_ne_nil _ _)⟩
  synced _ h := (nomatch h)

/-! ## Calls -/

theorem ledgerOf_cons (turn : String) (entry : Entry ρ) (history : List (Entry ρ)) :
    ledgerOf turn (entry :: history) =
      (if entry.turn = turn then entry.operation.charge entry.answer else none).toList ++
        ledgerOf turn history := by
  rw [ledgerOf, filterMap_cons]
  cases (if entry.turn = turn then entry.operation.charge entry.answer else none) <;> rfl

theorem of_append {guard : Option DeepReviewActiveReviewerGuard} {turn' : String}
    (hturn : ∀ guard' ∈ guard, guard'.parentDialogTurnId = turn') (turn : String)
    (guards : Guards) :
    Guards.of turn (guard.toList ++ guards) =
      (if turn' = turn then guard.toList else []) ++ guards.of turn := by
  cases guard with
  | none =>
    rw [Option.toList_none, ite_self]
    rfl
  | some guard =>
    rw [← hturn guard rfl, Option.toList_some, Guards.of, Guards.of, filter_append,
      filter_singleton]
    split_ifs with hsame
    · rw [decide_eq_true hsame]
      rfl
    · rw [decide_eq_false hsame]
      rfl

/-- A call with a blank argument does nothing. -/
theorem of_answerBlank {operation : Operation ρ} {answer : Answer}
    (h : operation.answerBlank turn = some answer) :
    operation.charge answer = none ∧ answer.guard = none ∧ operation.repeated answer = none ∧
      ∀ violation, answer ≠ .refused violation := by
  cases operation with
  | recordReviewDiffPage reviewerId pageKey returnedChars =>
    rw [Operation.answerBlank] at h
    split_ifs at h
    cases h
    exact ⟨rfl, rfl, rfl, nofun⟩
  | admitReviewProviderDiffAcquisition =>
    rw [Operation.answerBlank] at h
    split_ifs at h
    cases h
    exact ⟨rfl, rfl, rfl, nofun⟩
  | recordConcurrencyCapRejection =>
    rw [Operation.answerBlank] at h
    split_ifs at h
    cases h
    exact ⟨rfl, rfl, rfl, nofun⟩
  | recordCapacitySkip update =>
    rw [Operation.answerBlank] at h
    split_ifs at h
    cases h
    exact ⟨rfl, rfl, rfl, nofun⟩
  | measure prunes update =>
    rw [Operation.answerBlank] at h
    split_ifs at h
    cases h
    exact ⟨rfl, rfl, rfl, nofun⟩
  | recordTaskForPacketWithFocus => cases h
  | recordReviewDiffLimitation => cases h
  | recordReviewTargetStale => cases h
  | beginActiveReviewer => cases h
  | tryBeginActiveReviewer => cases h
  | tryBeginActiveReviewerForLaunchBatch => cases h

/-- Entries after a call: those before, and the call. -/
theorem BudgetsHold.cons (h : w.BudgetsHold policy turn) (entry : Entry ρ)
    (hguards : entry.guards = w.guards) {tracker : DeepReviewBudgetTracker ρ}
    (hcharge : entry.turn = turn → ∀ charge ∈ entry.operation.charge entry.answer,
      Admits policy (w.ledger turn) charge)
    (hactive : entry.turn = turn → ∀ guard ∈ entry.answer.guard,
      ∀ maxActive ∈ entry.operation.maxActive, (w.alive turn).length < maxActive)
    (hturn : ∀ guard ∈ entry.answer.guard, guard.parentDialogTurnId = entry.turn)
    (hpacket : entry.turn = turn → ∀ guard ∈ entry.answer.guard,
      ∀ packet ∈ guard.packetId, packet ∉ (w.alive turn).packets)
    (hrepeated : entry.turn = turn → ∀ page ∈ entry.operation.repeated entry.answer,
      page ∈ (w.ledger turn).returned) :
    BudgetsHold policy turn { w with
      tracker := tracker
      guards := entry.answer.guard.toList ++ w.guards
      history := entry :: w.history } := by
  refine ⟨?_, fun entry' hmem hsame guard hguard maxActive hmax => ?_, ?_,
    fun entry' older hsuffix hsame page hpage => ?_⟩
  · change Within policy (ledgerOf turn (entry :: w.history))
    rw [ledgerOf_cons]
    split_ifs with hsame
    · cases hof : entry.operation.charge entry.answer with
      | none => exact h.ledger
      | some charge => exact h.ledger.cons (hcharge hsame charge hof)
    · exact h.ledger
  · rcases mem_cons.mp hmem with rfl | hold
    · rw [hguards]
      exact hactive hsame guard hguard maxActive hmax
    · exact h.starts entry' hold hsame guard hguard maxActive hmax
  · change (Guards.of turn (entry.answer.guard.toList ++ w.guards)).packets.Nodup
    rw [of_append hturn]
    split_ifs with hsame
    · cases hof : entry.answer.guard with
      | none => exact h.packets
      | some guard =>
        change (List.filterMap _ (guard :: w.alive turn)).Nodup
        cases hp : guard.packetId with
        | none =>
          rw [filterMap_cons_none hp]
          exact h.packets
        | some packet =>
          rw [filterMap_cons_some hp]
          exact nodup_cons.mpr ⟨hpacket hsame guard hof packet hp, h.packets⟩
    · exact h.packets
  · rcases suffix_cons_iff.mp hsuffix with heq | hold
    · obtain ⟨hhead, htail⟩ := List.cons.inj heq
      rw [hhead] at hsame hpage
      rw [htail]
      exact hrepeated hsame page hpage
    · exact h.repeats entry' older hold hsame page hpage

variable [Inhabited ρ]

/-- **A call** that finds the record of its turn keeps the invariant. -/
theorem Inv.call (h : w.Inv policy turn) {turn' : String} {operation : Operation ρ} {now : ℕ}
    (hsteady : w.Steady turn (.call turn' operation now)) :
    (w.perform policy (.call turn' operation now)).Inv policy turn := by
  rw [perform, DeepReviewBudgetTracker.onTurn]
  cases hblank : operation.answerBlank turn' with
  | some answer =>
    obtain ⟨hcharge, hguard, hrepeated, -⟩ := World.of_answerBlank hblank
    refine ⟨h.holds.cons ⟨turn', operation, answer, w.guards⟩ rfl ?_ ?_ ?_ ?_ ?_,
      fun budget hlookup => ?_⟩
    · rw [hcharge]
      nofun
    · rw [hguard]
      nofun
    · rw [hguard]
      nofun
    · rw [hguard]
      nofun
    · rw [hrepeated]
      nofun
    · have hsynced := h.synced budget hlookup
      change Synced budget (ledgerOf turn _) (Guards.of turn _)
      rw [ledgerOf_cons, hcharge, hguard, ite_self]
      exact hsynced
  | none =>
    by_cases hsame : turn' = turn
    · subst hsame
      have hsynced : Synced ((w.tracker.turns.lookup turn').getD (.new now)) (w.ledger turn')
          (w.alive turn') := by
        cases hlookup : w.tracker.turns.lookup turn' with
        | some budget => exact h.synced budget hlookup
        | none =>
          obtain ⟨hledger, halive⟩ := hsteady rfl hblank hlookup
          rw [hledger, halive]
          exact synced_new now
      have hrefines : Refines policy _ _ operation _ := hsynced.onRecord turn' operation now
      refine ⟨h.holds.cons ⟨turn', operation, _, w.guards⟩ rfl (fun _ => hrefines.admits)
        (fun _ => hrefines.active) (fun guard => turn_of_onRecord) (fun _ => hrefines.packet)
        fun _ => hrefines.repeated, fun budget hlookup => ?_⟩
      rw [AssocMap.lookup_insert, if_pos rfl, Option.some_inj] at hlookup
      subst hlookup
      change Synced _ (ledgerOf turn' _) (Guards.of turn' _)
      rw [ledgerOf_cons, if_pos rfl, of_append fun _ => turn_of_onRecord, if_pos rfl]
      exact hrefines.synced
    · refine ⟨h.holds.cons ⟨turn', operation, _, w.guards⟩ rfl (fun heq => absurd heq hsame)
        (fun heq => absurd heq hsame) (fun guard => turn_of_onRecord) (fun heq => absurd heq hsame)
        fun heq => absurd heq hsame, fun budget hlookup => ?_⟩
      rw [AssocMap.lookup_insert, if_neg (Ne.symm hsame)] at hlookup
      change Synced _ (ledgerOf turn _) (Guards.of turn _)
      rw [ledgerOf_cons, if_neg hsame, of_append fun _ => turn_of_onRecord, if_neg hsame]
      exact h.synced budget hlookup

/-! ## Drops and prunings -/

omit [Inhabited ρ] in
/-- The budgets hold as long as no call is made and no guard is added. -/
theorem BudgetsHold.mono (h : w.BudgetsHold policy turn) {w' : World ρ}
    (hhistory : w'.history = w.history) (hguards : w'.guards.Sublist w.guards) :
    w'.BudgetsHold policy turn := by
  refine ⟨?_, ?_, h.packets.sublist ((hguards.filter _).filterMap _), ?_⟩
  · rw [World.ledger, hhistory]
    exact h.ledger
  · rw [hhistory]
    exact h.starts
  · rw [hhistory]
    exact h.repeats

/-- **The drop of a guard** keeps the invariant. -/
theorem Inv.drop (h : w.Inv policy turn) {guard : DeepReviewActiveReviewerGuard}
    (hmem : guard ∈ w.guards) (now : ℕ) : (w.perform policy (.drop guard now)).Inv policy turn := by
  refine ⟨h.holds.mono rfl erase_sublist, fun budget hlookup => ?_⟩
  have halive : (w.guards.erase guard).filter (fun g => decide (g.parentDialogTurnId = turn)) =
      (w.alive turn).erase guard := erase_filter.symm
  change Synced budget (w.ledger turn) ((w.guards.erase guard).filter _)
  change (w.tracker.turns.modify _ _).lookup turn = _ at hlookup
  rw [AssocMap.lookup_modify] at hlookup
  rw [halive]
  split_ifs at hlookup with hsame
  · obtain ⟨old, hold, rfl⟩ := Option.map_eq_some_iff.mp hlookup
    rw [← hsame] at hold
    exact (h.synced old hold).finishActiveReviewer h.holds.packets
      (mem_filter.mpr ⟨hmem, decide_eq_true hsame.symm⟩) now
  · have hnot : guard ∉ w.alive turn := fun hmem' =>
      hsame (of_decide_eq_true (mem_filter.mp hmem').2).symm
    rw [erase_of_not_mem hnot]
    exact h.synced budget hlookup

/-- **Pruning** keeps the invariant: it may drop the record, and leaves it as it is otherwise. -/
theorem Inv.retain (h : w.Inv policy turn) (now : ℕ) (shard : String → Bool) :
    (w.perform policy (.retain now shard)).Inv policy turn := by
  refine ⟨h.holds.mono rfl (List.Sublist.refl _), fun budget hlookup => h.synced budget ?_⟩
  change (w.tracker.turns.retainEntries _).lookup turn = _ at hlookup
  rw [AssocMap.lookup_retainEntries] at hlookup
  exact (Option.filter_eq_some_iff.mp hlookup).1

/-- **The step lemma.** -/
theorem Inv.step (h : w.Inv policy turn) {action : Action ρ} {w' : World ρ}
    (hsteady : w.Steady turn action) (hstep : Step policy w action w') : w'.Inv policy turn := by
  obtain ⟨henabled, rfl⟩ := hstep
  cases action with
  | call turn' operation now => exact h.call hsteady
  | drop guard now => exact h.drop (of_decide_eq_true henabled) now
  | startPruning now => exact ⟨h.holds.mono rfl (List.Sublist.refl _), h.synced⟩
  | retain now shard => exact h.retain now shard
  | finishPruning now => exact ⟨h.holds.mono rfl (List.Sublist.refl _), h.synced⟩

theorem Inv.run (h : w.Inv policy turn) {actions : List (Action ρ)} {w' : World ρ}
    (hrun : Run (fun w action w' => w.Steady turn action ∧ Step policy w action w') w actions w') :
    w'.Inv policy turn :=
  hrun.invariant h fun _ _ _ h hstep => h.step hstep.1 hstep.2

end World

/-- An operation leaves the records of other turns alone. -/
theorem lookup_onTurn_of_ne [Inhabited ρ] (policy : DeepReviewExecutionPolicy)
    (s : DeepReviewBudgetTracker ρ) {turn turn' : String} (operation : Operation ρ) (now : ℕ)
    (hne : turn' ≠ turn) :
    (s.onTurn policy turn operation now).2.turns.lookup turn' = s.turns.lookup turn' := by
  rw [DeepReviewBudgetTracker.onTurn]
  cases operation.answerBlank turn with
  | some answer => rfl
  | none => exact (AssocMap.lookup_insert _ _ _ _).trans (if_neg hne)

/-- A refused operation does not change the record it works on. -/
theorem onRecord_of_refused {policy : DeepReviewExecutionPolicy} {turn : String}
    {budget : DeepReviewTurnBudget ρ} {operation : Operation ρ} {now : ℕ}
    {violation : DeepReviewPolicyViolation}
    (hrefused : (operation.onRecord policy turn budget now).1 = .refused violation) :
    (operation.onRecord policy turn budget now).2 = budget := by
  cases operation with
  | recordTaskForPacketWithFocus role subagentType isRetry packetId focusedClaim =>
    rw [Operation.onRecord] at hrefused ⊢
    split at hrefused
    · rfl
    · cases hrefused
  | recordReviewDiffPage => cases hrefused
  | admitReviewProviderDiffAcquisition => cases hrefused
  | recordReviewDiffLimitation => cases hrefused
  | recordReviewTargetStale => cases hrefused
  | recordConcurrencyCapRejection => cases hrefused
  | recordCapacitySkip => cases hrefused
  | measure => cases hrefused
  | beginActiveReviewer => cases hrefused
  | tryBeginActiveReviewer maxActiveReviewers =>
    rw [Operation.onRecord] at hrefused
    split_ifs at hrefused
  | tryBeginActiveReviewerForLaunchBatch maxActiveReviewers launchBatch packetId =>
    rw [Operation.onRecord] at hrefused ⊢
    split at hrefused
    · rfl
    · cases hrefused
    · cases hrefused

/-- An operation that is refused leaves the record as it was. -/
theorem lookup_onTurn_of_refused [Inhabited ρ] (policy : DeepReviewExecutionPolicy)
    (s : DeepReviewBudgetTracker ρ) {turn : String} {operation : Operation ρ} {now : ℕ}
    {violation : DeepReviewPolicyViolation}
    (hrefused : (s.onTurn policy turn operation now).1 = .refused violation) :
    (s.onTurn policy turn operation now).2.turns.lookup turn =
      some ((s.turns.lookup turn).getD (.new now)) := by
  rw [DeepReviewBudgetTracker.onTurn] at hrefused ⊢
  cases hblank : operation.answerBlank turn with
  | some answer =>
    rw [hblank] at hrefused
    exact absurd hrefused ((World.of_answerBlank hblank).2.2.2 violation)
  | none =>
    rw [hblank] at hrefused
    refine (AssocMap.lookup_insert _ _ _ _).trans ((if_pos rfl).trans (congrArg some ?_))
    exact onRecord_of_refused hrefused

/-- **The budgets of a turn** hold in every run in which no call touches the turn after its record
was pruned while it was in use; operations on other turns and refused operations change nothing. -/
theorem budgets_hold_unless_pruned [Inhabited ρ] (policy : DeepReviewExecutionPolicy) :
    (∀ turn now actions (w : World ρ),
      Run (fun w action w' => w.Steady turn action ∧ World.Step policy w action w') (.new now)
        actions w → w.BudgetsHold policy turn) ∧
    (∀ (s : DeepReviewBudgetTracker ρ) turn turn' operation now, turn' ≠ turn →
      (s.onTurn policy turn operation now).2.turns.lookup turn' = s.turns.lookup turn') ∧
    ∀ (s : DeepReviewBudgetTracker ρ) turn operation now violation,
      (s.onTurn policy turn operation now).1 = .refused violation →
      (s.onTurn policy turn operation now).2.turns.lookup turn =
        some ((s.turns.lookup turn).getD (.new now)) :=
  ⟨fun _ now _ _ hrun => ((World.inv_new now).run hrun).holds,
    fun s _ _ operation now hne => lookup_onTurn_of_ne policy s operation now hne,
    fun s _ _ _ _ hrefused => lookup_onTurn_of_refused policy s hrefused⟩

/-! ## Scripts -/

namespace World

instance (w : World ρ) (turn : String) : (action : Action ρ) → Decidable (w.Steady turn action)
  | .call _ _ _ => inferInstanceAs (Decidable (_ → _ → _ → _ ∧ _))
  | .drop _ _ | .startPruning _ | .retain _ _ | .finishPruning _ => inferInstanceAs (Decidable True)

variable [Inhabited ρ] (policy : DeepReviewExecutionPolicy)

/-- Does one thing after the other. -/
def performAll (w : World ρ) : List (Action ρ) → World ρ
  | [] => w
  | action :: actions => (w.perform policy action).performAll actions

/-- The test whether each of them passes a test when its turn comes. -/
def passes (test : World ρ → Action ρ → Bool) (w : World ρ) : List (Action ρ) → Bool
  | [] => true
  | action :: actions => test w action && (w.perform policy action).passes test actions

theorem run_performAll {R : World ρ → Action ρ → World ρ → Prop} (test : World ρ → Action ρ → Bool)
    (htest : ∀ w action, test w action = true → R w action (w.perform policy action)) {w : World ρ}
    {script : List (Action ρ)} (h : w.passes policy test script = true) :
    Run R w script (w.performAll policy script) := by
  induction script generalizing w with
  | nil => exact .refl
  | cons action script ih =>
    rw [passes, Bool.and_eq_true] at h
    exact (ih h.2).cons (htest _ _ h.1)

end World

/-- While a turn works on, the record of another one is pruned. -/
def prunedNeighbour : List (Action Unit) :=
  [.call "turn" (.recordTaskForPacketWithFocus .reviewer "worker" false (some "packet") none) 0,
    .call "turn" (.tryBeginActiveReviewerForLaunchBatch 1 7 (some "packet")) 0,
    .call "turn" (.recordTaskForPacketWithFocus .reviewer "worker" true none none) 1,
    .call "other" (.recordReviewDiffPage "worker" "page" 100) 2,
    .call "turn" (.recordReviewDiffPage "worker" "page" 100) 3000000000000,
    .startPruning 3700000000000, .retain 3700000000000 fun _ => true,
    .finishPruning 3700000000000,
    .drop ⟨"turn", some 7, some "packet"⟩ 3700000000000,
    .call "turn" (.tryBeginActiveReviewer 1) 3700000000000]

/-- The budgets of the turn that works on. -/
theorem budgets_hold_beside_pruning :
    ((World.new 0).performAll ⟨2, 1, false⟩ prunedNeighbour).BudgetsHold ⟨2, 1, false⟩ "turn" :=
  (budgets_hold_unless_pruned ⟨2, 1, false⟩).1 "turn" 0 prunedNeighbour _
    (World.run_performAll ⟨2, 1, false⟩
      (fun w action => decide (w.Steady "turn" action) && w.enabled action)
      (fun _ _ h => ⟨of_decide_eq_true (Bool.and_eq_true_iff.mp h).1,
        (Bool.and_eq_true_iff.mp h).2, rfl⟩) (by decide +kernel))

/-- A reviewer works on a packet for more than an hour; another turn prunes the record, and the
packet is launched again. -/
def prunedAtWork : List (Action Unit) :=
  [.call "turn" (.tryBeginActiveReviewerForLaunchBatch 1 1 (some "packet")) 0,
    .startPruning 3601000000000, .retain 3601000000000 fun _ => true,
    .finishPruning 3601000000000,
    .call "other" (.recordTaskForPacketWithFocus .reviewer "worker" false none none) 3601000000000,
    .call "turn" (.tryBeginActiveReviewerForLaunchBatch 1 1 (some "packet")) 3602000000000]

/-- **A packet is active twice**, and more reviewers than the bound are at work. -/
theorem packet_active_twice :
    ¬∀ policy now actions (w : World Unit), Run (World.Step policy) (.new now) actions w →
      ∀ turn, w.BudgetsHold policy turn := by
  intro hall
  have hrun : Run (World.Step ⟨2, 1, false⟩) (.new 0) prunedAtWork
      ((World.new 0).performAll ⟨2, 1, false⟩ prunedAtWork) :=
    World.run_performAll ⟨2, 1, false⟩ World.enabled (fun _ _ h => ⟨h, rfl⟩)
      (by decide +kernel)
  have hpackets := (hall _ _ _ _ hrun "turn").packets
  exact absurd hpackets (by decide +kernel)

end DeepReview

end OpenBitFun
