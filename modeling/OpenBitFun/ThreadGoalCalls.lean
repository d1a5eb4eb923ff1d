import Mathlib
import OpenBitFun.ThreadGoal

/-!
# What the runtime of thread goals does in one call

One lemma for each function of the runtime that a run uses: a call is accounted when its turn counts
for the goal, and then charges what is new (`accountTurnTokens_of_counts`); a continuation stores
the goal, counts what it schedules and marks a budget that was reported
(`continuationAfterTurn_continues`).
-/

namespace OpenBitFun

namespace ThreadGoals

variable {Plan : Type*} {buildPlan : ThreadGoal → Plan}

namespace I64

theorem ofUsize_val {n : ℕ} (h : n ≤ maxValue) : (ofUsize n).val = n := by
  unfold maxValue at h
  have hmod : n % 2 ^ 64 = n := Nat.mod_eq_of_lt (by omega)
  unfold ofUsize
  rw [dif_pos (by omega)]
  exact congrArg Nat.cast hmod

/-- Adding what is not negative saturates upwards only. -/
theorem saturatingAdd_nonneg (a b : I64) :
    (a.saturatingAdd b.nonneg).val = min (maxValue : ℤ) (a.val + max b.val 0) := by
  have ha := a.lower
  have hb := b.upper
  simp only [saturatingAdd, nonneg, saturate, maxValue]
  omega

end I64

/-- What accounting changes of a goal: its tokens, its time, and its status where the budget has
been reached. -/
structure Charged (goal goal' : ThreadGoal) : Prop where
  goalId : goal'.goalId = goal.goalId
  autoContinuationCount : goal'.autoContinuationCount = goal.autoContinuationCount
  tokenBudget : goal'.tokenBudget = goal.tokenBudget
  status : goal'.status = goal.status ∨ goal.status = .active ∧ goal'.status = .budgetLimited

theorem Charged.refl (goal : ThreadGoal) : Charged goal goal := ⟨rfl, rfl, rfl, .inl rfl⟩

namespace ThreadGoalRuntime

variable {runtime : ThreadGoalRuntime} {goal : ThreadGoal} {turnId : String} {turnTokens : ℕ}

theorem charge_charged (goal : ThreadGoal) (delta timeDelta now : I64) :
    Charged goal (charge goal delta timeDelta now).1 := by
  unfold charge applyBudgetStatus
  split
  · split
    · rename_i hreached
      exact ⟨rfl, rfl, rfl, .inr ⟨hreached.2, rfl⟩⟩
    · exact ⟨rfl, rfl, rfl, .inl rfl⟩
  · exact ⟨rfl, rfl, rfl, .inl rfl⟩

theorem charge_tokensUsed (goal : ThreadGoal) (delta timeDelta now : I64) :
    (charge goal delta timeDelta now).1.tokensUsed =
      goal.tokensUsed.saturatingAdd delta.nonneg := by
  unfold charge applyBudgetStatus
  split
  · split <;> rfl
  · rfl

/-- A goal whose tokens have reached the budget is not left active. -/
theorem charge_budget {budget : I64} (hbudget : goal.tokenBudget = some budget)
    (delta timeDelta now : I64)
    (hreached : budget.val ≤ (charge goal delta timeDelta now).1.tokensUsed.val) :
    (charge goal delta timeDelta now).1.status ≠ .active := by
  rw [charge_tokensUsed] at hreached
  unfold charge applyBudgetStatus
  simp only [hbudget, hreached, true_and]
  split
  · exact ThreadGoalStatus.noConfusion
  · rename_i hactive
    exact hactive

/-- A call for another turn, or for a goal that is not the turn's, is not accounted. -/
theorem accountTurnTokens_of_not (h : runtime.countsFor turnId goal.goalId = false)
    (turnTokens : ℕ) (clock : Clock) :
    runtime.accountTurnTokens turnId turnTokens goal clock = (runtime, goal, false) := by
  unfold accountTurnTokens
  unfold countsFor at h
  cases hturn : runtime.turn with
  | none => rfl
  | some turn =>
    simp only [hturn, Option.any_some, decide_eq_false_iff_not, not_and_or] at h
    exact if_pos h

/-- A call that counts moves the turn's baseline, and charges what is new. -/
structure Accounts (runtime : ThreadGoalRuntime) (goal : ThreadGoal) (turnTokens : ℕ)
    (turn : GoalTurnAccounting) (result : ThreadGoalRuntime × ThreadGoal × Bool) : Prop where
  turn_eq : result.1.turn = some { turn with baselineTokens := turnTokens }
  budgetLimitReportedGoalId :
    result.1.budgetLimitReportedGoalId = runtime.budgetLimitReportedGoalId
  charged : Charged goal result.2.1
  tokensUsed : turn.baselineTokens ≤ turnTokens → turnTokens ≤ I64.maxValue →
    result.2.1.tokensUsed.val = min (I64.maxValue : ℤ)
      (goal.tokensUsed.val + (turnTokens - turn.baselineTokens))
  budget : turn.baselineTokens < turnTokens → turnTokens ≤ I64.maxValue →
    ∀ budget, goal.tokenBudget = some budget → budget.val ≤ result.2.1.tokensUsed.val →
      result.2.1.status ≠ .active

theorem accountTurnTokens_of_counts (h : runtime.countsFor turnId goal.goalId)
    (turnTokens : ℕ) (clock : Clock) :
    ∃ turn, runtime.turn = some turn ∧ turn.activeGoalId = some goal.goalId ∧
      Accounts runtime goal turnTokens turn
        (runtime.accountTurnTokens turnId turnTokens goal clock) := by
  unfold accountTurnTokens
  unfold countsFor at h
  cases hturn : runtime.turn with
  | none => simp [hturn] at h
  | some turn =>
    simp only [hturn, Option.any_some, decide_eq_true_eq] at h
    have hcounts : ¬(turn.turnId ≠ turnId ∨ turn.activeGoalId ≠ some goal.goalId) := by
      rintro (hne | hne)
      · exact hne h.1
      · exact hne h.2
    refine ⟨turn, rfl, h.2, ?_⟩
    simp only [if_neg hcounts]
    -- What is new, while the values reported fit.
    have hdelta : turnTokens ≤ I64.maxValue →
        (I64.ofUsize (turnTokens - turn.baselineTokens)).val =
          (turnTokens - turn.baselineTokens : ℕ) :=
      fun hmax => I64.ofUsize_val ((Nat.sub_le _ _).trans hmax)
    split
    · rename_i hnothing
      refine ⟨rfl, rfl, .refl goal, fun hle hmax => ?_, fun hlt hmax => ?_⟩
      · have hupper := goal.tokensUsed.upper
        rw [hdelta hmax] at hnothing
        show goal.tokensUsed.val = _
        unfold I64.maxValue
        omega
      · rw [hdelta hmax] at hnothing
        omega
    · refine ⟨rfl, rfl, charge_charged _ _ _ _, fun hle hmax => ?_,
        fun hlt hmax budget hbudget => ?_⟩
      · simp only [charge_tokensUsed, I64.saturatingAdd_nonneg, hdelta hmax]
        omega
      · exact charge_budget hbudget _ _ _

/-- Counted or not, accounting leaves the mark of the budget alone. -/
theorem accountTurnTokens_charged (runtime : ThreadGoalRuntime) (turnId : String)
    (turnTokens : ℕ) (goal : ThreadGoal) (clock : Clock) :
    let result := runtime.accountTurnTokens turnId turnTokens goal clock
    Charged goal result.2.1 ∧
      result.1.budgetLimitReportedGoalId = runtime.budgetLimitReportedGoalId := by
  intro result
  cases h : runtime.countsFor turnId goal.goalId with
  | false =>
    have hresult : result = (runtime, goal, false) := accountTurnTokens_of_not h turnTokens clock
    rw [hresult]
    exact ⟨.refl goal, rfl⟩
  | true =>
    obtain ⟨turn, -, -, haccounts⟩ := accountTurnTokens_of_counts h turnTokens clock
    exact ⟨haccounts.charged, haccounts.budgetLimitReportedGoalId⟩

/-- What `continuation_after_turn` does once the turn is accounted: it stores the goal, which keeps
its tokens, and it counts the continuations it schedules, or reports the budget for the first time.
-/
structure Continues (runtime : ThreadGoalRuntime) (goal : ThreadGoal)
    (result : ThreadGoalRuntime × ThreadGoalContinuationOutcome Plan) : Prop where
  turn : result.1.turn = runtime.turn
  stored : ∃ goal', result.2.goalToPersist = some goal' ∧ goal'.goalId = goal.goalId ∧
    goal'.tokensUsed = goal.tokensUsed ∧
    (goal.status ≠ .active → goal'.status = goal.status) ∧
    (result.2.scheduledAutoContinuation = true →
      goal.autoContinuationCount < maxThreadGoalAutoContinuations ∧
        goal'.autoContinuationCount = goal.autoContinuationCount + 1) ∧
    (result.2.scheduledAutoContinuation = false →
      goal'.autoContinuationCount = goal.autoContinuationCount)
  reported : result.2.plan.isSome → result.2.scheduledAutoContinuation = false →
    runtime.budgetLimitReportedGoalId ≠ some goal.goalId ∧
      result.1.budgetLimitReportedGoalId = some goal.goalId
  keeps : runtime.budgetLimitReportedGoalId = some goal.goalId →
    result.1.budgetLimitReportedGoalId = some goal.goalId

/-- A continuation that only stores the goal. -/
theorem Continues.of_stored (goal goal' : ThreadGoal) (hid : goal'.goalId = goal.goalId)
    (htokens : goal'.tokensUsed = goal.tokensUsed)
    (hstatus : goal.status ≠ .active → goal'.status = goal.status)
    (hcount : goal'.autoContinuationCount = goal.autoContinuationCount) (limit : Bool) :
    Continues runtime goal
      (runtime, (⟨some goal', none, limit, false⟩ : ThreadGoalContinuationOutcome Plan)) where
  turn := rfl
  stored := ⟨goal', rfl, hid, htokens, hstatus, nofun, fun _ => hcount⟩
  reported := nofun
  keeps := id

theorem continuationOf_continues (runtime : ThreadGoalRuntime) (goal : ThreadGoal) (now : I64) :
    Continues runtime goal (continuationOf buildPlan runtime goal now) := by
  unfold continuationOf
  by_cases hlimited : goal.status = .budgetLimited
  · rw [if_pos hlimited]
    unfold markBudgetLimitReported
    by_cases hreported : runtime.budgetLimitReportedGoalId = some goal.goalId
    · simp only [if_pos hreported]
      exact .of_stored goal _ rfl rfl (fun _ => rfl) rfl false
    · simp only [if_neg hreported]
      exact {
        turn := rfl
        stored := ⟨goal, rfl, rfl, rfl, fun _ => rfl, nofun, fun _ => rfl⟩
        reported := fun _ _ => ⟨hreported, rfl⟩
        keeps := fun _ => rfl }
  rw [if_neg hlimited]
  by_cases hstopped : (!goal.isActive) = true
  · rw [if_pos hstopped]
    exact .of_stored goal _ rfl rfl (fun _ => rfl) rfl false
  rw [if_neg hstopped]
  have hactive : goal.status = .active := by
    unfold ThreadGoal.isActive at hstopped
    cases hstatus : goal.status <;> simp_all
  by_cases hcount : maxThreadGoalAutoContinuations ≤ goal.autoContinuationCount
  · rw [if_pos hcount, if_pos hactive]
    exact .of_stored goal { goal with status := .blocked, updatedAt := now } rfl rfl
      (absurd hactive) rfl true
  · rw [if_neg hcount]
    have hexact : Saturating.add (2 ^ 32 - 1) goal.autoContinuationCount 1 =
        goal.autoContinuationCount + 1 := by
      unfold maxThreadGoalAutoContinuations at hcount
      unfold Saturating.add
      omega
    exact {
      turn := rfl
      stored :=
        ⟨_, rfl, rfl, rfl, absurd hactive, fun _ => ⟨Nat.not_le.1 hcount, hexact⟩, nofun⟩
      reported := fun _ => nofun
      keeps := id }

/-- The turn after a turn was marked as started: the one that runs, if this is steering, or a new
one that has not been charged for anything. -/
theorem markTurnStarted_turn (runtime : ThreadGoalRuntime) (turnId : String)
    (goal : Option ThreadGoal) (now : ℕ) :
    (runtime.markTurnStarted turnId goal now).turn =
      if goal.any fun goal => goal.isActive && runtime.countsFor turnId goal.goalId then
        runtime.turn
      else some ⟨turnId, 0, 0, (goal.filter ThreadGoal.isActive).map ThreadGoal.goalId⟩ := by
  unfold markTurnStarted
  cases goal with
  | none => rfl
  | some goal =>
    by_cases hactive : goal.isActive
    · by_cases hcounts : runtime.countsFor turnId goal.goalId
      · simp [Option.filter, hactive, hcounts]
      · simp [Option.filter, hactive, hcounts]
    · simp [Option.filter, hactive]

theorem markTurnStarted_reported (runtime : ThreadGoalRuntime) (turnId : String)
    (goal : Option ThreadGoal) (now : ℕ) :
    (runtime.markTurnStarted turnId goal now).budgetLimitReportedGoalId =
      runtime.budgetLimitReportedGoalId := by
  unfold markTurnStarted
  split
  · split <;> rfl
  · rfl

theorem recordRoundBillableTokens_reported (runtime : ThreadGoalRuntime) (turnId : String)
    (billable : ℕ) :
    (runtime.recordRoundBillableTokens turnId billable).budgetLimitReportedGoalId =
      runtime.budgetLimitReportedGoalId := by
  unfold recordRoundBillableTokens
  split
  · rfl
  · split
    · rfl
    · split <;> rfl

theorem clearActiveGoal_reported (runtime : ThreadGoalRuntime) (turnId : Option String)
    (now : ℕ) :
    (runtime.clearActiveGoal turnId now).budgetLimitReportedGoalId =
      runtime.budgetLimitReportedGoalId := by
  unfold clearActiveGoal
  split <;> rfl

/-- Recording the tokens of a round leaves the baseline and the active goal alone. -/
theorem recordRoundBillableTokens_turn {turn' : GoalTurnAccounting} (turnId : String)
    (billable : ℕ)
    (h : (runtime.recordRoundBillableTokens turnId billable).turn = some turn') :
    ∃ turn, runtime.turn = some turn ∧ turn.activeGoalId = turn'.activeGoalId ∧
      turn.baselineTokens = turn'.baselineTokens := by
  unfold recordRoundBillableTokens at h
  split at h
  · exact ⟨turn', h, rfl, rfl⟩
  · cases hturn : runtime.turn with
    | none =>
      simp only [hturn] at h
      exact absurd h nofun
    | some turn =>
      simp only [hturn] at h
      split at h
      · exact ⟨turn', hturn.symm.trans h, rfl, rfl⟩
      · obtain rfl := Option.some.inj h
        exact ⟨turn, rfl, rfl, rfl⟩

/-- Clearing the active goal leaves the turn alone, or leaves it without a goal. -/
theorem clearActiveGoal_turn {turn' : GoalTurnAccounting} (turnId : Option String) (now : ℕ)
    (h : (runtime.clearActiveGoal turnId now).turn = some turn') :
    runtime.turn = some turn' ∨ turn'.activeGoalId = none := by
  unfold clearActiveGoal at h
  split at h
  · exact .inl h
  · obtain ⟨turn, -, rfl⟩ := Option.map_eq_some_iff.1 h
    exact .inr rfl

theorem continuationAfterTurn_continues (buildPlan : ThreadGoal → Plan)
    (runtime : ThreadGoalRuntime) (goal : ThreadGoal) (facts : ThreadGoalContinuationFacts)
    (clock : Clock) :
    let accounted := runtime.accountTurnTokens facts.turnId facts.turnTokens goal clock
    Continues accounted.1 accounted.2.1
      (runtime.continuationAfterTurn buildPlan goal facts clock) := by
  intro accounted
  unfold continuationAfterTurn
  by_cases hcompleted : (!facts.turnCompleted) = true
  · simp only [if_pos hcompleted]
    exact .of_stored _ _ rfl rfl (fun _ => rfl) rfl false
  · simp only [if_neg hcompleted]
    exact continuationOf_continues _ _ _

end ThreadGoalRuntime

end ThreadGoals

end OpenBitFun
