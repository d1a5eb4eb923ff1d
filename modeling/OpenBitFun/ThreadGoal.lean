import OpenBitFun.Saturating

/-!
# Thread goals

A session may work toward a goal over many turns. `ThreadGoalRuntime` keeps, for the turn that runs,
which goal its tokens count for and how many of them the goal has already been charged, and decides
after a turn whether the goal is continued by another one: a bounded number of times, and once more
to wrap up when the budget of tokens is spent. The goal itself is stored by the caller.
-/

namespace OpenBitFun

namespace ThreadGoals

/-! ## Machine integers -/

/-- A number of type `i64`. -/
structure I64 where
  val : ℤ
  lower : -2 ^ 63 ≤ val
  upper : val ≤ 2 ^ 63 - 1
deriving DecidableEq

namespace I64

/-- `i64::MAX`. -/
def maxValue : ℕ := 2 ^ 63 - 1

/-- The nearest number of type `i64`. -/
def saturate (z : ℤ) : I64 :=
  ⟨max (-2 ^ 63) (min z (2 ^ 63 - 1)), le_max_left _ _, max_le (by decide) (min_le_right _ _)⟩

/-- `saturating_add`. -/
def saturatingAdd (a b : I64) : I64 := saturate (a.val + b.val)

/-- `max(0)`. -/
def nonneg (a : I64) : I64 := saturate (max a.val 0)

/-- `as i64`, of a `usize`: from `2 ^ 63` on it wraps around to the negative numbers. -/
def ofUsize (n : ℕ) : I64 :=
  if h : n % 2 ^ 64 < 2 ^ 63 then ⟨(n % 2 ^ 64 : ℕ), by omega, by omega⟩
  else ⟨(n % 2 ^ 64 : ℕ) - 2 ^ 64, by omega, by omega⟩

/-- `i64::try_from(..).unwrap_or(i64::MAX)`, of a number of seconds. -/
def ofSeconds (n : ℕ) : I64 := saturate n

end I64

/-! ## Goals -/

/-- `ThreadGoalStatus`. -/
inductive ThreadGoalStatus
  | active
  | paused
  | blocked
  | usageLimited
  | budgetLimited
  | complete
deriving DecidableEq, Repr

/-- `ThreadGoal`. -/
structure ThreadGoal where
  goalId : String
  sessionId : String
  objective : String
  status : ThreadGoalStatus
  tokenBudget : Option I64
  tokensUsed : I64
  timeUsedSeconds : I64
  createdAt : I64
  updatedAt : I64
  autoContinuationCount : ℕ
deriving DecidableEq

/-- `is_active`: a goal whose budget is spent is still active. -/
def ThreadGoal.isActive (goal : ThreadGoal) : Bool :=
  match goal.status with
  | .active | .budgetLimited => true
  | _ => false

/-- `MAX_THREAD_GOAL_AUTO_CONTINUATIONS`. -/
def maxThreadGoalAutoContinuations : ℕ := 100

/-! ## The runtime's accounting -/

/-- `GoalTurnAccounting`. -/
structure GoalTurnAccounting where
  turnId : String
  baselineTokens : ℕ
  cumulativeBillable : ℕ
  activeGoalId : Option String
deriving DecidableEq

/-- `GoalWallClockAccounting`. An instant is a number of nanoseconds. -/
structure GoalWallClockAccounting where
  lastAccountedAt : ℕ
  activeGoalId : Option String
deriving DecidableEq

namespace GoalWallClockAccounting

/-- `time_delta_seconds`, at an instant. -/
def timeDeltaSeconds (clock : GoalWallClockAccounting) (now : ℕ) : I64 :=
  .ofSeconds ((now - clock.lastAccountedAt) / 10 ^ 9)

/-- `mark_accounted`. -/
def markAccounted (clock : GoalWallClockAccounting) (accountedSeconds : I64) :
    GoalWallClockAccounting :=
  if accountedSeconds.val ≤ 0 then clock
  else { clock with
    lastAccountedAt := clock.lastAccountedAt + accountedSeconds.val.toNat * 10 ^ 9 }

/-- `mark_active_goal`, at an instant. -/
def markActiveGoal (clock : GoalWallClockAccounting) (goalId : String) (now : ℕ) :
    GoalWallClockAccounting :=
  if clock.activeGoalId = some goalId then clock else ⟨now, some goalId⟩

/-- `clear_active_goal`, at an instant. -/
def clearActiveGoal (_ : GoalWallClockAccounting) (now : ℕ) : GoalWallClockAccounting :=
  ⟨now, none⟩

end GoalWallClockAccounting

/-- `ThreadGoalRuntime`. -/
structure ThreadGoalRuntime where
  turn : Option GoalTurnAccounting
  wallClock : GoalWallClockAccounting
  budgetLimitReportedGoalId : Option String
deriving DecidableEq

/-- When a call is made: the instant it reads, and its `now_epoch_seconds`. -/
structure Clock where
  instant : ℕ
  epochSeconds : I64

namespace ThreadGoalRuntime

/-- `new`. -/
def new (now : ℕ) : ThreadGoalRuntime := ⟨none, ⟨now, none⟩, none⟩

/-- Whether a turn is the turn of an id and counts for a goal. -/
def countsFor (runtime : ThreadGoalRuntime) (turnId goalId : String) : Bool :=
  runtime.turn.any fun turn => turn.turnId = turnId ∧ turn.activeGoalId = some goalId

/-- `mark_turn_started`. Repeated steering toward the same active goal is not a new turn. -/
def markTurnStarted (runtime : ThreadGoalRuntime) (turnId : String) (goal : Option ThreadGoal)
    (now : ℕ) : ThreadGoalRuntime :=
  match goal.filter ThreadGoal.isActive with
  | some goal =>
    if runtime.countsFor turnId goal.goalId then
      { runtime with wallClock := runtime.wallClock.markActiveGoal goal.goalId now }
    else
      { runtime with
        turn := some ⟨turnId, 0, 0, some goal.goalId⟩
        wallClock := runtime.wallClock.markActiveGoal goal.goalId now }
  | none =>
    { runtime with
      turn := some ⟨turnId, 0, 0, none⟩
      wallClock := runtime.wallClock.clearActiveGoal now }

/-- `record_round_billable_tokens`. -/
def recordRoundBillableTokens (runtime : ThreadGoalRuntime) (turnId : String) (billable : ℕ) :
    ThreadGoalRuntime :=
  if billable = 0 then runtime
  else
    match runtime.turn with
    | none => runtime
    | some turn =>
      if turn.turnId ≠ turnId ∨ turn.activeGoalId = none then runtime
      else
        { runtime with turn := some { turn with
            cumulativeBillable := Saturating.add (2 ^ 64 - 1) turn.cumulativeBillable billable } }

/-- `clear_active_goal`. -/
def clearActiveGoal (runtime : ThreadGoalRuntime) (turnId : Option String) (now : ℕ) :
    ThreadGoalRuntime :=
  if turnId.any fun expected => runtime.turn.all fun turn => turn.turnId ≠ expected then runtime
  else
    { runtime with
      turn := runtime.turn.map fun turn => { turn with activeGoalId := none }
      wallClock := runtime.wallClock.clearActiveGoal now }

/-- `apply_budget_status`. -/
def applyBudgetStatus (goal : ThreadGoal) : ThreadGoal × Bool :=
  match goal.tokenBudget with
  | some budget =>
    if budget.val ≤ goal.tokensUsed.val ∧ goal.status = .active then
      ({ goal with status := .budgetLimited }, true)
    else (goal, false)
  | none => (goal, false)

/-- The end of `account_turn_tokens`, for the tokens and the time that are new. -/
def charge (goal : ThreadGoal) (delta timeDelta : I64) (now : I64) : ThreadGoal × Bool :=
  applyBudgetStatus { goal with
    tokensUsed := goal.tokensUsed.saturatingAdd delta.nonneg
    timeUsedSeconds := goal.timeUsedSeconds.saturatingAdd timeDelta
    updatedAt := now }

/-- `account_turn_tokens`: the runtime, the goal, and whether the budget has now been reached. -/
def accountTurnTokens (runtime : ThreadGoalRuntime) (turnId : String) (turnTokens : ℕ)
    (goal : ThreadGoal) (clock : Clock) : ThreadGoalRuntime × ThreadGoal × Bool :=
  match runtime.turn with
  | none => (runtime, goal, false)
  | some turn =>
    if turn.turnId ≠ turnId ∨ turn.activeGoalId ≠ some goal.goalId then (runtime, goal, false)
    else
      let delta := I64.ofUsize (turnTokens - turn.baselineTokens)
      let counted := { runtime with turn := some { turn with baselineTokens := turnTokens } }
      let timeDelta := runtime.wallClock.timeDeltaSeconds clock.instant
      if delta.val ≤ 0 ∧ timeDelta.val ≤ 0 then (counted, goal, false)
      else
        ({ counted with wallClock := counted.wallClock.markAccounted timeDelta },
          charge goal delta timeDelta clock.epochSeconds)

/-- `mark_budget_limit_reported`. -/
def markBudgetLimitReported (runtime : ThreadGoalRuntime) (goalId : String) :
    ThreadGoalRuntime × Bool :=
  if runtime.budgetLimitReportedGoalId = some goalId then (runtime, false)
  else ({ runtime with budgetLimitReportedGoalId := some goalId }, true)

end ThreadGoalRuntime

/-- `ThreadGoalContinuationFacts`. -/
structure ThreadGoalContinuationFacts where
  turnId : String
  turnTokens : ℕ
  turnCompleted : Bool

/-- `ThreadGoalContinuationOutcome`, for plans of some type. -/
structure ThreadGoalContinuationOutcome (Plan : Type*) where
  goalToPersist : Option ThreadGoal
  plan : Option Plan
  reachedAutoContinuationLimit : Bool
  scheduledAutoContinuation : Bool

namespace ThreadGoalRuntime

variable {Plan : Type*} (buildPlan : ThreadGoal → Plan)

/-- `continuation_after_turn`, once the turn is accounted and completed. -/
def continuationOf (runtime : ThreadGoalRuntime) (goal : ThreadGoal) (now : I64) :
    ThreadGoalRuntime × ThreadGoalContinuationOutcome Plan :=
  if goal.status = .budgetLimited then
    match runtime.markBudgetLimitReported goal.goalId with
    | (runtime, true) => (runtime, ⟨some goal, some (buildPlan goal), false, false⟩)
    | (runtime, false) => (runtime, ⟨some goal, none, false, false⟩)
  else if !goal.isActive then (runtime, ⟨some goal, none, false, false⟩)
  else if maxThreadGoalAutoContinuations ≤ goal.autoContinuationCount then
    if goal.status = .active then
      (runtime, ⟨some { goal with status := .blocked, updatedAt := now }, none, true, false⟩)
    else (runtime, ⟨none, none, false, false⟩)
  else
    let goal := { goal with
      autoContinuationCount := Saturating.add (2 ^ 32 - 1) goal.autoContinuationCount 1
      updatedAt := now }
    (runtime, ⟨some goal, some (buildPlan goal), false, true⟩)

/-- `continuation_after_turn`. -/
def continuationAfterTurn (runtime : ThreadGoalRuntime) (goal : ThreadGoal)
    (facts : ThreadGoalContinuationFacts) (clock : Clock) :
    ThreadGoalRuntime × ThreadGoalContinuationOutcome Plan :=
  let (runtime, goal, _) :=
    runtime.accountTurnTokens facts.turnId facts.turnTokens goal clock
  if !facts.turnCompleted then (runtime, ⟨some goal, none, false, false⟩)
  else continuationOf buildPlan runtime goal clock.epochSeconds

end ThreadGoalRuntime

end ThreadGoals

end OpenBitFun
