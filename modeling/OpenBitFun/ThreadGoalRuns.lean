import Mathlib
import OpenBitFun.ThreadGoalCalls

/-!
# Runs over one goal

What the runtime of thread goals does with one goal over a whole run: turns start, report their
tokens as often as they like and in any mixture with continuations, the goal is cleared, stopped or
edited in between. A ghost field keeps, for each turn, the last value it reported while the goal was
its active goal. The goal is charged the sum of these, and without a change by the user it is
continued a bounded number of times and wrapped up once (`charges_and_continues`).
-/

namespace OpenBitFun

open List

namespace ThreadGoals

variable {Plan : Type*} {buildPlan : ThreadGoal → Plan}

/-! ## Runs -/

/-- What is called, or happens to the stored goal, in a run over one goal. -/
inductive Call
  | markTurnStarted (turnId : String) (withGoal : Bool)
  | recordRoundBillableTokens (turnId : String) (billable : ℕ)
  | clearActiveGoal (turnId : Option String)
  | accountTurnTokens (turnId : String) (turnTokens : ℕ)
  | continuationAfterTurn (facts : ThreadGoalContinuationFacts)
  /-- The agent or the host stops the goal. -/
  | stop (status : ThreadGoalStatus)
  /-- The user edits the goal. -/
  | edit (goal : ThreadGoal)

/-- A run so far: the runtime, the stored goal, what each turn last reported for the goal (the
latest turn first), and what the continuations came to. -/
structure RunState (Plan : Type*) where
  runtime : ThreadGoalRuntime
  goal : ThreadGoal
  turns : List ℕ
  outcomes : List (ThreadGoalContinuationOutcome Plan)

namespace RunState

/-- The value a call reports while the goal is the active goal of the turn. -/
def reported (s : RunState Plan) : Call → Option ℕ
  | .accountTurnTokens turnId turnTokens =>
    if s.runtime.countsFor turnId s.goal.goalId then some turnTokens else none
  | .continuationAfterTurn facts =>
    if s.runtime.countsFor facts.turnId s.goal.goalId then some facts.turnTokens else none
  | _ => none

/-- Whether starting a turn is only repeated steering of the one that runs. -/
def steers (s : RunState Plan) (turnId : String) (withGoal : Bool) : Bool :=
  withGoal && s.goal.isActive && s.runtime.countsFor turnId s.goal.goalId

/-- What the turns have reported after a call. -/
def turnsAfter (s : RunState Plan) (call : Call) : List ℕ :=
  match call with
  | .markTurnStarted turnId withGoal => if s.steers turnId withGoal then s.turns else 0 :: s.turns
  | call => ((s.reported call).elim s.turns fun turnTokens => turnTokens :: s.turns.tail)

/-- One call. -/
def step (buildPlan : ThreadGoal → Plan) (s : RunState Plan) (clock : Clock) (call : Call) :
    RunState Plan :=
  let s' := { s with turns := s.turnsAfter call }
  match call with
  | .markTurnStarted turnId withGoal =>
    let goal := if withGoal then some s.goal else none
    { s' with runtime := s.runtime.markTurnStarted turnId goal clock.instant }
  | .recordRoundBillableTokens turnId billable =>
    { s' with runtime := s.runtime.recordRoundBillableTokens turnId billable }
  | .clearActiveGoal turnId =>
    { s' with runtime := s.runtime.clearActiveGoal turnId clock.instant }
  | .accountTurnTokens turnId turnTokens =>
    let result := s.runtime.accountTurnTokens turnId turnTokens s.goal clock
    { s' with runtime := result.1, goal := result.2.1 }
  | .continuationAfterTurn facts =>
    let result := s.runtime.continuationAfterTurn buildPlan s.goal facts clock
    { s' with
      runtime := result.1
      goal := result.2.goalToPersist.getD s.goal
      outcomes := s.outcomes ++ [result.2] }
  | .stop status => { s' with goal := { s.goal with status := status } }
  | .edit goal => { s' with goal := goal }

/-- Calls of a run: a turn's tokens are cumulative, the goal is stopped by a status other than
active, and an edit is one of the same goal and leaves its tokens alone. -/
def Allowed (s : RunState Plan) : Call → Prop
  | .stop status => status ≠ .active
  | .edit goal => goal.goalId = s.goal.goalId ∧ goal.tokensUsed = s.goal.tokensUsed
  | call => ∀ turnTokens ∈ s.reported call, ∀ last ∈ s.turns.head?, last ≤ turnTokens

/-- The states a run of calls comes through. -/
inductive Run (buildPlan : ThreadGoal → Plan) (s₀ : RunState Plan) :
    List Call → RunState Plan → Prop
  | nil : Run buildPlan s₀ [] s₀
  | snoc {calls s} (clock : Clock) (call : Call) (h : Run buildPlan s₀ calls s)
      (hallowed : s.Allowed call) : Run buildPlan s₀ (calls ++ [call]) (s.step buildPlan clock call)

end RunState

/-! ## The tokens of a run -/

namespace RunState

open ThreadGoalRuntime

variable {s : RunState Plan} {call : Call} {turnTokens : ℕ}

/-- The goal a call that reports tokens leaves is as the accounting leaves it, but for an active
goal that a continuation counts or blocks. -/
structure Leaves (accounted : ThreadGoalRuntime × ThreadGoal × Bool) (s' : RunState Plan) :
    Prop where
  turn : s'.runtime.turn = accounted.1.turn
  goalId : s'.goal.goalId = accounted.2.1.goalId
  tokensUsed : s'.goal.tokensUsed = accounted.2.1.tokensUsed
  status : accounted.2.1.status ≠ .active → s'.goal.status = accounted.2.1.status

theorem step_leaves (buildPlan : ThreadGoal → Plan) (clock : Clock)
    (h : s.reported call = some turnTokens) :
    ∃ turnId, s.runtime.countsFor turnId s.goal.goalId = true ∧
      Leaves (s.runtime.accountTurnTokens turnId turnTokens s.goal clock)
        (s.step buildPlan clock call) := by
  cases call with
  | accountTurnTokens turnId tokens =>
    obtain ⟨hcounts, htokens⟩ := Option.ite_none_right_eq_some.1 h
    obtain rfl := Option.some.inj htokens
    exact ⟨turnId, hcounts, rfl, rfl, rfl, fun _ => rfl⟩
  | continuationAfterTurn facts =>
    obtain ⟨hcounts, hreported⟩ := Option.ite_none_right_eq_some.1 h
    obtain rfl := Option.some.inj hreported
    obtain ⟨hturn, ⟨goal', hstored, hid, htokens, hstatus, -⟩, -⟩ :=
      continuationAfterTurn_continues buildPlan s.runtime s.goal facts clock
    refine ⟨facts.turnId, hcounts, hturn, ?_, ?_, ?_⟩
    all_goals simp only [step, hstored, Option.getD_some]
    · exact hid
    · exact htokens
    · exact hstatus
  | _ => exact absurd h nofun

/-- A call that reports tokens for the goal: the turn's baseline moves to them, and the goal is
charged what is new. -/
theorem step_reported (buildPlan : ThreadGoal → Plan) (clock : Clock)
    (h : s.reported call = some turnTokens) :
    let s' := s.step buildPlan clock call
    s'.goal.goalId = s.goal.goalId ∧
      ∃ turn, s.runtime.turn = some turn ∧ turn.activeGoalId = some s.goal.goalId ∧
        s'.runtime.turn = some { turn with baselineTokens := turnTokens } ∧
        (turn.baselineTokens ≤ turnTokens → turnTokens ≤ I64.maxValue →
          s'.goal.tokensUsed.val = min (I64.maxValue : ℤ)
            (s.goal.tokensUsed.val + (turnTokens - turn.baselineTokens))) ∧
        (turn.baselineTokens < turnTokens → turnTokens ≤ I64.maxValue →
          s.goal.status = .active → ∀ budget, s.goal.tokenBudget = some budget →
            budget.val ≤ s'.goal.tokensUsed.val → s'.goal.status = .budgetLimited) := by
  intro s'
  obtain ⟨turnId, hcounts, hleaves⟩ := step_leaves buildPlan clock h
  obtain ⟨turn, hturn, hactive, haccounts⟩ := accountTurnTokens_of_counts hcounts turnTokens clock
  have htokens : s'.goal.tokensUsed = _ := hleaves.tokensUsed
  refine ⟨hleaves.goalId.trans haccounts.charged.goalId, turn, hturn, hactive,
    hleaves.turn.trans haccounts.turn_eq, fun hle hmax => ?_,
    fun hlt hmax hstatus budget hbudget hreached => ?_⟩
  · rw [htokens]
    exact haccounts.tokensUsed hle hmax
  · rw [htokens] at hreached
    have hnot := haccounts.budget hlt hmax budget hbudget hreached
    have hlimited := haccounts.charged.status.resolve_left fun hsame => hnot (hsame.trans hstatus)
    exact (hleaves.status hnot).trans hlimited.2

/-- Any other call leaves the tokens of the goal alone, and a turn that counts for the goal
afterwards is the one that did before, or a new one that has not reported anything. -/
theorem step_unreported (buildPlan : ThreadGoal → Plan) (clock : Clock)
    (hallowed : s.Allowed call) (h : s.reported call = none) :
    let s' := s.step buildPlan clock call
    s'.goal.goalId = s.goal.goalId ∧ s'.goal.tokensUsed = s.goal.tokensUsed ∧
      (s'.turns = s.turns ∨ s'.turns = 0 :: s.turns) ∧
      ∀ turn', s'.runtime.turn = some turn' → turn'.activeGoalId = some s.goal.goalId →
        s'.turns = s.turns ∧ (∃ turn, s.runtime.turn = some turn ∧
          turn.activeGoalId = some s.goal.goalId ∧ turn'.baselineTokens = turn.baselineTokens) ∨
        s'.turns = 0 :: s.turns ∧ turn'.baselineTokens = 0 := by
  intro s'
  have hsame : ∀ turn', s.runtime.turn = some turn' → turn'.activeGoalId = some s.goal.goalId →
      s'.turns = s.turns → s'.turns = s.turns ∧ (∃ turn, s.runtime.turn = some turn ∧
        turn.activeGoalId = some s.goal.goalId ∧ turn'.baselineTokens = turn.baselineTokens) :=
    fun turn' hturn hactive hturns => ⟨hturns, turn', hturn, hactive, rfl⟩
  cases call with
  | markTurnStarted turnId withGoal =>
    have hturn : s'.runtime.turn = _ := markTurnStarted_turn s.runtime turnId _ clock.instant
    have hsteers : ((if withGoal then some s.goal else none).any fun goal =>
        goal.isActive && s.runtime.countsFor turnId goal.goalId) = s.steers turnId withGoal := by
      unfold steers
      cases withGoal <;> rfl
    rw [hsteers] at hturn
    by_cases hsteer : s.steers turnId withGoal
    · have hturns : s'.turns = s.turns := if_pos hsteer
      rw [if_pos hsteer] at hturn
      refine ⟨rfl, rfl, .inl hturns, fun turn' hturn' hactive => .inl ?_⟩
      exact hsame turn' (hturn.symm.trans hturn') hactive hturns
    · have hturns : s'.turns = 0 :: s.turns := if_neg hsteer
      rw [if_neg hsteer] at hturn
      refine ⟨rfl, rfl, .inr hturns, fun turn' hturn' hactive => .inr ⟨hturns, ?_⟩⟩
      obtain rfl := Option.some.inj (hturn.symm.trans hturn')
      rfl
  | recordRoundBillableTokens turnId billable =>
    refine ⟨rfl, rfl, .inl rfl, fun turn' hturn' hactive => .inl ⟨rfl, ?_⟩⟩
    obtain ⟨turn, hturn, hgoal, hbaseline⟩ :=
      recordRoundBillableTokens_turn turnId billable hturn'
    exact ⟨turn, hturn, hgoal.trans hactive, hbaseline.symm⟩
  | clearActiveGoal turnId =>
    refine ⟨rfl, rfl, .inl rfl, fun turn' hturn' hactive => .inl ?_⟩
    obtain hturn | hnone := clearActiveGoal_turn turnId clock.instant hturn'
    · exact hsame turn' hturn hactive rfl
    · rw [hnone] at hactive
      exact absurd hactive nofun
  | accountTurnTokens turnId tokens =>
    have hturns : s'.turns = s.turns := by
      simp only [s', step, turnsAfter, h, Option.elim_none]
    have hnot : s.runtime.countsFor turnId s.goal.goalId = false := by
      simpa [reported] using h
    have hresult := accountTurnTokens_of_not hnot tokens clock
    have hgoal : s'.goal = s.goal := congrArg (·.2.1) hresult
    have hruntime : s'.runtime = s.runtime := congrArg (·.1) hresult
    rw [hgoal, hruntime]
    refine ⟨rfl, rfl, .inl hturns, fun turn' hturn hactive => .inl ?_⟩
    exact hsame turn' hturn hactive hturns
  | continuationAfterTurn facts =>
    have hturns : s'.turns = s.turns := by
      simp only [s', step, turnsAfter, h, Option.elim_none]
    have hnot : s.runtime.countsFor facts.turnId s.goal.goalId = false := by
      simpa [reported] using h
    have hcontinues :=
      continuationAfterTurn_continues buildPlan s.runtime s.goal facts clock
    simp only [accountTurnTokens_of_not hnot] at hcontinues
    obtain ⟨hturn, ⟨goal', hstored, hid, htokens, -⟩, -⟩ := hcontinues
    have hgoal : s'.goal = goal' := by
      simp only [s', step, hstored, Option.getD_some]
    rw [hgoal]
    refine ⟨hid, htokens, .inl hturns, fun turn' hturn' hactive => .inl ?_⟩
    exact hsame turn' (hturn.symm.trans hturn') hactive hturns
  | stop status =>
    exact ⟨rfl, rfl, .inl rfl, fun turn' hturn hactive => .inl (hsame turn' hturn hactive rfl)⟩
  | edit goal =>
    exact ⟨hallowed.1, hallowed.2, .inl rfl,
      fun turn' hturn hactive => .inl (hsame turn' hturn hactive rfl)⟩

/-- What is true of a run over a goal: the turn that counts for it has the baseline it last
reported, and the goal has been charged for what every turn last reported. -/
structure Tracks (goal₀ : ThreadGoal) (s : RunState Plan) : Prop where
  goalId : s.goal.goalId = goal₀.goalId
  baseline : ∀ turn, s.runtime.turn = some turn → turn.activeGoalId = some goal₀.goalId →
    s.turns.head? = some turn.baselineTokens
  tokensUsed : (∀ turnTokens ∈ s.turns, turnTokens ≤ I64.maxValue) →
    s.goal.tokensUsed.val = min (I64.maxValue : ℤ) (goal₀.tokensUsed.val + s.turns.sum)

theorem turns_step (clock : Clock) : (s.step buildPlan clock call).turns = s.turnsAfter call := by
  cases call <;> rfl

theorem turnsAfter_reported (h : s.reported call = some turnTokens) :
    s.turnsAfter call = turnTokens :: s.turns.tail := by
  cases call with
  | markTurnStarted turnId withGoal => exact absurd h nofun
  | _ => simp only [turnsAfter, h, Option.elim_some]

theorem Allowed.le (hallowed : s.Allowed call) (h : s.reported call = some turnTokens) {last : ℕ}
    (hlast : s.turns.head? = some last) : last ≤ turnTokens := by
  cases call with
  | stop status => exact absurd h nofun
  | edit goal => exact absurd h nofun
  | _ => exact hallowed turnTokens h last hlast

theorem Tracks.step {goal₀ : ThreadGoal} (htracks : Tracks goal₀ s) (clock : Clock)
    (hallowed : s.Allowed call) : Tracks goal₀ (s.step buildPlan clock call) := by
  cases hreported : s.reported call with
  | some turnTokens =>
    obtain ⟨hid, turn, hturn, hactive, hturn', htokens, -⟩ :=
      step_reported buildPlan clock hreported
    rw [htracks.goalId] at hactive
    have hhead := htracks.baseline turn hturn hactive
    have hle := hallowed.le hreported hhead
    have hturns : (s.step buildPlan clock call).turns = turnTokens :: s.turns.tail :=
      (turns_step clock).trans (turnsAfter_reported hreported)
    obtain ⟨rest, hrest⟩ : ∃ rest, s.turns = turn.baselineTokens :: rest := by
      cases hlist : s.turns with
      | nil => simp [hlist] at hhead
      | cons last rest => exact ⟨rest, by simpa [hlist] using hhead⟩
    rw [hrest, tail_cons] at hturns
    refine ⟨hid.trans htracks.goalId, fun turn' h hgoal => ?_, fun hmax => ?_⟩
    · obtain rfl := Option.some.inj (hturn'.symm.trans h)
      rw [hturns]
      rfl
    · rw [hturns] at hmax ⊢
      obtain ⟨hmax, hrestMax⟩ := forall_mem_cons.1 hmax
      have hbefore := htracks.tokensUsed (by
        rw [hrest]
        exact forall_mem_cons.2 ⟨hle.trans hmax, hrestMax⟩)
      rw [htokens hle hmax, hbefore, hrest, sum_cons, sum_cons]
      push_cast
      omega
  | none =>
    obtain ⟨hid, htokens, hturns, hturn⟩ := step_unreported buildPlan clock hallowed hreported
    refine ⟨hid.trans htracks.goalId, fun turn' h hactive => ?_, fun hmax => ?_⟩
    · rw [← htracks.goalId] at hactive
      obtain ⟨hsame, turn, hbefore, hactive', hbaseline⟩ | ⟨hnew, hbaseline⟩ :=
        hturn turn' h hactive
      · rw [htracks.goalId] at hactive'
        rw [hsame, hbaseline]
        exact htracks.baseline turn hbefore hactive'
      · rw [hnew, hbaseline]
        rfl
    · rw [htokens]
      obtain hsame | hnew := hturns
      · rw [hsame] at hmax ⊢
        exact htracks.tokensUsed hmax
      · rw [hnew] at hmax ⊢
        rw [sum_cons, Nat.zero_add]
        exact htracks.tokensUsed fun v hv => hmax v (mem_cons_of_mem _ hv)

/-- A run starts with a runtime whose turn, if there is one, does not count for the goal yet. -/
def initial (Plan : Type*) (runtime : ThreadGoalRuntime) (goal : ThreadGoal) : RunState Plan :=
  ⟨runtime, goal, [], []⟩

theorem tracks_of_run {runtime₀ : ThreadGoalRuntime} {goal₀ : ThreadGoal} {calls : List Call}
    (hfresh : ∀ turn, runtime₀.turn = some turn → turn.activeGoalId ≠ some goal₀.goalId)
    (hrun : Run buildPlan (initial Plan runtime₀ goal₀) calls s) : Tracks goal₀ s := by
  induction hrun with
  | nil =>
    refine ⟨rfl, fun turn hturn hactive => absurd hactive (hfresh turn hturn), fun _ => ?_⟩
    have hupper := goal₀.tokensUsed.upper
    simp only [initial, sum_nil, I64.maxValue]
    omega
  | snoc clock call _ hallowed ih => exact ih.step clock hallowed

/-! ## The continuations of a run -/

/-- A continuation with a plan that is not counted: the budget is to be wrapped up. -/
def isWrapUp (outcome : ThreadGoalContinuationOutcome Plan) : Bool :=
  outcome.plan.isSome && !outcome.scheduledAutoContinuation

/-- What is true of a run without a change by the user: the goal counts the continuations that were
scheduled, up to the limit, and a budget that was wrapped up is marked as reported. -/
structure Counts (goal₀ : ThreadGoal) (s : RunState Plan) : Prop where
  goalId : s.goal.goalId = goal₀.goalId
  scheduled : s.outcomes.countP ThreadGoalContinuationOutcome.scheduledAutoContinuation +
    goal₀.autoContinuationCount = s.goal.autoContinuationCount
  limit : s.goal.autoContinuationCount ≤
    max goal₀.autoContinuationCount maxThreadGoalAutoContinuations
  wrapUps : s.outcomes.countP isWrapUp = 0 ∨ s.outcomes.countP isWrapUp = 1 ∧
    s.runtime.budgetLimitReportedGoalId = some goal₀.goalId

/-- A call that keeps the goal's id and count, the outcomes and the mark keeps what is true. -/
theorem Counts.of_eq {goal₀ : ThreadGoal} {s s' : RunState Plan} (h : Counts goal₀ s)
    (hid : s'.goal.goalId = s.goal.goalId)
    (hcount : s'.goal.autoContinuationCount = s.goal.autoContinuationCount)
    (houtcomes : s'.outcomes = s.outcomes)
    (hmark : s'.runtime.budgetLimitReportedGoalId = s.runtime.budgetLimitReportedGoalId) :
    Counts goal₀ s' where
  goalId := hid.trans h.goalId
  scheduled := by rw [houtcomes, hcount, h.scheduled]
  limit := hcount.trans_le h.limit
  wrapUps := by rw [houtcomes, hmark]; exact h.wrapUps

theorem Counts.continuation {goal₀ goal : ThreadGoal} {runtime : ThreadGoalRuntime}
    {s s' : RunState Plan} {result : ThreadGoalRuntime × ThreadGoalContinuationOutcome Plan}
    (h : Counts goal₀ s) (hid : goal.goalId = s.goal.goalId)
    (hcount : goal.autoContinuationCount = s.goal.autoContinuationCount)
    (hmark : runtime.budgetLimitReportedGoalId = s.runtime.budgetLimitReportedGoalId)
    (hcontinues : Continues runtime goal result) (hruntime : s'.runtime = result.1)
    (hgoal : s'.goal = result.2.goalToPersist.getD s.goal)
    (houtcomes : s'.outcomes = s.outcomes ++ [result.2]) : Counts goal₀ s' := by
  obtain ⟨-, ⟨goal', hstored, hid', -, -, hscheduled, hnot⟩, hreported, hkeeps⟩ := hcontinues
  rw [hid, h.goalId, hmark] at hreported hkeeps
  rw [hstored, Option.getD_some] at hgoal
  have hsum := h.scheduled
  have hlimit := h.limit
  cases hcase : result.2.scheduledAutoContinuation with
  | true =>
    obtain ⟨hlt, hsucc⟩ := hscheduled hcase
    have hwrap : isWrapUp result.2 = false := by simp [isWrapUp, hcase]
    refine ⟨?_, ?_, ?_, ?_⟩
    · rw [hgoal, hid', hid, h.goalId]
    · simp only [houtcomes, hgoal, countP_append, countP_singleton, hcase, if_true]
      omega
    · rw [hgoal]
      omega
    · simp only [houtcomes, hruntime, countP_append, countP_singleton, hwrap]
      exact h.wrapUps.imp_right fun hone => ⟨hone.1, hkeeps hone.2⟩
  | false =>
    have hsame := hnot hcase
    refine ⟨?_, ?_, ?_, ?_⟩
    · rw [hgoal, hid', hid, h.goalId]
    · simp only [houtcomes, hgoal, countP_append, countP_singleton, hcase]
      simp only [Bool.false_eq_true, if_false]
      omega
    · rw [hgoal]
      omega
    · simp only [houtcomes, hruntime, countP_append, countP_singleton]
      by_cases hwrap : isWrapUp result.2 = true
      · -- The mark was not set, so nothing was wrapped up before.
        obtain ⟨hfirst, hmarked⟩ := hreported (by simp_all [isWrapUp]) hcase
        obtain hzero | ⟨-, hset⟩ := h.wrapUps
        · rw [if_pos hwrap, hzero]
          exact .inr ⟨rfl, hmarked⟩
        · exact absurd hset hfirst
      · rw [if_neg hwrap]
        exact h.wrapUps.imp_right fun hone => ⟨hone.1, hkeeps hone.2⟩

theorem Counts.step {goal₀ : ThreadGoal} (h : Counts goal₀ s) (clock : Clock)
    (hedit : ∀ goal, call ≠ .edit goal) : Counts goal₀ (s.step buildPlan clock call) := by
  cases call with
  | markTurnStarted turnId withGoal =>
    exact h.of_eq rfl rfl rfl (markTurnStarted_reported _ _ _ _)
  | recordRoundBillableTokens turnId billable =>
    exact h.of_eq rfl rfl rfl (recordRoundBillableTokens_reported _ _ _)
  | clearActiveGoal turnId => exact h.of_eq rfl rfl rfl (clearActiveGoal_reported _ _ _)
  | accountTurnTokens turnId turnTokens =>
    obtain ⟨hcharged, hmark⟩ :=
      accountTurnTokens_charged s.runtime turnId turnTokens s.goal clock
    exact h.of_eq hcharged.goalId hcharged.autoContinuationCount rfl hmark
  | continuationAfterTurn facts =>
    obtain ⟨hcharged, hmark⟩ :=
      accountTurnTokens_charged s.runtime facts.turnId facts.turnTokens s.goal clock
    exact h.continuation hcharged.goalId hcharged.autoContinuationCount hmark
      (continuationAfterTurn_continues buildPlan s.runtime s.goal facts clock) rfl rfl rfl
  | stop status => exact h.of_eq rfl rfl rfl rfl
  | edit goal => exact absurd rfl (hedit goal)

theorem counts_of_run {runtime₀ : ThreadGoalRuntime} {goal₀ : ThreadGoal} {calls : List Call}
    (hrun : Run buildPlan (initial Plan runtime₀ goal₀) calls s)
    (hedit : ∀ goal, .edit goal ∉ calls) : Counts goal₀ s := by
  induction hrun with
  | nil => exact ⟨rfl, Nat.zero_add _, le_max_left _ _, .inl rfl⟩
  | snoc clock call _ hallowed ih =>
    have hbefore := ih fun goal hgoal => hedit goal (mem_append_left _ hgoal)
    apply hbefore.step clock
    rintro goal rfl
    exact hedit goal (mem_append_right _ (mem_singleton_self _))

/-- A run over one goal. The goal is charged the sum of what its turns last reported while it was
their active goal, up to the largest `i64`; an active goal is limited by the call that counts the
tokens with which it reaches its budget; and without a change by the user it is continued as often
as its count allows, at most, and its budget is wrapped up once, at most. -/
theorem charges_and_continues {runtime₀ : ThreadGoalRuntime} {goal₀ : ThreadGoal}
    {calls : List Call}
    (hfresh : ∀ turn, runtime₀.turn = some turn → turn.activeGoalId ≠ some goal₀.goalId)
    (hrun : Run buildPlan (initial Plan runtime₀ goal₀) calls s) :
    ((∀ turnTokens ∈ s.turns, turnTokens ≤ I64.maxValue) →
      s.goal.tokensUsed.val = min (I64.maxValue : ℤ) (goal₀.tokensUsed.val + s.turns.sum)) ∧
    (∀ clock call turnTokens last, s.reported call = some turnTokens →
      s.turns.head? = some last → last < turnTokens → turnTokens ≤ I64.maxValue →
      s.goal.status = .active → ∀ budget, s.goal.tokenBudget = some budget →
        budget.val ≤ (s.step buildPlan clock call).goal.tokensUsed.val →
        (s.step buildPlan clock call).goal.status = .budgetLimited) ∧
    ((∀ goal, .edit goal ∉ calls) →
      s.outcomes.countP ThreadGoalContinuationOutcome.scheduledAutoContinuation ≤
          maxThreadGoalAutoContinuations ∧
        s.outcomes.countP isWrapUp ≤ 1) := by
  have htracks := tracks_of_run hfresh hrun
  refine ⟨htracks.tokensUsed, ?_, fun hedit => ?_⟩
  · intro clock call turnTokens last hreported hlast hlt hmax hstatus budget hbudget hreached
    obtain ⟨-, turn, hturn, hactive, -, -, hlimited⟩ := step_reported buildPlan clock hreported
    rw [htracks.goalId] at hactive
    obtain rfl := Option.some.inj (hlast.symm.trans (htracks.baseline turn hturn hactive))
    exact hlimited hlt hmax hstatus budget hbudget hreached
  · have hcounts := counts_of_run hrun hedit
    have hscheduled := hcounts.scheduled
    have hlimit := hcounts.limit
    refine ⟨by omega, ?_⟩
    obtain hzero | ⟨hone, -⟩ := hcounts.wrapUps
    · omega
    · exact hone.le

/-! ### Two turns -/

/-- The start of a run with a new runtime and a goal that has not been charged yet. -/
def start : RunState Unit :=
  initial Unit (.new 0) ⟨"goal", "session", "objective", .active, none, .saturate 0, .saturate 0,
    .saturate 0, .saturate 0, 0⟩

/-- A turn that reports as many tokens as an `i64` can hold and is continued by a turn that reports
one more. -/
def twoTurns : List Call :=
  [.markTurnStarted "first" true, .accountTurnTokens "first" I64.maxValue,
    .continuationAfterTurn ⟨"first", I64.maxValue, true⟩, .markTurnStarted "second" true,
    .accountTurnTokens "second" 1]

/-- The state two turns come to. -/
def afterTwoTurns : RunState Unit :=
  twoTurns.foldl (fun s call => s.step (fun _ => ()) ⟨0, .saturate 0⟩ call) start

theorem run_twoTurns : Run (fun _ => ()) start twoTurns afterTwoTurns := by
  refine .snoc _ _ (.snoc _ _ (.snoc _ _ (.snoc _ _ (.snoc _ _ .nil ?_) ?_) ?_) ?_) ?_
  · rintro _ ⟨⟩
  · rintro _ ⟨⟩ _ ⟨⟩
    decide
  · rintro _ ⟨⟩ _ ⟨⟩
    decide
  · rintro _ ⟨⟩
  · rintro _ ⟨⟩ _ ⟨⟩
    decide

theorem charges_and_continues_twoTurns :
    afterTwoTurns.goal.tokensUsed.val = min (I64.maxValue : ℤ) (0 + afterTwoTurns.turns.sum) ∧
      afterTwoTurns.outcomes.countP ThreadGoalContinuationOutcome.scheduledAutoContinuation ≤
        maxThreadGoalAutoContinuations := by
  have hfresh : ∀ turn, start.runtime.turn = some turn →
      turn.activeGoalId ≠ some start.goal.goalId := fun _ => nofun
  obtain ⟨htokens, -, hcontinues⟩ := charges_and_continues hfresh run_twoTurns
  refine ⟨htokens (by decide), (hcontinues fun goal hgoal => ?_).1⟩
  simp [twoTurns] at hgoal

/-- The tokens of a goal saturate, so what it is charged need not be the sum. -/
theorem not_charges_sum :
    ¬∀ (calls : List Call) (s : RunState Unit), Run (fun _ => ()) start calls s →
      s.goal.tokensUsed.val = start.goal.tokensUsed.val + s.turns.sum := by
  intro h
  exact absurd (h twoTurns afterTwoTurns run_twoTurns) (by decide)

end RunState

end ThreadGoals

end OpenBitFun
