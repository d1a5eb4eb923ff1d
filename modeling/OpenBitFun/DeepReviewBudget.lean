import Mathlib
import OpenBitFun.AssocMap
import OpenBitFun.Text

/-!
# The budgets of Deep Review

A Deep Review turn may start a few reviewers and one judge, retry a reviewer a few times, run a few
reviewers at once, and read a limited amount of the diff. `DeepReviewBudgetTracker` keeps one record
(`DeepReviewTurnBudget`) for each dialog turn; reviewers of many turns use it at the same time. It
drops the records that nobody has used for an hour.
-/

namespace OpenBitFun

namespace DeepReview

/-- `BUDGET_TTL`, in nanoseconds. -/
def BUDGET_TTL : ℕ := 3600000000000

/-- `PRUNE_INTERVAL`, in nanoseconds. -/
def PRUNE_INTERVAL : ℕ := 300000000000

/-- `REVIEW_DIFF_MAX_CHARS_PER_TURN`. -/
def REVIEW_DIFF_MAX_CHARS_PER_TURN : ℕ := 240000

/-- `REVIEW_PROVIDER_DIFF_MAX_ACQUISITIONS_PER_TURN`. -/
def REVIEW_PROVIDER_DIFF_MAX_ACQUISITIONS_PER_TURN : ℕ := 128

/-- `usize::MAX`. -/
def usizeMax : ℕ := 2 ^ 64 - 1

/-- `str::trim`. -/
def trim (s : String) : String := String.ofList (Text.trim s.toList)

/-- `ReviewDiffBudgetAdmission`. -/
inductive ReviewDiffBudgetAdmission where
  /-- The page may be returned. -/
  | accepted (repeatedPage : Bool)
  /-- The turn has read its share. -/
  | exhausted
  deriving DecidableEq, Repr

/-- `DeepReviewSubagentRole`. -/
inductive DeepReviewSubagentRole where
  | reviewer
  | judge
  deriving DecidableEq, Repr

/-- `DeepReviewPolicyViolation`. -/
structure DeepReviewPolicyViolation where
  /-- What went wrong, for programs. -/
  code : String
  /-- What went wrong, for people. -/
  message : String
  deriving DecidableEq, Repr

/-- What the budgets read of a `DeepReviewExecutionPolicy`. -/
structure DeepReviewExecutionPolicy where
  /-- The number of reviewers a turn may start. -/
  maxReviewerCalls : ℕ
  /-- The number of times it may retry one kind of reviewer. -/
  maxRetriesPerRole : ℕ
  /-- The judge counts as a reviewer. -/
  sharedSpawnedReviewBudget : Bool

/-- `FocusedReviewBudgetClaim`. -/
structure FocusedReviewBudgetClaim where
  /-- The question. -/
  questionId : String
  /-- The files it is about. -/
  scopePaths : List String
  /-- The number of questions its turn may ask. -/
  maxDistinctQuestions : ℕ

/-- `DeepReviewTurnBudget`: the record of one turn. `ρ` is what is measured of the turn besides:
the shared context, the effective concurrency and the runtime diagnostics. -/
structure DeepReviewTurnBudget (ρ : Type) where
  /-- The judges started. -/
  judgeCalls : ℕ
  /-- The reviewers started. -/
  reviewerCalls : ℕ
  /-- The reviewers started, by their kind. -/
  reviewerCallsBySubagent : AssocMap String ℕ
  /-- The retries, by the kind of reviewer. -/
  retriesUsedBySubagent : AssocMap String ℕ
  /-- The reviewers at work. -/
  activeReviewers : ℕ
  /-- The reviewers at work, by the batch they were launched in. -/
  activeReviewerLaunchBatches : AssocMap ℕ ℕ
  /-- The packets being worked on. -/
  activeReviewerPacketIds : Finset String
  /-- The packets a reviewer was started for. -/
  initialReviewerPacketIds : Finset String
  /-- The questions asked. -/
  focusedQuestionIds : Finset String
  /-- The questions asked, with what they were asked about. -/
  focusedAssignmentKeys : Finset String
  /-- The launches refused by the concurrency cap. -/
  concurrencyCapRejections : ℕ
  /-- The launches skipped for lack of capacity. -/
  capacitySkips : ℕ
  /-- The characters of the diff returned. -/
  reviewDiffReturnedChars : ℕ
  /-- The pages of the diff returned, by reviewer. -/
  reviewDiffReturnedPagesByReviewer : AssocMap String (Finset String)
  /-- The diffs acquired from the provider. -/
  reviewProviderDiffAcquisitions : ℕ
  /-- A page was refused. -/
  reviewDiffExhausted : Bool
  /-- Not everything could be read. -/
  reviewDiffLimited : Bool
  /-- The target has changed since. -/
  reviewTargetStale : Bool
  /-- What else is measured of the turn. -/
  measurements : ρ
  /-- When it was last used. -/
  updatedAt : ℕ

namespace DeepReviewTurnBudget

variable {ρ : Type} (budget : DeepReviewTurnBudget ρ)

/-- `DeepReviewTurnBudget::new`. -/
def new [Inhabited ρ] (now : ℕ) : DeepReviewTurnBudget ρ where
  judgeCalls := 0
  reviewerCalls := 0
  reviewerCallsBySubagent := ∅
  retriesUsedBySubagent := ∅
  activeReviewers := 0
  activeReviewerLaunchBatches := ∅
  activeReviewerPacketIds := ∅
  initialReviewerPacketIds := ∅
  focusedQuestionIds := ∅
  focusedAssignmentKeys := ∅
  concurrencyCapRejections := 0
  capacitySkips := 0
  reviewDiffReturnedChars := 0
  reviewDiffReturnedPagesByReviewer := ∅
  reviewProviderDiffAcquisitions := 0
  reviewDiffExhausted := false
  reviewDiffLimited := false
  reviewTargetStale := false
  measurements := default
  updatedAt := now

/-! ## Pages of the diff -/

/-- The pages returned to a reviewer. -/
def pages (reviewer : String) : Finset String :=
  (budget.reviewDiffReturnedPagesByReviewer.lookup reviewer).getD ∅

/-- `record_review_diff_page`, on the record of the turn. -/
def recordReviewDiffPage (reviewerId pageKey : String) (returnedChars now : ℕ) :
    ReviewDiffBudgetAdmission × DeepReviewTurnBudget ρ :=
  let chars := min (budget.reviewDiffReturnedChars + returnedChars) usizeMax
  if pageKey ∈ budget.pages (trim reviewerId) then (.accepted true, budget)
  else if budget.reviewDiffExhausted = true ∨ REVIEW_DIFF_MAX_CHARS_PER_TURN < chars then
    (.exhausted, { budget with reviewDiffExhausted := true, updatedAt := now })
  else
    (.accepted false, { budget with
      reviewDiffReturnedPagesByReviewer := budget.reviewDiffReturnedPagesByReviewer.insert
        (trim reviewerId) (insert pageKey (budget.pages (trim reviewerId)))
      reviewDiffReturnedChars := chars
      updatedAt := now })

/-- `admit_review_provider_diff_acquisition`, on the record of the turn. -/
def admitReviewProviderDiffAcquisition (now : ℕ) : Bool × DeepReviewTurnBudget ρ :=
  if REVIEW_PROVIDER_DIFF_MAX_ACQUISITIONS_PER_TURN ≤ budget.reviewProviderDiffAcquisitions then
    (false, { budget with reviewDiffLimited := true, updatedAt := now })
  else
    (true, { budget with
      reviewProviderDiffAcquisitions := budget.reviewProviderDiffAcquisitions + 1
      updatedAt := now })

/-! ## Reviewers and judges -/

/-- `normalize_budget_subagent_type`. -/
def normalizeBudgetSubagentType (subagentType : String) :
    Except DeepReviewPolicyViolation String :=
  if trim subagentType = "" then
    .error ⟨"deep_review_subagent_type_missing",
      "DeepReview task budget requires a non-empty subagent type"⟩
  else .ok (trim subagentType)

/-- `packet_id.map(str::trim).filter(|id| !id.is_empty())`. -/
def normalizePacketId (packetId : Option String) : Option String :=
  (packetId.map trim).filter (· != "")

/-- The scope of a question: a packet, or else files. -/
def scopeKey (claim : FocusedReviewBudgetClaim) (packetId : Option String) : Option String :=
  match packetId with
  | some packetId => some ("packet:" ++ packetId)
  | none =>
    if claim.scopePaths.isEmpty then none
    else some ("paths:" ++ "\x00".intercalate claim.scopePaths)

/-- `validate_focused_claim`: the question, and the key of its assignment. -/
def validateFocusedClaim (claim : FocusedReviewBudgetClaim) (packetId : Option String) :
    Except DeepReviewPolicyViolation (String × String) :=
  let questionId := trim claim.questionId
  if questionId = "" ∨ claim.maxDistinctQuestions = 0 then
    .error ⟨"focused_review_budget_invalid",
      "Focused Review budget claims require a question id and a positive question limit"⟩
  else match scopeKey claim packetId with
  | none =>
    .error ⟨"focused_review_budget_invalid",
      "Focused Review budget claims require an explicit path or packet scope"⟩
  | some scopeKey =>
    let assignmentKey := questionId ++ "\x00" ++ scopeKey
    if assignmentKey ∈ budget.focusedAssignmentKeys then
      .error ⟨"focused_review_assignment_already_launched",
        "The same focused Review question has already covered this scope"⟩
    else if questionId ∉ budget.focusedQuestionIds ∧
        claim.maxDistinctQuestions ≤ budget.focusedQuestionIds.card then
      .error ⟨"focused_review_question_budget_exhausted",
        "Focused Review question budget exhausted for this turn (max distinct questions: " ++
          toString claim.maxDistinctQuestions ++ ")"⟩
    else .ok (questionId, assignmentKey)

/-- The claim of a task that has one, validated. -/
def validateClaim (claim : Option FocusedReviewBudgetClaim) (packetId : Option String) :
    Except DeepReviewPolicyViolation (Option (String × String)) :=
  match claim with
  | none => .ok none
  | some claim => (budget.validateFocusedClaim claim packetId).map some

/-- The calls that count against the reviewers. -/
def usedCalls (policy : DeepReviewExecutionPolicy) : ℕ :=
  if policy.sharedSpawnedReviewBudget then budget.reviewerCalls + budget.judgeCalls
  else budget.reviewerCalls

/-- One more in a map of counts: `*entry(key).or_insert(0) += 1`. -/
def increment {κ : Type} [DecidableEq κ] (counts : AssocMap κ ℕ) (key : κ) : AssocMap κ ℕ :=
  counts.insert key ((counts.lookup key).getD 0 + 1)

/-- A retry of a reviewer. -/
def recordRetry (policy : DeepReviewExecutionPolicy) (subagentType : String) (now : ℕ) :
    Except DeepReviewPolicyViolation (DeepReviewTurnBudget ρ) :=
  if policy.maxRetriesPerRole = 0 then
    .error ⟨"deep_review_retry_budget_exhausted",
      "Retry budget is disabled for DeepReview reviewer '" ++ subagentType ++ "'"⟩
  else if (budget.reviewerCallsBySubagent.lookup subagentType).isNone then
    .error ⟨"deep_review_retry_without_initial_attempt",
      "Cannot retry DeepReview reviewer '" ++ subagentType ++
        "' before an initial attempt in this turn"⟩
  -- a reviewer that has used up its retries has an entry: nothing is inserted then
  else if policy.maxRetriesPerRole ≤ (budget.retriesUsedBySubagent.lookup subagentType).getD 0 then
    .error ⟨"deep_review_retry_budget_exhausted",
      "Retry budget exhausted for DeepReview reviewer '" ++ subagentType ++ "' (max retries: " ++
        toString policy.maxRetriesPerRole ++ ")"⟩
  else
    .ok { budget with
      retriesUsedBySubagent := increment budget.retriesUsedBySubagent subagentType
      updatedAt := now }

/-- The first attempt of a reviewer. -/
def recordInitial (policy : DeepReviewExecutionPolicy) (subagentType : String)
    (packetId : Option String) (claim : Option FocusedReviewBudgetClaim) (now : ℕ) :
    Except DeepReviewPolicyViolation (DeepReviewTurnBudget ρ) :=
  match budget.validateClaim claim packetId with
  | .error violation => .error violation
  | .ok focused =>
    if (packetId.filter (· ∈ budget.initialReviewerPacketIds)).isSome then
      .error ⟨"deep_review_packet_already_launched",
        "DeepReview managed packet '" ++ packetId.getD "" ++
          "' already used its initial attempt in this turn; " ++
          "use retry=true only for an admitted retry"⟩
    else if policy.maxReviewerCalls ≤ budget.usedCalls policy then
      .error ⟨if policy.sharedSpawnedReviewBudget then "deep_review_spawned_budget_exhausted"
          else "deep_review_reviewer_budget_exhausted",
        "Reviewer launch budget exhausted for this DeepReview turn (max calls: " ++
          toString policy.maxReviewerCalls ++ ")"⟩
    else
      .ok { budget with
        initialReviewerPacketIds := budget.initialReviewerPacketIds ∪ packetId.toFinset
        focusedQuestionIds := budget.focusedQuestionIds ∪ (focused.map Prod.fst).toFinset
        focusedAssignmentKeys := budget.focusedAssignmentKeys ∪ (focused.map Prod.snd).toFinset
        reviewerCalls := budget.reviewerCalls + 1
        reviewerCallsBySubagent := increment budget.reviewerCallsBySubagent subagentType
        updatedAt := now }

/-- A judge. -/
def recordJudge (policy : DeepReviewExecutionPolicy) (now : ℕ) :
    Except DeepReviewPolicyViolation (DeepReviewTurnBudget ρ) :=
  if policy.sharedSpawnedReviewBudget = true ∧
      policy.maxReviewerCalls ≤ budget.reviewerCalls + budget.judgeCalls then
    .error ⟨"deep_review_spawned_budget_exhausted",
      "Spawned Review call budget exhausted for this turn (max calls: " ++
        toString policy.maxReviewerCalls ++ ")"⟩
  else if 1 ≤ budget.judgeCalls then
    .error ⟨"deep_review_judge_budget_exhausted",
      "ReviewJudge launch budget exhausted for this DeepReview turn (max calls: 1)"⟩
  else .ok { budget with judgeCalls := budget.judgeCalls + 1, updatedAt := now }

/-- `record_task_for_packet_with_focus`, on the record of the turn: the new record, or why the task
is refused. -/
def recordTaskForPacketWithFocus (policy : DeepReviewExecutionPolicy)
    (role : DeepReviewSubagentRole) (subagentType : String) (isRetry : Bool)
    (packetId : Option String) (focusedClaim : Option FocusedReviewBudgetClaim) (now : ℕ) :
    Except DeepReviewPolicyViolation (DeepReviewTurnBudget ρ) :=
  match role with
  | .reviewer =>
    match normalizeBudgetSubagentType subagentType with
    | .error violation => .error violation
    | .ok subagentType =>
      if isRetry = true ∧ focusedClaim.isSome = true then
        .error ⟨"focused_review_retry_disallowed",
          "Focused Review checks do not retry automatically"⟩
      else if isRetry = true then budget.recordRetry policy subagentType now
      else budget.recordInitial policy subagentType (normalizePacketId packetId) focusedClaim now
  | .judge =>
    if isRetry = true then
      .error ⟨"deep_review_judge_retry_disallowed",
        "ReviewJudge retry is not covered by the reviewer retry budget"⟩
    else if focusedClaim.isSome = true then
      .error ⟨"focused_review_role_invalid",
        "Focused Review assignments may only launch ReviewWorker"⟩
    else budget.recordJudge policy now

/-! ## Reviewers at work -/

/-- `begin_active_reviewer`, on the record of the turn. -/
def beginActiveReviewer (now : ℕ) : DeepReviewTurnBudget ρ :=
  { budget with activeReviewers := budget.activeReviewers + 1, updatedAt := now }

/-- `try_begin_active_reviewer_for_launch_batch`, on the record of the turn: whether the reviewer
may start. -/
def tryBeginActiveReviewerForLaunchBatch (maxActiveReviewers launchBatch : ℕ)
    (packetId : Option String) (now : ℕ) :
    Except DeepReviewPolicyViolation (Option (DeepReviewTurnBudget ρ)) :=
  if (packetId.filter (· ∈ budget.activeReviewerPacketIds)).isSome then
    .error ⟨"deep_review_packet_already_active",
      "DeepReview managed packet '" ++ packetId.getD "" ++ "' is already active in this turn"⟩
  else if maxActiveReviewers ≤ budget.activeReviewers then .ok none
  else
    .ok (some { budget with
      activeReviewers := budget.activeReviewers + 1
      activeReviewerLaunchBatches := increment budget.activeReviewerLaunchBatches launchBatch
      activeReviewerPacketIds := budget.activeReviewerPacketIds ∪ packetId.toFinset
      updatedAt := now })

/-- One reviewer less in its batch; an empty batch is removed. -/
def leaveLaunchBatch (batches : AssocMap ℕ ℕ) (launchBatch : ℕ) : AssocMap ℕ ℕ :=
  match batches.lookup launchBatch with
  | none => batches
  | some count =>
    if count - 1 = 0 then batches.erase launchBatch else batches.insert launchBatch (count - 1)

/-- `finish_active_reviewer`, on the record of the turn. -/
def finishActiveReviewer (launchBatch : Option ℕ) (packetId : Option String) (now : ℕ) :
    DeepReviewTurnBudget ρ :=
  { budget with
    activeReviewers := budget.activeReviewers - 1
    activeReviewerLaunchBatches :=
      launchBatch.elim budget.activeReviewerLaunchBatches
        (leaveLaunchBatch budget.activeReviewerLaunchBatches)
    activeReviewerPacketIds := budget.activeReviewerPacketIds \ packetId.toFinset
    updatedAt := now }

end DeepReviewTurnBudget

/-! ## The tracker -/

/-- `DeepReviewActiveReviewerGuard`: a reviewer is at work as long as its guard is not dropped. -/
structure DeepReviewActiveReviewerGuard where
  /-- The turn. -/
  parentDialogTurnId : String
  /-- The batch it was launched in. -/
  launchBatch : Option ℕ
  /-- The packet it works on. -/
  packetId : Option String
  deriving DecidableEq, Repr

/-- The operations on the record of a turn. -/
inductive Operation (ρ : Type) where
  /-- `record_task_for_packet_with_focus`; `record_task` and `record_task_for_packet` are calls of
  it. -/
  | recordTaskForPacketWithFocus (role : DeepReviewSubagentRole) (subagentType : String)
    (isRetry : Bool) (packetId : Option String) (focusedClaim : Option FocusedReviewBudgetClaim)
  /-- `record_review_diff_page`. -/
  | recordReviewDiffPage (reviewerId pageKey : String) (returnedChars : ℕ)
  /-- `admit_review_provider_diff_acquisition`. -/
  | admitReviewProviderDiffAcquisition
  /-- `record_review_diff_limitation`. -/
  | recordReviewDiffLimitation
  /-- `record_review_target_stale`. -/
  | recordReviewTargetStale
  /-- `record_concurrency_cap_rejection`. -/
  | recordConcurrencyCapRejection
  /-- `record_capacity_skip` and `record_capacity_skip_for_reason`, with what the latter notes in
  the diagnostics. -/
  | recordCapacitySkip (update : ρ → ρ)
  /-- The operations that only change what is measured: those of the runtime diagnostics and of the
  shared context, which prune, and those of the effective concurrency, which do not. -/
  | measure (prunes : Bool) (update : ρ → ρ)
  /-- `begin_active_reviewer`. -/
  | beginActiveReviewer
  /-- `try_begin_active_reviewer`. -/
  | tryBeginActiveReviewer (maxActiveReviewers : ℕ)
  /-- `try_begin_active_reviewer_for_launch_batch`. -/
  | tryBeginActiveReviewerForLaunchBatch (maxActiveReviewers launchBatch : ℕ)
    (packetId : Option String)

/-- What an operation answers. -/
inductive Answer where
  /-- Nothing. -/
  | done
  /-- The task is recorded. -/
  | recorded
  /-- The policy is violated. -/
  | refused (violation : DeepReviewPolicyViolation)
  /-- Whether the page may be returned. -/
  | page (admission : ReviewDiffBudgetAdmission)
  /-- Whether the acquisition may be made. -/
  | acquisition (admitted : Bool)
  /-- A guard, if the reviewer may start. -/
  | begun (guard : Option DeepReviewActiveReviewerGuard)
  deriving DecidableEq, Repr

namespace Operation

variable {ρ : Type}

/-- The operations that start with pruning, when it is due. -/
def prunes : Operation ρ → Bool
  | recordTaskForPacketWithFocus .. | recordReviewDiffPage .. | recordConcurrencyCapRejection
  | recordCapacitySkip _ => true
  | measure prunes _ => prunes
  | _ => false

/-- The answer to a call with a blank argument, where it is checked; the record is not touched
then. -/
def answerBlank (turn : String) : Operation ρ → Option Answer
  | recordReviewDiffPage reviewerId pageKey _ =>
    if trim turn = "" ∨ trim reviewerId = "" ∨ trim pageKey = "" then some (.page .exhausted)
    else none
  | admitReviewProviderDiffAcquisition => if trim turn = "" then some (.acquisition false) else none
  | recordConcurrencyCapRejection | recordCapacitySkip _ | measure _ _ =>
    if trim turn = "" then some .done else none
  | _ => none

/-- The operation on the record of the turn: its answer and the new record. -/
def onRecord (policy : DeepReviewExecutionPolicy) (turn : String)
    (budget : DeepReviewTurnBudget ρ) (now : ℕ) :
    Operation ρ → Answer × DeepReviewTurnBudget ρ
  | recordTaskForPacketWithFocus role subagentType isRetry packetId focusedClaim =>
    match budget.recordTaskForPacketWithFocus policy role subagentType isRetry packetId
      focusedClaim now with
    | .error violation => (.refused violation, budget)
    | .ok budget => (.recorded, budget)
  | recordReviewDiffPage reviewerId pageKey returnedChars =>
    let outcome := budget.recordReviewDiffPage reviewerId pageKey returnedChars now
    (.page outcome.1, outcome.2)
  | admitReviewProviderDiffAcquisition =>
    let outcome := budget.admitReviewProviderDiffAcquisition now
    (.acquisition outcome.1, outcome.2)
  | recordReviewDiffLimitation =>
    (.done, { budget with reviewDiffLimited := true, updatedAt := now })
  | recordReviewTargetStale => (.done, { budget with reviewTargetStale := true, updatedAt := now })
  | recordConcurrencyCapRejection =>
    (.done, { budget with
      concurrencyCapRejections := budget.concurrencyCapRejections + 1, updatedAt := now })
  | recordCapacitySkip update =>
    (.done, { budget with
      capacitySkips := budget.capacitySkips + 1
      measurements := update budget.measurements
      updatedAt := now })
  | measure _ update =>
    (.done, { budget with measurements := update budget.measurements, updatedAt := now })
  | beginActiveReviewer => (.begun (some ⟨turn, none, none⟩), budget.beginActiveReviewer now)
  | tryBeginActiveReviewer maxActiveReviewers =>
    if maxActiveReviewers ≤ budget.activeReviewers then (.begun none, budget)
    else (.begun (some ⟨turn, none, none⟩), budget.beginActiveReviewer now)
  | tryBeginActiveReviewerForLaunchBatch maxActiveReviewers launchBatch packetId =>
    let packetId := DeepReviewTurnBudget.normalizePacketId packetId
    match budget.tryBeginActiveReviewerForLaunchBatch maxActiveReviewers launchBatch packetId
      now with
    | .error violation => (.refused violation, budget)
    | .ok none => (.begun none, budget)
    | .ok (some budget) => (.begun (some ⟨turn, some launchBatch, packetId⟩), budget)

end Operation

/-- `DeepReviewBudgetTracker`. -/
structure DeepReviewBudgetTracker (ρ : Type) where
  /-- The records of the turns. -/
  turns : AssocMap String (DeepReviewTurnBudget ρ)
  /-- When records were pruned last. -/
  lastPrunedAt : ℕ

namespace DeepReviewBudgetTracker

variable {ρ : Type} (s : DeepReviewBudgetTracker ρ)

/-- `DeepReviewBudgetTracker::default`. -/
def new (now : ℕ) : DeepReviewBudgetTracker ρ := ⟨∅, now⟩

/-- The record was not used for too long. -/
def Stale (now : ℕ) (budget : DeepReviewTurnBudget ρ) : Prop := BUDGET_TTL < now - budget.updatedAt

instance (now : ℕ) (budget : DeepReviewTurnBudget ρ) : Decidable (Stale now budget) :=
  inferInstanceAs (Decidable (_ < _))

/-- `turns.retain`, on a part of the turns: the map is locked in shards. -/
def retain (now : ℕ) (shard : String → Bool) : DeepReviewBudgetTracker ρ :=
  { s with
    turns := s.turns.retainEntries fun turn budget => !(shard turn && decide (Stale now budget)) }

/-- `prune_stale`. -/
def pruneStale (now : ℕ) : DeepReviewBudgetTracker ρ :=
  { s.retain now (fun _ => true) with lastPrunedAt := now }

/-- The last pruning is long ago. -/
def pruningDue (now : ℕ) : Bool := decide (PRUNE_INTERVAL ≤ now - s.lastPrunedAt)

/-- What an operation does once records are pruned: it works on the record of its turn, a new one
if there is none. -/
def onTurn [Inhabited ρ] (policy : DeepReviewExecutionPolicy) (turn : String)
    (operation : Operation ρ) (now : ℕ) : Answer × DeepReviewBudgetTracker ρ :=
  match operation.answerBlank turn with
  | some answer => (answer, s)
  | none =>
    let outcome :=
      operation.onRecord policy turn ((s.turns.lookup turn).getD (.new now)) now
    (outcome.1, { s with turns := s.turns.insert turn outcome.2 })

/-- A whole operation. -/
def perform [Inhabited ρ] (policy : DeepReviewExecutionPolicy) (turn : String)
    (operation : Operation ρ) (now : ℕ) : Answer × DeepReviewBudgetTracker ρ :=
  if operation.prunes && (operation.answerBlank turn).isNone && s.pruningDue now then
    (s.pruneStale now).onTurn policy turn operation now
  else s.onTurn policy turn operation now

/-- The drop of a guard: `finish_active_reviewer`. -/
def drop (guard : DeepReviewActiveReviewerGuard) (now : ℕ) : DeepReviewBudgetTracker ρ :=
  { s with
    turns := s.turns.modify guard.parentDialogTurnId fun budget =>
      budget.finishActiveReviewer guard.launchBatch guard.packetId now }

end DeepReviewBudgetTracker

end DeepReview

end OpenBitFun
