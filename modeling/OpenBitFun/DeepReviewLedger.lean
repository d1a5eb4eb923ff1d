import Mathlib
import OpenBitFun.DeepReviewBudget

/-!
# The ledger of a Deep Review turn

What is charged to a turn is a list of charges. A ledger is within the budgets (`Within`) if every
charge was admitted (`Admits`) by the charges before it (`Within.cons`). The record of a turn is
synced with its ledger and its living guards (`Synced`), and every operation on a synced record
admits what it charges and leaves the record synced (`Refines`).
-/

namespace OpenBitFun

open List

namespace DeepReview

/-- A charge to the budgets of a turn. -/
inductive Charge where
  /-- The first attempt of a reviewer: its kind, its packet, and its question with the number of
  questions claimed. -/
  | initial (subagentType : String) (packetId : Option String) (focus : Option (String × ℕ))
  /-- A retry of a reviewer. -/
  | retry (subagentType : String)
  /-- A judge. -/
  | judge
  /-- A page of the diff, returned to a reviewer. -/
  | page (reviewerId pageKey : String) (chars : ℕ)
  deriving DecidableEq, Repr

namespace Charge

/-- The kind of the reviewer started. -/
def started : Charge → Option String
  | initial subagentType _ _ => some subagentType
  | _ => none

/-- The kind of the reviewer retried. -/
def retried : Charge → Option String
  | retry subagentType => some subagentType
  | _ => none

/-- The packet a reviewer was started for. -/
def packet : Charge → Option String
  | initial _ packetId _ => packetId
  | _ => none

/-- The question, and the number of questions claimed. -/
def focus : Charge → Option (String × ℕ)
  | initial _ _ focus => focus
  | _ => none

/-- The page returned, and to whom. -/
def returned : Charge → Option (String × String)
  | page reviewerId pageKey _ => some (reviewerId, pageKey)
  | _ => none

/-- The characters returned. -/
def chars : Charge → ℕ
  | page _ _ chars => chars
  | _ => 0

end Charge

/-- The charges to a turn, the newest first. -/
abbrev Ledger := List Charge

namespace Ledger

/-- The reviewers started, by their kinds. -/
def started (ledger : Ledger) : List String := ledger.filterMap Charge.started

/-- The retries, by the kinds of the reviewers. -/
def retried (ledger : Ledger) : List String := ledger.filterMap Charge.retried

/-- The packets reviewers were started for. -/
def packets (ledger : Ledger) : List String := ledger.filterMap Charge.packet

/-- The distinct questions. -/
def questions (ledger : Ledger) : Finset String :=
  ((ledger.filterMap Charge.focus).map Prod.fst).toFinset

/-- The pages returned, and to whom. -/
def returned (ledger : Ledger) : List (String × String) := ledger.filterMap Charge.returned

/-- The characters returned. -/
def chars (ledger : Ledger) : ℕ := (ledger.map Charge.chars).sum

end Ledger

variable {policy : DeepReviewExecutionPolicy} {ledger : Ledger}

/-- **The budgets** of a turn. -/
structure Within (policy : DeepReviewExecutionPolicy) (ledger : Ledger) : Prop where
  /-- the reviewers -/
  reviewers : ledger.started.length ≤ policy.maxReviewerCalls
  /-- the reviewers and the judge, where the budget is shared -/
  shared : policy.sharedSpawnedReviewBudget = true →
    ledger.started.length + ledger.count .judge ≤ policy.maxReviewerCalls
  /-- the judge -/
  judges : ledger.count .judge ≤ 1
  /-- the retries of one kind of reviewer -/
  retries : ∀ subagentType, ledger.retried.count subagentType ≤ policy.maxRetriesPerRole
  /-- a retry comes after a first attempt -/
  afterInitial : ∀ subagentType older, Charge.retry subagentType :: older <:+ ledger →
    subagentType ∈ Ledger.started older
  /-- a packet has one first attempt -/
  packets : ledger.packets.Nodup
  /-- the questions stay within what is claimed -/
  questions : ∀ limit, (∀ charge ∈ ledger, ∀ focus ∈ charge.focus, focus.2 ≤ limit) →
    ledger.questions.card ≤ limit
  /-- a page is charged once for a reviewer -/
  returned : ledger.returned.Nodup
  /-- the characters of all pages -/
  chars : ledger.chars ≤ REVIEW_DIFF_MAX_CHARS_PER_TURN

theorem within_nil : Within policy [] where
  reviewers := Nat.zero_le _
  shared _ := Nat.zero_le _
  judges := Nat.zero_le _
  retries _ := Nat.zero_le _
  afterInitial _ _ h := absurd (suffix_nil.mp h) (cons_ne_nil _ _)
  packets := nodup_nil
  questions _ _ := Nat.zero_le _
  returned := nodup_nil
  chars := Nat.zero_le _

/-- The calls that count against the reviewers. -/
def Ledger.usedCalls (policy : DeepReviewExecutionPolicy) (ledger : Ledger) : ℕ :=
  if policy.sharedSpawnedReviewBudget then ledger.started.length + ledger.count .judge
  else ledger.started.length

/-- What may be charged after a ledger. -/
def Admits (policy : DeepReviewExecutionPolicy) (ledger : Ledger) : Charge → Prop
  | .initial _ packetId focus =>
    ledger.usedCalls policy < policy.maxReviewerCalls ∧
      (∀ packet ∈ packetId, packet ∉ ledger.packets) ∧
      ∀ question ∈ focus, question.1 ∈ ledger.questions ∨ ledger.questions.card < question.2
  | .retry subagentType =>
    ledger.retried.count subagentType < policy.maxRetriesPerRole ∧ subagentType ∈ ledger.started
  | .judge =>
    ledger.count .judge = 0 ∧ (policy.sharedSpawnedReviewBudget = true →
      ledger.started.length + ledger.count .judge < policy.maxReviewerCalls)
  | .page reviewerId pageKey chars =>
    (reviewerId, pageKey) ∉ ledger.returned ∧ ledger.chars + chars ≤ REVIEW_DIFF_MAX_CHARS_PER_TURN

/-! ## One more charge -/

section Cons

@[simp] theorem started_initial (s : String) (p : Option String) (f : Option (String × ℕ)) :
    Ledger.started (.initial s p f :: ledger) = s :: ledger.started := rfl

@[simp] theorem retried_retry (s : String) :
    Ledger.retried (.retry s :: ledger) = s :: ledger.retried := rfl

theorem packets_initial (s : String) (p : Option String) (f : Option (String × ℕ)) :
    Ledger.packets (.initial s p f :: ledger) = p.toList ++ ledger.packets := by
  cases p <;> rfl

theorem questions_initial (s : String) (p : Option String) (f : Option (String × ℕ)) :
    Ledger.questions (.initial s p f :: ledger) =
      ledger.questions ∪ (f.map Prod.fst).toFinset := by
  cases f with
  | none => exact (Finset.union_empty _).symm
  | some focus =>
    change (focus.1 :: (ledger.filterMap Charge.focus).map Prod.fst).toFinset = _
    rw [toFinset_cons, Finset.insert_eq, Finset.union_comm]
    rfl

theorem chars_cons (charge : Charge) :
    Ledger.chars (charge :: ledger) = charge.chars + ledger.chars := rfl

end Cons

/-- **An admitted charge** keeps the ledger within the budgets. -/
theorem Within.cons (h : Within policy ledger) {charge : Charge}
    (hadmits : Admits policy ledger charge) : Within policy (charge :: ledger) := by
  -- a suffix of the longer ledger that starts with a retry is the longer ledger, or an old one
  have hafter : (∀ s, charge = .retry s → s ∈ ledger.started) → ∀ s older,
      Charge.retry s :: older <:+ charge :: ledger → s ∈ Ledger.started older := by
    intro hretry s older hsuffix
    rcases suffix_cons_iff.mp hsuffix with heq | hold
    · obtain ⟨hhead, htail⟩ := List.cons.inj heq
      rw [htail]
      exact hretry s hhead.symm
    · exact h.afterInitial s older hold
  cases charge with
  | initial s p f =>
    obtain ⟨hused, hpacket, hquestion⟩ := hadmits
    have hlt : ledger.started.length < policy.maxReviewerCalls := by
      refine lt_of_le_of_lt ?_ hused
      rw [Ledger.usedCalls]
      split
      · exact Nat.le_add_right _ _
      · exact le_rfl
    refine ⟨hlt, fun hshared => ?_, h.judges, h.retries, hafter nofun, ?_, fun limit hlimit => ?_,
      h.returned, h.chars.trans' (Nat.zero_add _).le⟩
    · rw [Ledger.usedCalls, if_pos hshared] at hused
      have hjudge : List.count .judge (.initial s p f :: ledger) = ledger.count .judge := rfl
      rw [started_initial, length_cons, hjudge]
      omega
    · rw [packets_initial]
      cases p with
      | none => exact h.packets
      | some packet => exact nodup_cons.mpr ⟨hpacket packet rfl, h.packets⟩
    · have hold := h.questions limit fun charge hmem => hlimit charge (mem_cons_of_mem _ hmem)
      rw [questions_initial]
      cases f with
      | none => exact (congrArg Finset.card (Finset.union_empty _)).le.trans hold
      | some focus =>
        have hnew := hlimit _ mem_cons_self focus rfl
        change (ledger.questions ∪ {focus.1}).card ≤ limit
        rw [Finset.union_comm, ← Finset.insert_eq]
        rcases hquestion focus rfl with hmem | hcard
        · rw [Finset.insert_eq_of_mem hmem]
          exact hold
        · exact (Finset.card_insert_le _ _).trans (le_trans hcard hnew)
  | retry s =>
    obtain ⟨hcount, hstarted⟩ := hadmits
    refine ⟨h.reviewers, h.shared, h.judges, fun s' => ?_,
      hafter fun s' heq => Charge.retry.inj heq ▸ hstarted, h.packets, fun limit hlimit => ?_,
      h.returned, h.chars.trans' (Nat.zero_add _).le⟩
    · rw [retried_retry, count_cons]
      split
      · next heq => rwa [← eq_of_beq heq]
      · exact h.retries s'
    · exact h.questions limit fun charge hmem => hlimit charge (mem_cons_of_mem _ hmem)
  | judge =>
    obtain ⟨hcount, hshared⟩ := hadmits
    refine ⟨h.reviewers, fun hboth => ?_, ?_, h.retries, hafter nofun, h.packets,
      fun limit hlimit => ?_, h.returned, h.chars.trans' (Nat.zero_add _).le⟩
    · rw [count_cons_self]
      exact hshared hboth
    · rw [count_cons_self, hcount]
    · exact h.questions limit fun charge hmem => hlimit charge (mem_cons_of_mem _ hmem)
  | page r k n =>
    obtain ⟨hnew, hchars⟩ := hadmits
    refine ⟨h.reviewers, h.shared, h.judges, h.retries, hafter nofun, h.packets,
      fun limit hlimit => ?_, nodup_cons.mpr ⟨hnew, h.returned⟩, ?_⟩
    · exact h.questions limit fun charge hmem => hlimit charge (mem_cons_of_mem _ hmem)
    · rw [chars_cons, Nat.add_comm]
      exact hchars

/-! ## What an operation charges -/

section Charges

variable {ρ : Type}

/-- What an operation charges, by its answer. -/
def Operation.charge : Operation ρ → Answer → Option Charge
  | .recordTaskForPacketWithFocus .reviewer subagentType false packetId focusedClaim, .recorded =>
    some (.initial (trim subagentType) (DeepReviewTurnBudget.normalizePacketId packetId)
      (focusedClaim.map fun claim => (trim claim.questionId, claim.maxDistinctQuestions)))
  | .recordTaskForPacketWithFocus .reviewer subagentType true _ _, .recorded =>
    some (.retry (trim subagentType))
  | .recordTaskForPacketWithFocus .judge _ _ _ _, .recorded => some .judge
  | .recordReviewDiffPage reviewerId pageKey returnedChars, .page (.accepted false) =>
    some (.page (trim reviewerId) pageKey returnedChars)
  | _, _ => none

/-- The guard handed out. -/
def Answer.guard : Answer → Option DeepReviewActiveReviewerGuard
  | begun guard => guard
  | _ => none

/-- The number of reviewers that may be at work for a reviewer to start. -/
def Operation.maxActive : Operation ρ → Option ℕ
  | .tryBeginActiveReviewer maxActiveReviewers => some maxActiveReviewers
  | .tryBeginActiveReviewerForLaunchBatch maxActiveReviewers _ _ => some maxActiveReviewers
  | _ => none

/-- A page that was returned to the reviewer before. -/
def Operation.repeated : Operation ρ → Answer → Option (String × String)
  | .recordReviewDiffPage reviewerId pageKey _, .page (.accepted true) =>
    some (trim reviewerId, pageKey)
  | _, _ => none

end Charges

/-- The guards of a turn. -/
abbrev Guards := List DeepReviewActiveReviewerGuard

/-- The packets being worked on. -/
def Guards.packets (guards : Guards) : List String :=
  guards.filterMap DeepReviewActiveReviewerGuard.packetId

/-! ## The record and the ledger -/

variable {ρ : Type} {budget : DeepReviewTurnBudget ρ} {alive : Guards}

/-- The record of a turn agrees with its ledger and with its living guards. -/
structure Synced (budget : DeepReviewTurnBudget ρ) (ledger : Ledger) (alive : Guards) : Prop where
  judges : budget.judgeCalls = ledger.count .judge
  reviewers : budget.reviewerCalls = ledger.started.length
  started : ∀ subagentType,
    (budget.reviewerCallsBySubagent.lookup subagentType).isSome = true →
      subagentType ∈ ledger.started
  retries : ∀ subagentType, (budget.retriesUsedBySubagent.lookup subagentType).getD 0 =
    ledger.retried.count subagentType
  packets : ∀ packet, packet ∈ budget.initialReviewerPacketIds ↔ packet ∈ ledger.packets
  questions : budget.focusedQuestionIds = ledger.questions
  pages : ∀ reviewer page, page ∈ budget.pages reviewer ↔ (reviewer, page) ∈ ledger.returned
  chars : budget.reviewDiffReturnedChars = ledger.chars
  active : budget.activeReviewers = alive.length
  activePackets : ∀ packet, packet ∈ budget.activeReviewerPacketIds ↔ packet ∈ alive.packets

theorem synced_new [Inhabited ρ] (now : ℕ) : Synced (.new now : DeepReviewTurnBudget ρ) [] [] where
  judges := rfl
  reviewers := rfl
  started _ h := Bool.noConfusion h
  retries _ := rfl
  packets _ := iff_of_false (Finset.notMem_empty _) not_mem_nil
  questions := rfl
  pages _ _ := iff_of_false (Finset.notMem_empty _) not_mem_nil
  chars := rfl
  active := rfl
  activePackets _ := iff_of_false (Finset.notMem_empty _) not_mem_nil

/-- What the ledger does not know of can be changed freely. -/
theorem Synced.noted (h : Synced budget ledger alive) (rejections skips acquisitions now : ℕ)
    (exhausted limited stale : Bool) (measurements : ρ) :
    Synced { budget with
      concurrencyCapRejections := rejections
      capacitySkips := skips
      reviewProviderDiffAcquisitions := acquisitions
      reviewDiffExhausted := exhausted
      reviewDiffLimited := limited
      reviewTargetStale := stale
      measurements := measurements
      updatedAt := now } ledger alive :=
  ⟨h.judges, h.reviewers, h.started, h.retries, h.packets, h.questions, h.pages, h.chars, h.active,
    h.activePackets⟩

/-- **What an operation on a synced record does**: it admits what it charges, it leaves the record
synced, and it hands out a guard only if another reviewer may start. -/
structure Refines (policy : DeepReviewExecutionPolicy) (ledger : Ledger) (alive : Guards)
    (operation : Operation ρ) (outcome : Answer × DeepReviewTurnBudget ρ) : Prop where
  admits : ∀ charge ∈ operation.charge outcome.1, Admits policy ledger charge
  synced : Synced outcome.2 ((operation.charge outcome.1).toList ++ ledger)
    (outcome.1.guard.toList ++ alive)
  active : ∀ guard ∈ outcome.1.guard, ∀ maxActive ∈ operation.maxActive, alive.length < maxActive
  packet : ∀ guard ∈ outcome.1.guard, ∀ packet ∈ guard.packetId, packet ∉ alive.packets
  repeated : ∀ page ∈ operation.repeated outcome.1, page ∈ ledger.returned

/-- An operation that charges nothing and starts nothing. -/
theorem refines_of_none {operation : Operation ρ}
    {outcome : Answer × DeepReviewTurnBudget ρ}
    (hcharge : operation.charge outcome.1 = none) (hguard : outcome.1.guard = none)
    (hrepeated : operation.repeated outcome.1 = none)
    (hsynced : Synced outcome.2 ledger alive) :
    Refines policy ledger alive operation outcome := by
  refine ⟨?_, ?_, ?_, ?_, ?_⟩
  · rw [hcharge]
    nofun
  · rw [hcharge, hguard]
    exact hsynced
  · rw [hguard]
    nofun
  · rw [hguard]
    nofun
  · rw [hrepeated]
    nofun

theorem refines_of_charge {operation : Operation ρ}
    {outcome : Answer × DeepReviewTurnBudget ρ} {charge : Charge}
    (hcharge : operation.charge outcome.1 = some charge) (hguard : outcome.1.guard = none)
    (hrepeated : operation.repeated outcome.1 = none)
    (hboth : Admits policy ledger charge ∧ Synced outcome.2 (charge :: ledger) alive) :
    Refines policy ledger alive operation outcome := by
  refine ⟨fun charge' hmem => ?_, ?_, ?_, ?_, ?_⟩
  · rw [hcharge] at hmem
    cases hmem
    exact hboth.1
  · rw [hcharge, hguard]
    exact hboth.2
  · rw [hguard]
    nofun
  · rw [hguard]
    nofun
  · rw [hrepeated]
    nofun

/-! ### Tasks -/

open DeepReviewTurnBudget

theorem lookup_increment {κ : Type} [DecidableEq κ] (counts : AssocMap κ ℕ) (key key' : κ) :
    (increment counts key).lookup key' =
      if key' = key then some ((counts.lookup key).getD 0 + 1) else counts.lookup key' :=
  AssocMap.lookup_insert _ _ _ _

theorem Synced.recordRetry (h : Synced budget ledger alive) {subagentType : String} {now : ℕ}
    {budget' : DeepReviewTurnBudget ρ}
    (hok : budget.recordRetry policy subagentType now = .ok budget') :
    Admits policy ledger (.retry subagentType) ∧
      Synced budget' (.retry subagentType :: ledger) alive := by
  rw [DeepReviewTurnBudget.recordRetry] at hok
  split_ifs at hok with hzero hnone hmax
  cases hok
  have hstarted : subagentType ∈ ledger.started := by
    refine h.started subagentType ?_
    rwa [Option.isNone_iff_eq_none, ← ne_eq, ← Option.isSome_iff_ne_none] at hnone
  have hcount : ledger.retried.count subagentType < policy.maxRetriesPerRole := by
    rw [← h.retries]
    exact not_le.mp hmax
  refine ⟨⟨hcount, hstarted⟩, h.judges, h.reviewers, h.started, fun s => ?_, h.packets, h.questions,
    h.pages, h.chars.trans (Nat.zero_add _).symm, h.active, h.activePackets⟩
  change ((increment budget.retriesUsedBySubagent subagentType).lookup s).getD 0 = _
  rw [lookup_increment, retried_retry, count_cons]
  by_cases hs : s = subagentType
  · rw [if_pos hs, hs, if_pos (beq_self_eq_true _), ← h.retries]
    rfl
  · rw [if_neg hs, if_neg (fun heq => hs (eq_of_beq heq).symm), ← h.retries]
    rfl

theorem Synced.recordJudge (h : Synced budget ledger alive) {now : ℕ}
    {budget' : DeepReviewTurnBudget ρ} (hok : budget.recordJudge policy now = .ok budget') :
    Admits policy ledger .judge ∧ Synced budget' (.judge :: ledger) alive := by
  rw [DeepReviewTurnBudget.recordJudge] at hok
  split_ifs at hok with hshared hjudge
  cases hok
  rw [h.judges, not_le, Nat.lt_one_iff] at hjudge
  refine ⟨⟨hjudge, fun hboth => ?_⟩, ?_, h.reviewers, h.started, h.retries, h.packets, h.questions,
    h.pages, h.chars.trans (Nat.zero_add _).symm, h.active, h.activePackets⟩
  · rw [h.reviewers, h.judges] at hshared
    exact not_le.mp fun hle => hshared ⟨hboth, hle⟩
  · rw [count_cons_self, ← h.judges]

/-- A question that may be asked was asked before, or is one of the questions claimed. -/
theorem of_validateFocusedClaim {claim : FocusedReviewBudgetClaim} {packetId : Option String}
    {focused : String × String} (hok : budget.validateFocusedClaim claim packetId = .ok focused) :
    focused.1 = trim claim.questionId ∧ (trim claim.questionId ∈ budget.focusedQuestionIds ∨
      budget.focusedQuestionIds.card < claim.maxDistinctQuestions) := by
  rw [validateFocusedClaim] at hok
  cases hscope : scopeKey claim packetId with
  | none =>
    rw [hscope] at hok
    dsimp only at hok
    split_ifs at hok
  | some scope =>
    rw [hscope] at hok
    dsimp only at hok
    split_ifs at hok with hblank hassigned hcard
    cases hok
    refine ⟨rfl, ?_⟩
    by_contra hnot
    exact hcard ⟨fun hmem => hnot (.inl hmem), not_lt.mp fun hlt => hnot (.inr hlt)⟩

theorem of_validateClaim {claim : Option FocusedReviewBudgetClaim} {packetId : Option String}
    {focused : Option (String × String)} (hok : budget.validateClaim claim packetId = .ok focused) :
    focused.map Prod.fst = claim.map (fun claim => trim claim.questionId) ∧
      ∀ claim' ∈ claim, trim claim'.questionId ∈ budget.focusedQuestionIds ∨
        budget.focusedQuestionIds.card < claim'.maxDistinctQuestions := by
  cases claim with
  | none =>
    cases hok
    exact ⟨rfl, nofun⟩
  | some claim =>
    rw [validateClaim] at hok
    cases hvalid : budget.validateFocusedClaim claim packetId with
    | error violation =>
      rw [hvalid] at hok
      cases hok
    | ok valid =>
      rw [hvalid] at hok
      cases hok
      obtain ⟨hfst, hask⟩ := of_validateFocusedClaim hvalid
      refine ⟨congrArg some hfst, fun claim' hmem => ?_⟩
      cases hmem
      exact hask

/-- The test for a packet that is there already. -/
theorem isSome_filter_mem {packets : Finset String} {packetId : Option String} :
    (packetId.filter (· ∈ packets)).isSome = true ↔ ∃ packet ∈ packetId, packet ∈ packets := by
  rw [Option.isSome_iff_exists]
  refine exists_congr fun packet => ?_
  rw [Option.filter_eq_some_iff, decide_eq_true_iff]
  rfl

theorem Synced.usedCalls_eq (h : Synced budget ledger alive) :
    budget.usedCalls policy = ledger.usedCalls policy := by
  rw [DeepReviewTurnBudget.usedCalls, Ledger.usedCalls, h.reviewers, h.judges]

theorem Synced.recordInitial (h : Synced budget ledger alive) {subagentType : String}
    {packetId : Option String} {claim : Option FocusedReviewBudgetClaim} {now : ℕ}
    {budget' : DeepReviewTurnBudget ρ}
    (hok : budget.recordInitial policy subagentType packetId claim now = .ok budget')
    {charge : Charge} (hcharge : charge = .initial subagentType packetId
      (claim.map fun claim => (trim claim.questionId, claim.maxDistinctQuestions))) :
    Admits policy ledger charge ∧ Synced budget' (charge :: ledger) alive := by
  subst hcharge
  rw [DeepReviewTurnBudget.recordInitial] at hok
  cases hvalid : budget.validateClaim claim packetId with
  | error violation =>
    rw [hvalid] at hok
    cases hok
  | ok focused =>
    rw [hvalid] at hok
    dsimp only at hok
    split_ifs at hok with hpacket hcalls
    cases hok
    obtain ⟨hfocused, hask⟩ := of_validateClaim hvalid
    have hnew : ∀ packet ∈ packetId, packet ∉ ledger.packets := by
      intro packet hmem hold
      exact hpacket (isSome_filter_mem.mpr ⟨packet, hmem, (h.packets packet).mpr hold⟩)
    refine ⟨⟨h.usedCalls_eq ▸ not_le.mp hcalls, hnew, fun question hmem => ?_⟩, h.judges, ?_,
      fun s hs => ?_, h.retries, fun packet => ?_, ?_, h.pages,
      h.chars.trans (Nat.zero_add _).symm, h.active, h.activePackets⟩
    · obtain ⟨claim', hclaim, rfl⟩ := Option.map_eq_some_iff.mp hmem
      rw [← h.questions]
      exact hask claim' hclaim
    · exact congrArg (· + 1) h.reviewers
    · change ((increment budget.reviewerCallsBySubagent subagentType).lookup s).isSome = true at hs
      rw [lookup_increment] at hs
      rw [started_initial, mem_cons]
      split_ifs at hs with heq
      · exact .inl heq
      · exact .inr (h.started s hs)
    · rw [packets_initial, mem_append, Option.mem_toList, Finset.mem_union,
        Option.mem_toFinset, h.packets, or_comm, Option.mem_def]
    · rw [questions_initial, ← h.questions, hfocused, Option.map_map]
      rfl

/-- **Tasks**: what is recorded was admitted. -/
theorem Synced.recordTaskForPacketWithFocus (h : Synced budget ledger alive) (turn : String)
    (role : DeepReviewSubagentRole) (subagentType : String) (isRetry : Bool)
    (packetId : Option String) (focusedClaim : Option FocusedReviewBudgetClaim) (now : ℕ) :
    Refines policy ledger alive
      (.recordTaskForPacketWithFocus role subagentType isRetry packetId focusedClaim)
      (Operation.onRecord policy turn budget now
        (.recordTaskForPacketWithFocus role subagentType isRetry packetId focusedClaim)) := by
  rw [Operation.onRecord]
  cases hok : budget.recordTaskForPacketWithFocus policy role subagentType isRetry packetId
    focusedClaim now with
  | error violation => exact refines_of_none (by cases role <;> cases isRetry <;> rfl) rfl rfl h
  | ok budget' =>
    cases role with
    | reviewer =>
      rw [DeepReviewTurnBudget.recordTaskForPacketWithFocus, normalizeBudgetSubagentType] at hok
      by_cases hblank : trim subagentType = ""
      · rw [if_pos hblank] at hok
        cases hok
      · rw [if_neg hblank] at hok
        cases isRetry with
        | true =>
          cases hfocused : focusedClaim.isSome with
          | true =>
            rw [hfocused] at hok
            cases hok
          | false =>
            rw [hfocused] at hok
            exact refines_of_charge rfl rfl rfl (h.recordRetry hok)
        | false => exact refines_of_charge rfl rfl rfl (h.recordInitial hok rfl)
    | judge =>
      rw [DeepReviewTurnBudget.recordTaskForPacketWithFocus] at hok
      split_ifs at hok
      exact refines_of_charge rfl rfl rfl (h.recordJudge hok)

/-! ### Pages -/

theorem pages_insert (reviewer reviewer' : String) (pages : Finset String) :
    DeepReviewTurnBudget.pages { budget with
      reviewDiffReturnedPagesByReviewer :=
        budget.reviewDiffReturnedPagesByReviewer.insert reviewer pages } reviewer' =
      if reviewer' = reviewer then pages else budget.pages reviewer' := by
  rw [DeepReviewTurnBudget.pages, AssocMap.lookup_insert]
  split_ifs <;> rfl

/-- **Pages**: a page that was not returned before is charged. -/
theorem Synced.recordReviewDiffPage (h : Synced budget ledger alive)
    (turn reviewerId pageKey : String) (returnedChars now : ℕ) :
    Refines policy ledger alive (.recordReviewDiffPage reviewerId pageKey returnedChars)
      (Operation.onRecord policy turn budget now
        (.recordReviewDiffPage reviewerId pageKey returnedChars)) := by
  rw [Operation.onRecord, DeepReviewTurnBudget.recordReviewDiffPage]
  split_ifs with hpage hfull
  · refine ⟨nofun, h, nofun, nofun, fun page hmem => ?_⟩
    cases hmem
    exact (h.pages _ _).mp hpage
  · exact refines_of_none rfl rfl rfl (h.noted _ _ _ _ _ _ _ _)
  · -- no saturation below the limit
    have hchars : min (budget.reviewDiffReturnedChars + returnedChars) usizeMax =
        budget.reviewDiffReturnedChars + returnedChars := by
      have hle := not_lt.mp fun hlt => hfull (.inr hlt)
      refine min_eq_left (le_of_lt (lt_of_not_ge fun hge => ?_))
      rw [min_eq_right hge] at hle
      exact absurd hle (by decide)
    rw [hchars] at hfull ⊢
    refine refines_of_charge rfl rfl rfl ⟨⟨fun hmem => hpage ((h.pages _ _).mpr hmem), ?_⟩,
      h.judges, h.reviewers, h.started, h.retries, h.packets, h.questions,
      fun reviewer page => ?_, ?_, h.active, h.activePackets⟩
    · rw [← h.chars]
      exact not_lt.mp fun hlt => hfull (.inr hlt)
    · refine (iff_of_eq (congrArg (page ∈ ·) (pages_insert _ reviewer _))).trans ?_
      change _ ↔ (reviewer, page) ∈ (trim reviewerId, pageKey) :: ledger.returned
      rw [mem_cons, Prod.mk_inj]
      split_ifs with hreviewer
      · rw [Finset.mem_insert, h.pages, hreviewer, and_iff_right rfl]
      · rw [h.pages, or_iff_right fun hboth => hreviewer hboth.1]
    · rw [h.chars]
      exact Nat.add_comm _ _

/-! ### Guards -/

theorem Synced.begin (h : Synced budget ledger alive) (guard : DeepReviewActiveReviewerGuard)
    (batches : AssocMap ℕ ℕ) (now : ℕ) :
    Synced { budget with
      activeReviewers := budget.activeReviewers + 1
      activeReviewerLaunchBatches := batches
      activeReviewerPacketIds := budget.activeReviewerPacketIds ∪ guard.packetId.toFinset
      updatedAt := now } ledger (guard :: alive) := by
  refine ⟨h.judges, h.reviewers, h.started, h.retries, h.packets, h.questions, h.pages, h.chars,
    congrArg (· + 1) h.active, fun packet => ?_⟩
  rw [Finset.mem_union, Option.mem_toFinset, h.activePackets, Guards.packets, Guards.packets]
  cases hpacket : guard.packetId with
  | none =>
    rw [filterMap_cons_none hpacket]
    exact or_iff_left nofun
  | some packet' =>
    rw [filterMap_cons_some hpacket, mem_cons, Option.mem_some_iff, or_comm]
    exact or_congr_left eq_comm

theorem Synced.beginActiveReviewer (h : Synced budget ledger alive) (turn : String) (now : ℕ) :
    Synced (budget.beginActiveReviewer now) ledger (⟨turn, none, none⟩ :: alive) := by
  have hbegin := h.begin ⟨turn, none, none⟩ budget.activeReviewerLaunchBatches now
  rwa [show (none : Option String).toFinset = ∅ from rfl, Finset.union_empty] at hbegin

/-- **Launches**: a reviewer starts only while fewer than the bound are at work, and only on a
packet that no other works on. -/
theorem Synced.tryBeginActiveReviewerForLaunchBatch (h : Synced budget ledger alive) (turn : String)
    (maxActiveReviewers launchBatch : ℕ) (packetId : Option String) (now : ℕ) :
    Refines policy ledger alive
      (.tryBeginActiveReviewerForLaunchBatch maxActiveReviewers launchBatch packetId)
      (Operation.onRecord policy turn budget now
        (.tryBeginActiveReviewerForLaunchBatch maxActiveReviewers launchBatch packetId)) := by
  rw [Operation.onRecord, DeepReviewTurnBudget.tryBeginActiveReviewerForLaunchBatch]
  split_ifs with hpacket hmax
  · exact refines_of_none rfl rfl rfl h
  · exact refines_of_none rfl rfl rfl h
  · refine ⟨nofun, h.begin ⟨turn, some launchBatch, _⟩ _ _, fun guard hmem maxActive hmax' => ?_,
      fun guard hmem packet hguard hold => ?_, nofun⟩
    · cases hmax'
      rw [← h.active]
      exact not_le.mp hmax
    · cases hmem
      exact hpacket (isSome_filter_mem.mpr ⟨packet, hguard, (h.activePackets packet).mpr hold⟩)

theorem turn_of_onRecord {turn : String} {operation : Operation ρ} {now : ℕ}
    {guard : DeepReviewActiveReviewerGuard}
    (hguard : (operation.onRecord policy turn budget now).1.guard = some guard) :
    guard.parentDialogTurnId = turn := by
  cases operation with
  | recordTaskForPacketWithFocus role subagentType isRetry packetId focusedClaim =>
    rw [Operation.onRecord] at hguard
    split at hguard <;> cases hguard
  | recordReviewDiffPage => cases hguard
  | admitReviewProviderDiffAcquisition => cases hguard
  | recordReviewDiffLimitation => cases hguard
  | recordReviewTargetStale => cases hguard
  | recordConcurrencyCapRejection => cases hguard
  | recordCapacitySkip => cases hguard
  | measure => cases hguard
  | beginActiveReviewer =>
    cases hguard
    rfl
  | tryBeginActiveReviewer maxActiveReviewers =>
    rw [Operation.onRecord] at hguard
    split_ifs at hguard
    · cases hguard
    · cases hguard
      rfl
  | tryBeginActiveReviewerForLaunchBatch maxActiveReviewers launchBatch packetId =>
    rw [Operation.onRecord] at hguard
    split at hguard
    · cases hguard
    · cases hguard
    · cases hguard
      rfl

/-- **Every operation** on a synced record. -/
theorem Synced.onRecord (h : Synced budget ledger alive) (turn : String) (operation : Operation ρ)
    (now : ℕ) :
    Refines policy ledger alive operation (operation.onRecord policy turn budget now) := by
  have hbegin : ∀ operation : Operation ρ,
      operation.charge (.begun (some ⟨turn, none, none⟩)) = none →
      operation.repeated (.begun (some ⟨turn, none, none⟩)) = none →
      (∀ maxActive ∈ operation.maxActive, alive.length < maxActive) →
      Refines policy ledger alive operation
        (.begun (some ⟨turn, none, none⟩), budget.beginActiveReviewer now) := by
    intro operation hcharge hrepeated hmax
    refine ⟨?_, ?_, fun _ _ => hmax, fun guard hmem => ?_, ?_⟩
    · rw [hcharge]
      nofun
    · rw [hcharge]
      exact h.beginActiveReviewer turn now
    · cases hmem
      nofun
    · rw [hrepeated]
      nofun
  cases operation with
  | recordTaskForPacketWithFocus role subagentType isRetry packetId focusedClaim =>
    exact h.recordTaskForPacketWithFocus turn role subagentType isRetry packetId focusedClaim now
  | recordReviewDiffPage reviewerId pageKey returnedChars =>
    exact h.recordReviewDiffPage turn reviewerId pageKey returnedChars now
  | admitReviewProviderDiffAcquisition =>
    rw [Operation.onRecord, DeepReviewTurnBudget.admitReviewProviderDiffAcquisition]
    split_ifs
    · exact refines_of_none rfl rfl rfl (h.noted _ _ _ _ _ _ _ _)
    · exact refines_of_none rfl rfl rfl (h.noted _ _ _ _ _ _ _ _)
  | recordReviewDiffLimitation => exact refines_of_none rfl rfl rfl (h.noted _ _ _ _ _ _ _ _)
  | recordReviewTargetStale => exact refines_of_none rfl rfl rfl (h.noted _ _ _ _ _ _ _ _)
  | recordConcurrencyCapRejection => exact refines_of_none rfl rfl rfl (h.noted _ _ _ _ _ _ _ _)
  | recordCapacitySkip update => exact refines_of_none rfl rfl rfl (h.noted _ _ _ _ _ _ _ _)
  | measure prunes update => exact refines_of_none rfl rfl rfl (h.noted _ _ _ _ _ _ _ _)
  | beginActiveReviewer => exact hbegin _ rfl rfl nofun
  | tryBeginActiveReviewer maxActiveReviewers =>
    rw [Operation.onRecord]
    split_ifs with hmax
    · exact refines_of_none rfl rfl rfl h
    · refine hbegin _ rfl rfl fun maxActive hmem => ?_
      cases hmem
      rw [← h.active]
      exact not_le.mp hmax
  | tryBeginActiveReviewerForLaunchBatch maxActiveReviewers launchBatch packetId =>
    exact h.tryBeginActiveReviewerForLaunchBatch turn maxActiveReviewers launchBatch packetId now

/-- **The end of a reviewer**: its guard is gone. -/
theorem Synced.finishActiveReviewer (h : Synced budget ledger alive) (hnodup : alive.packets.Nodup)
    {guard : DeepReviewActiveReviewerGuard} (hmem : guard ∈ alive) (now : ℕ) :
    Synced (budget.finishActiveReviewer guard.launchBatch guard.packetId now) ledger
      (alive.erase guard) := by
  refine ⟨h.judges, h.reviewers, h.started, h.retries, h.packets, h.questions, h.pages, h.chars,
    ?_, fun packet => ?_⟩
  · rw [length_erase_of_mem hmem, ← h.active]
    rfl
  · have hperm := (perm_cons_erase hmem).filterMap DeepReviewActiveReviewerGuard.packetId
    change packet ∈ budget.activeReviewerPacketIds \ guard.packetId.toFinset ↔ _
    rw [Finset.mem_sdiff, Option.mem_toFinset, h.activePackets, Guards.packets, Guards.packets,
      hperm.mem_iff]
    rw [Guards.packets, hperm.nodup_iff] at hnodup
    cases hpacket : guard.packetId with
    | none =>
      rw [filterMap_cons_none hpacket]
      exact and_iff_left nofun
    | some packet' =>
      rw [filterMap_cons_some hpacket] at hnodup ⊢
      rw [mem_cons, Option.mem_some_iff]
      have hnot := (nodup_cons.mp hnodup).1
      refine ⟨fun hboth => hboth.1.resolve_left fun heq => hboth.2 heq.symm, fun hold => ⟨.inr hold,
        fun heq => ?_⟩⟩
      rw [heq] at hnot
      exact hnot hold

end DeepReview

end OpenBitFun
