import OpenBitFun.ContextCompressor
import OpenBitFun.Groups

/-!
# Where a compaction cuts

The atomic units of the compressor are the groups of the conversation: an assistant message with
the tool results behind it, or any other message alone. A plan cuts behind a number of groups, at
least one, and a rebased plan still does. The loop that finds the cut walks back over the groups as
long as their tokens fit.
-/

namespace OpenBitFun

open List

namespace Compaction

variable {A : Type} {estimate : Message A → ℕ} {messages : List (Message A)}

/-- The message may have tool results behind it. -/
def Message.opensExchange (m : Message A) : Bool := m.role = .assistant

/-- The message belongs to the exchange before it. -/
def Message.followsExchange (m : Message A) : Bool := m.role = .tool

/-- The exchanges of a conversation. -/
def exchanges (messages : List (Message A)) : List (List (Message A)) :=
  groups Message.opensExchange Message.followsExchange messages

/-- No exchange of the first part goes on in the second one. -/
abbrev Parted (messages messages' : List (Message A)) : Prop :=
  Parts Message.opensExchange Message.followsExchange messages messages'

/-! ## Units -/

/-- The units of some exchanges, from an index on. -/
def unitsOf (estimate : Message A → ℕ) (start : ℕ) :
    List (List (Message A)) → List AtomicMessageUnit
  | [] => []
  | exchange :: rest =>
    ⟨start, tokenSum estimate exchange⟩ :: unitsOf estimate (start + exchange.length) rest

theorem atomicMessageUnitsFrom_eq (start : ℕ) (messages : List (Message A)) :
    atomicMessageUnitsFrom estimate start messages =
      unitsOf estimate start (exchanges messages) := by
  rw [exchanges]
  induction messages using groups_induction Message.opensExchange Message.followsExchange
    generalizing start with
  | nil => rw [atomicMessageUnitsFrom, groups_nil, unitsOf]
  | single m messages hm ih =>
    have hrole : m.role ≠ .assistant := by simpa [Message.opensExchange] using hm
    rw [atomicMessageUnitsFrom, groups_cons_of_not hm, unitsOf]
    simp only [hrole, if_false, length_nil, drop_zero, ih]
  | opened m messages hm ih =>
    have hrole : m.role = .assistant := by simpa [Message.opensExchange] using hm
    have hfollows : (fun m : Message A => decide (m.role = .tool)) = Message.followsExchange := rfl
    rw [atomicMessageUnitsFrom, groups_cons_of_opens hm, unitsOf]
    simp only [hrole, if_true, hfollows, drop_length_takeWhile, ih]

theorem atomicMessageUnits_eq (messages : List (Message A)) :
    atomicMessageUnits estimate messages = unitsOf estimate 0 (exchanges messages) :=
  atomicMessageUnitsFrom_eq 0 messages

theorem unitsOf_append (start : ℕ) (xs ys : List (List (Message A))) :
    unitsOf estimate start (xs ++ ys) =
      unitsOf estimate start xs ++ unitsOf estimate (start + xs.flatten.length) ys := by
  induction xs generalizing start with
  | nil => rfl
  | cons x xs ih =>
    rw [cons_append, unitsOf, unitsOf, ih, flatten_cons, length_append,
      Nat.add_assoc, cons_append]

/-- Units start behind a number of exchanges. -/
theorem exists_of_mem_unitsOf {start : ℕ} {xs : List (List (Message A))}
    {unit : AtomicMessageUnit} (h : unit ∈ unitsOf estimate start xs) :
    ∃ j, unit.start = start + (xs.take j).flatten.length := by
  induction xs generalizing start with
  | nil => cases h
  | cons x xs ih =>
    rw [unitsOf, mem_cons] at h
    rcases h with rfl | h
    · exact ⟨0, rfl⟩
    · obtain ⟨j, hj⟩ := ih h
      refine ⟨j + 1, ?_⟩
      rw [hj, take_succ_cons, flatten_cons, length_append, Nat.add_assoc]

/-! ## Boundaries -/

/-- A conversation between its exchanges. -/
theorem take_drop_exchanges (messages : List (Message A)) (j : ℕ) :
    messages.take ((exchanges messages).take j).flatten.length =
        ((exchanges messages).take j).flatten ∧
      messages.drop ((exchanges messages).take j).flatten.length =
        ((exchanges messages).drop j).flatten := by
  have hsplit : ((exchanges messages).take j).flatten ++ ((exchanges messages).drop j).flatten =
      messages := by
    rw [← flatten_append, take_append_drop, exchanges, flatten_groups]
  have hparts : ∀ {l x y : List (Message A)}, x ++ y = l →
      l.take x.length = x ∧ l.drop x.length = y := by
    rintro _ x y rfl
    exact ⟨take_left, drop_left⟩
  exact hparts hsplit

/-- What `rebase_plan` checks makes a cut between exchanges. -/
theorem parted_of_boundary {cutoff : ℕ} (h : messages.length ≤ cutoff ∨
    (atomicMessageUnits estimate messages).any fun unit => unit.start = cutoff) :
    Parted (messages.take cutoff) (messages.drop cutoff) := by
  rcases h with h | h
  · rw [drop_of_length_le h]
    exact parts_of_head? (by simp) _
  · obtain ⟨unit, hunit, hstart⟩ := any_eq_true.1 h
    rw [atomicMessageUnits_eq] at hunit
    obtain ⟨j, hj⟩ := exists_of_mem_unitsOf hunit
    rw [decide_eq_true_eq, hj, Nat.zero_add] at hstart
    obtain ⟨htake, hdrop⟩ := take_drop_exchanges messages j
    rw [← hstart, htake, hdrop]
    exact parts_groups messages j

/-! ## The cut -/

theorem tokenSum_append (messages messages' : List (Message A)) :
    tokenSum estimate (messages ++ messages') =
      tokenSum estimate messages + tokenSum estimate messages' := by
  rw [tokenSum, map_append, sum_append]
  rfl

/-- The tokens of the exchanges behind a number of them. -/
def tailTokens (estimate : Message A → ℕ) (xs : List (List (Message A))) (j : ℕ) : ℕ :=
  tokenSum estimate (xs.drop j).flatten

theorem tailTokens_eq {xs : List (List (Message A))} {j : ℕ} (h : j < xs.length) :
    tailTokens estimate xs j = tokenSum estimate xs[j] + tailTokens estimate xs (j + 1) := by
  rw [tailTokens, drop_eq_getElem_cons h, flatten_cons, tokenSum_append]
  rfl

theorem tailTokens_anti {xs : List (List (Message A))} {j k : ℕ} (h : j ≤ k) :
    tailTokens estimate xs k ≤ tailTokens estimate xs j := by
  induction k, h using Nat.le_induction with
  | base => exact Nat.le_refl _
  | succ k _ ih =>
    apply Nat.le_trans _ ih
    rcases Nat.lt_or_ge k xs.length with hlt | hge
    · rw [tailTokens_eq hlt]
      exact Nat.le_add_left _ _
    · rw [tailTokens, tailTokens, drop_of_length_le hge,
        drop_of_length_le (Nat.le_succ_of_le hge)]

/-- A cut behind `j` exchanges: not before the first one, within the target, and one exchange more
would be too much. -/
structure CutsBehind (estimate : Message A → ℕ) (xs : List (List (Message A))) (target j : ℕ)
    (next : Option ℕ) : Prop where
  pos : 1 ≤ j
  le_length : j ≤ xs.length
  fits : tailTokens estimate xs j ≤ target
  next : (j = 1 ∧ next = none) ∨
    (1 < j ∧ next = some (tailTokens estimate xs (j - 1)) ∧ target < tailTokens estimate xs (j - 1))

/-- The loop, before it has looked at the first `i` exchanges. -/
theorem cutLoop_spec {xs : List (List (Message A))} (hne : ∀ x ∈ xs, x ≠ []) {target : ℕ} (i : ℕ)
    (hpos : 1 ≤ i) (hle : i ≤ xs.length) (hfits : tailTokens estimate xs i ≤ target) :
    ∃ j next, cutLoop (xs.take 1).flatten.length target (xs.take i).flatten.length
        (tailTokens estimate xs i) (unitsOf estimate 0 (xs.take i)).reverse =
          ((xs.take j).flatten.length, next) ∧
      CutsBehind estimate xs target j next := by
  induction i, hpos using Nat.le_induction with
  | base =>
    obtain ⟨x, xs, rfl⟩ := exists_cons_of_length_pos hle
    have hx : 0 < x.length := length_pos_iff.2 (hne x mem_cons_self)
    refine ⟨1, none, ?_, ⟨Nat.le_refl 1, hle, hfits, .inl ⟨rfl, rfl⟩⟩⟩
    simp only [take_succ_cons, take_zero, unitsOf, reverse_singleton, cutLoop,
      flatten_singleton, hx, if_true]
  | succ i hpos ih =>
    have hunits : (unitsOf estimate 0 (xs.take (i + 1))).reverse =
        ⟨(xs.take i).flatten.length, tokenSum estimate xs[i]⟩ ::
          (unitsOf estimate 0 (xs.take i)).reverse := by
      rw [take_succ_eq_append_getElem hle, unitsOf_append, reverse_append, Nat.zero_add]
      rfl
    have hstart : ¬(xs.take i).flatten.length < (xs.take 1).flatten.length := by
      have hinit : xs.take 1 <+: xs.take i := (take_prefix_take_left hpos)
      obtain ⟨rest, hrest⟩ := hinit
      rw [← hrest, flatten_append, length_append]
      omega
    have htokens := @tailTokens_eq _ estimate _ _ hle
    rw [hunits, cutLoop, if_neg hstart]
    dsimp only
    rw [Nat.add_comm (tailTokens estimate xs (i + 1)), ← htokens]
    split
    · rename_i hover
      exact ⟨i + 1, _, rfl, ⟨Nat.le_add_left 1 i, hle, hfits, .inr ⟨by omega, rfl, hover⟩⟩⟩
    · rename_i hunder
      exact ih (Nat.le_of_succ_le hle) (Nat.le_of_not_lt hunder)

/-! ## Plans -/

theorem canonicalConversation_eq (runtimeMessages : List (Message A)) :
    (runtimeMessages.filter fun m => !m.isDroppable).drop
      ((runtimeMessages.filter fun m => !m.isDroppable).takeWhile
        fun m => m.role = .system).length = canonicalConversation runtimeMessages :=
  drop_length_takeWhile _ _

/-- What a plan says of its conversation. -/
structure CompressionPlan.Cuts (estimate : Message A → ℕ) (plan : CompressionPlan A)
    (currentTurnId : Option String) (conversation : List (Message A))
    (contextWindow recentTargetTokens j : ℕ) : Prop where
  summaryMessages : plan.summaryMessages = ((exchanges conversation).take j).flatten
  recentTailMessages : plan.recentTailMessages = ((exchanges conversation).drop j).flatten
  cut : CutsBehind estimate (exchanges conversation) recentTargetTokens j
    plan.nextRecentTargetTokens
  retained : plan.retainedUserMessages = (retainHistoricalUserMessages estimate
    plan.summaryMessages (min (contextWindow / 10) MAX_RETAINED_USER_TOKENS)).1
  checkpoint : plan.currentTurnTodoCheckpoint = currentTurnId.bind
    (checkpointBefore conversation plan.summaryMessages.length)

section Cuts

variable {plan : CompressionPlan A} {currentTurnId : Option String}
  {conversation : List (Message A)} {contextWindow recentTargetTokens j : ℕ}

theorem CompressionPlan.Cuts.conversation_ne_nil (h : plan.Cuts estimate currentTurnId
    conversation contextWindow recentTargetTokens j) : conversation ≠ [] := by
  intro hnone
  have hle := Nat.le_trans h.cut.pos h.cut.le_length
  rw [hnone, exchanges, groups_nil] at hle
  cases hle

theorem CompressionPlan.Cuts.whole (h : plan.Cuts estimate currentTurnId
    conversation contextWindow recentTargetTokens j) :
    plan.summaryMessages ++ plan.recentTailMessages = conversation := by
  rw [h.summaryMessages, h.recentTailMessages, ← flatten_append, take_append_drop,
    exchanges, flatten_groups]

end Cuts

/-- The first exchange is always summarized. -/
theorem minimumCutoff_unitsOf {conversation : List (Message A)} (h : conversation ≠ []) :
    minimumCutoff (unitsOf estimate 0 (exchanges conversation)) conversation =
      ((exchanges conversation).take 1).flatten.length := by
  have hflatten : (exchanges conversation).flatten = conversation := flatten_groups conversation
  generalize exchanges conversation = xs at hflatten ⊢
  subst hflatten
  match xs with
  | [] => exact absurd rfl h
  | [x] => rfl
  | x :: y :: xs =>
    simp only [minimumCutoff, unitsOf, getElem?_cons_succ, getElem?_cons_zero,
      Nat.zero_add, take_succ_cons, take_zero, flatten_singleton]

/-- There is a plan for every conversation, and it cuts behind some exchanges. -/
theorem planCompressionInternal_spec (currentTurnId : Option String)
    (runtimeMessages : List (Message A)) (contextWindow recentTargetTokens : ℕ) :
    (canonicalConversation runtimeMessages = [] ∧ planCompressionInternal estimate currentTurnId
      runtimeMessages contextWindow recentTargetTokens = none) ∨
    ∃ plan j, planCompressionInternal estimate currentTurnId runtimeMessages contextWindow
        recentTargetTokens = some plan ∧
      plan.Cuts estimate currentTurnId (canonicalConversation runtimeMessages) contextWindow
        recentTargetTokens j := by
  rw [planCompressionInternal]
  simp only [canonicalConversation_eq]
  generalize canonicalConversation runtimeMessages = conversation
  by_cases hempty : conversation = []
  · left
    rw [if_pos (by rw [hempty]; rfl)]
    exact ⟨hempty, rfl⟩
  · right
    have hflatten : (exchanges conversation).flatten = conversation := flatten_groups conversation
    have hne : ∀ x ∈ exchanges conversation, x ≠ [] := fun x hx => ne_nil_of_mem_groups hx
    have hpos : 1 ≤ (exchanges conversation).length := by
      apply length_pos_iff.2
      intro hnone
      rw [hnone] at hflatten
      exact hempty hflatten.symm
    have hfits : tailTokens estimate (exchanges conversation) (exchanges conversation).length ≤
        recentTargetTokens := by
      rw [tailTokens, drop_length]
      exact Nat.zero_le _
    obtain ⟨j, next, hloop, hcut⟩ := cutLoop_spec hne _ hpos (Nat.le_refl _) hfits
    have hzero : tailTokens estimate (exchanges conversation) (exchanges conversation).length =
        0 := by
      rw [tailTokens, drop_length]
      rfl
    rw [take_length, hflatten, hzero] at hloop
    obtain ⟨htake, hdrop⟩ := take_drop_exchanges conversation j
    have hsummary : (conversation.take ((exchanges conversation).take j).flatten.length) ≠ [] := by
      rw [htake]
      obtain ⟨x, hx⟩ := exists_mem_of_length_pos (l := (exchanges conversation).take j) (by
        rw [length_take]
        exact Nat.lt_min.2 ⟨hcut.pos, hpos⟩)
      obtain ⟨m, hm⟩ := exists_mem_of_ne_nil x (hne x (mem_of_mem_take hx))
      exact ne_nil_of_mem (mem_flatten_of_mem hx hm)
    rw [if_neg (by simpa using hempty), atomicMessageUnits_eq, minimumCutoff_unitsOf hempty]
    simp only [hloop]
    rw [if_neg (by simpa using hsummary)]
    refine ⟨_, j, rfl, htake, hdrop, hcut, rfl, ?_⟩
    dsimp only
    rw [htake]

/-- Every plan cuts behind some exchanges. -/
theorem exists_cuts {currentTurnId : Option String} {runtimeMessages : List (Message A)}
    {contextWindow recentTargetTokens : ℕ} {plan : CompressionPlan A}
    (h : planCompressionInternal estimate currentTurnId runtimeMessages contextWindow
      recentTargetTokens = some plan) :
    ∃ j, plan.Cuts estimate currentTurnId (canonicalConversation runtimeMessages) contextWindow
      recentTargetTokens j := by
  rcases @planCompressionInternal_spec _ estimate currentTurnId runtimeMessages contextWindow
    recentTargetTokens with ⟨-, hnone⟩ | ⟨plan', j, hplan', hcuts⟩
  · rw [hnone] at h
    cases h
  · rw [hplan', Option.some.injEq] at h
    exact ⟨j, h ▸ hcuts⟩

/-- What a rebased plan says of the conversation that has grown. -/
structure CompressionPlan.Rebases (rebased plan : CompressionPlan A)
    (conversation : List (Message A)) (currentTurnId : String) : Prop where
  summaryMessages : rebased.summaryMessages = plan.summaryMessages
  retained : rebased.retainedUserMessages = plan.retainedUserMessages
  recentTailMessages : rebased.recentTailMessages =
    conversation.drop plan.summaryMessages.length
  parted : Parted (conversation.take plan.summaryMessages.length)
    (conversation.drop plan.summaryMessages.length)
  checkpoint : rebased.currentTurnTodoCheckpoint =
    checkpointBefore conversation plan.summaryMessages.length currentTurnId

theorem rebasePlan_spec {plan rebased : CompressionPlan A} {runtimeMessages : List (Message A)}
    {currentTurnId : String}
    (h : rebasePlan estimate plan runtimeMessages currentTurnId = some rebased) :
    rebased.Rebases plan (canonicalConversation runtimeMessages) currentTurnId := by
  rw [rebasePlan] at h
  split at h
  · cases h
  · rename_i hvalid
    rw [Bool.or_eq_true, not_or, Bool.and_eq_true, not_and, Bool.not_eq_true',
      Bool.not_eq_false] at hvalid
    rw [Option.some.injEq] at h
    subst h
    refine ⟨rfl, rfl, rfl, ?_, rfl⟩
    apply @parted_of_boundary _ estimate
    rcases Nat.lt_or_ge plan.summaryMessages.length
      (canonicalConversation runtimeMessages).length with hlt | hge
    · exact .inr (by simpa using hvalid.2 (decide_eq_true hlt))
    · exact .inl hge

/-- A conversation only grows at its end. -/
theorem canonicalConversation_append {runtimeMessages : List (Message A)}
    (h : canonicalConversation runtimeMessages ≠ []) (appended : List (Message A)) :
    canonicalConversation (runtimeMessages ++ appended) =
      canonicalConversation runtimeMessages ++ appended.filter fun m => !m.isDroppable := by
  rw [canonicalConversation, filter_append, dropWhile_append, if_neg]
  · rfl
  · simpa [canonicalConversation] using h

end Compaction

end OpenBitFun
