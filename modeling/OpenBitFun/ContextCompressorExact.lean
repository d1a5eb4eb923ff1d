import Mathlib
import OpenBitFun.ContextCompressorCut

/-!
# A compaction cuts exactly

Whatever is appended while a summary is written, the rebased plan still splits the conversation
into what is summarized and what is kept, and no tool result is kept without its call. The planned
tail is the longest one within the target; the retained user messages are the longest suffix within
their budget.
-/

namespace OpenBitFun

open List

namespace Compaction

variable {A : Type} {estimate : Message A → ℕ} {messages messages' : List (Message A)}

/-! ## Tool exchanges -/

/-- The ids of the tool calls of a message. -/
def Message.callIds (m : Message A) : List String :=
  match m.content with
  | .mixed _ _ toolCalls => toolCalls.map ToolCall.toolId
  | _ => []

/-- The id of the tool call that a message answers. -/
def Message.resultId (m : Message A) : Option String :=
  match m.content with
  | .toolResult toolId _ _ _ _ _ => some toolId
  | _ => none

/-- `between` stands between a call and its result. -/
structure Exchanged (caller : Message A) (between : List (Message A)) (result : Message A) :
    Prop where
  caller_role : caller.role = .assistant
  /-- Reminders are user messages. -/
  caller_kept : caller.isDroppable = false
  calls : ∃ id ∈ caller.callIds, result.resultId = some id
  between_role : ∀ m ∈ between, m.role = .tool ∨ m.isDroppable

/-- Every tool result follows the assistant message that called it, with only tool results and
droppable reminders in between. -/
def Answered (messages : List (Message A)) : Prop :=
  ∀ before result after, messages = before ++ result :: after → result.role = .tool →
    ∃ before' caller between, before = before' ++ caller :: between ∧
      Exchanged caller between result

/-- The form of a session's messages. -/
structure WellFormed (messages : List (Message A)) : Prop where
  distinct : (messages.map Message.id).Nodup
  answered : Answered messages

/-- Dropping reminders leaves every exchange. -/
theorem Answered.filter (h : Answered messages) :
    Answered (messages.filter fun m => !m.isDroppable) := by
  intro before result after heq hrole
  obtain ⟨l, r, hmessages, hl, hr⟩ := filter_eq_append_iff.1 heq
  obtain ⟨l', r', rfl, hdropped, -, -⟩ := filter_eq_cons_iff.1 hr
  rw [← append_assoc] at hmessages
  obtain ⟨before', caller, between, hbefore, hex⟩ := h _ result r' hmessages hrole
  have hnone : l'.filter (fun m => !m.isDroppable) = [] := filter_eq_nil_iff.2 hdropped
  have hsplit : before = (l ++ l').filter fun m => !m.isDroppable := by
    rw [filter_append, hl, hnone, append_nil]
  refine ⟨before'.filter (fun m => !m.isDroppable), caller,
    between.filter (fun m => !m.isDroppable), ?_, hex.caller_role, hex.caller_kept, hex.calls,
    fun m hm => hex.between_role m (mem_of_mem_filter hm)⟩
  rw [hsplit, hbefore, filter_append, filter_cons_of_pos (by rw [hex.caller_kept]; rfl)]

/-- The part of a conversation behind a cut: the calls of its results are not before the cut. -/
theorem Answered.of_append (h : Answered (messages ++ messages'))
    (hkept : ∀ m ∈ messages', m.isDroppable = false)
    (hcut : ∀ before caller rest, messages = before ++ caller :: rest → caller.role = .assistant →
      (∀ m ∈ rest, m.role = .tool ∨ m.isDroppable) → ∀ m ∈ messages'.head?, m.role ≠ .tool) :
    Answered messages' := by
  rintro before result after rfl hrole
  obtain ⟨before', caller, between, hbefore, hex⟩ :=
    h (messages ++ before) result after (by rw [append_assoc]) hrole
  rcases append_eq_append_iff.1 hbefore with ⟨y, rfl, hy⟩ | ⟨y, hmessages, hbetween⟩
  · exact ⟨y, caller, between, hy, hex⟩
  · cases y with
    | nil => exact ⟨[], caller, between, hbetween.symm, hex⟩
    | cons c y =>
      -- the call would be before the cut, and only tool results up to the result
      rw [cons_append, List.cons.injEq] at hbetween
      obtain ⟨rfl, rfl⟩ := hbetween
      have hhead := hcut before' caller y hmessages hex.caller_role
        fun m hm => hex.between_role m (mem_append_left _ hm)
      cases before with
      | nil => exact absurd hrole (hhead result rfl)
      | cons m before =>
        rcases hex.between_role m (mem_append_right _ mem_cons_self) with htool | hdrop
        · exact absurd htool (hhead m rfl)
        · have := hkept m mem_cons_self
          rw [hdrop] at this
          cases this

theorem isDroppable_of_mem_canonical {m : Message A} (h : m ∈ canonicalConversation messages) :
    m.isDroppable = false := by
  have hmem := mem_filter.1 ((dropWhile_suffix _).subset h)
  simpa using hmem.2

/-- The conversation has the form of the messages. -/
theorem Answered.canonical (h : Answered messages) : Answered (canonicalConversation messages) := by
  have hfilter := h.filter
  rw [← takeWhile_append_dropWhile (p := fun m : Message A => decide (m.role = .system))
    (l := messages.filter fun m => !m.isDroppable)] at hfilter
  apply hfilter.of_append fun m hm => isDroppable_of_mem_canonical hm
  intro before caller rest heq hrole
  have hmem : caller ∈ (messages.filter fun m => !m.isDroppable).takeWhile
      fun m => decide (m.role = .system) := by
    rw [heq]
    exact mem_append_right _ mem_cons_self
  have hsystem := mem_takeWhile_imp hmem
  rw [decide_eq_true_eq, hrole] at hsystem
  cases hsystem

/-- A cut between exchanges keeps every call with its results. -/
theorem Answered.drop (h : Answered messages) (hkept : ∀ m ∈ messages, m.isDroppable = false)
    {cutoff : ℕ} (hparted : Parted (messages.take cutoff) (messages.drop cutoff)) :
    Answered (messages.drop cutoff) := by
  rw [← take_append_drop cutoff messages] at h
  apply h.of_append fun m hm => hkept m (mem_of_mem_drop hm)
  intro before caller rest heq hrole hrest m hm htool
  have hall : rest.all Message.followsExchange := by
    rw [all_eq_true]
    intro m' hm'
    rcases hrest m' hm' with htool' | hdrop
    · exact decide_eq_true htool'
    · have hmem : m' ∈ messages.take cutoff := by
        rw [heq]
        exact mem_append_right _ (mem_cons_of_mem _ hm')
      have := hkept m' (mem_of_mem_take hmem)
      rw [hdrop] at this
      cases this
  have hnot := hparted before caller rest heq (decide_eq_true hrole) hall m hm
  rw [Message.followsExchange, htool] at hnot
  cases hnot

/-! ## Tails -/

/-- A suffix made of whole exchanges that leaves out the first one. -/
def IsTail (conversation tail : List (Message A)) : Prop :=
  ∃ j, 1 ≤ j ∧ tail = ((exchanges conversation).drop j).flatten

/-- The longest tail within a target. -/
structure LongestTail (estimate : Message A → ℕ) (conversation : List (Message A)) (target : ℕ)
    (tail : List (Message A)) : Prop where
  isTail : IsTail conversation tail
  fits : tokenSum estimate tail ≤ target
  longest : ∀ tail', IsTail conversation tail' → tokenSum estimate tail' ≤ target →
    tail'.length ≤ tail.length

theorem length_flatten_drop_le {xs : List (List (Message A))} {j k : ℕ} (h : j ≤ k) :
    (xs.drop k).flatten.length ≤ (xs.drop j).flatten.length := by
  obtain ⟨i, rfl⟩ := Nat.exists_eq_add_of_le h
  have hsplit : xs.drop j = (xs.drop j).take i ++ xs.drop (j + i) := by
    rw [← drop_drop, take_append_drop]
  rw [hsplit, flatten_append, length_append]
  exact Nat.le_add_left _ _

variable {conversation : List (Message A)} {target j : ℕ} {next : Option ℕ}

/-- A cut that walked as far as it could leaves the longest tail. -/
theorem CutsBehind.longestTail (h : CutsBehind estimate (exchanges conversation) target j next) :
    LongestTail estimate conversation target ((exchanges conversation).drop j).flatten where
  isTail := ⟨j, h.pos, rfl⟩
  fits := h.fits
  longest := by
    rintro _ ⟨k, hk, rfl⟩ hfits
    rcases Nat.lt_or_ge k j with hlt | hge
    · rcases h.next with ⟨rfl, -⟩ | ⟨-, -, hover⟩
      · omega
      · have := @tailTokens_anti _ estimate (exchanges conversation) k (j - 1) (by omega)
        exact absurd (Nat.lt_of_lt_of_le hover (Nat.le_trans this hfits)) (Nat.lt_irrefl _)
    · exact length_flatten_drop_le hge

theorem CutsBehind.longer (h : CutsBehind estimate (exchanges conversation) target j next)
    (hj : 1 < j) : ((exchanges conversation).drop j).flatten.length <
      ((exchanges conversation).drop (j - 1)).flatten.length := by
  have hlt : j - 1 < (exchanges conversation).length := by
    have := h.le_length
    omega
  have hne : (exchanges conversation)[j - 1] ≠ [] := ne_nil_of_mem_groups (getElem_mem hlt)
  rw [drop_eq_getElem_cons hlt, flatten_cons, length_append,
    Nat.sub_add_cancel (Nat.le_of_lt hj)]
  exact Nat.lt_add_of_pos_left (length_pos_iff.2 hne)

/-- Exactly the targets from the next one on give a longer tail. -/
theorem CutsBehind.longer_iff (h : CutsBehind estimate (exchanges conversation) target j next)
    {target' : ℕ} {tail : List (Message A)}
    (htail : LongestTail estimate conversation target' tail) :
    ((exchanges conversation).drop j).flatten.length < tail.length ↔
      1 < j ∧ tailTokens estimate (exchanges conversation) (j - 1) ≤ target' := by
  refine ⟨fun hlonger => ?_, fun ⟨hj, hle⟩ => ?_⟩
  · obtain ⟨k, hk, rfl⟩ := htail.isTail
    have hlt : k < j := by
      apply Nat.lt_of_not_le
      intro hge
      exact absurd (length_flatten_drop_le hge) (Nat.not_le_of_lt hlonger)
    refine ⟨by omega, ?_⟩
    exact Nat.le_trans (tailTokens_anti (Nat.le_sub_one_of_lt hlt)) htail.fits
  · exact Nat.lt_of_lt_of_le (h.longer hj) (htail.longest _ ⟨j - 1, by omega, rfl⟩ hle)

theorem CutsBehind.next_eq_some (h : CutsBehind estimate (exchanges conversation) target j next)
    {target' : ℕ} : next = some target' ↔
      1 < j ∧ target' = tailTokens estimate (exchanges conversation) (j - 1) := by
  rcases h.next with ⟨rfl, rfl⟩ | ⟨hj, rfl, -⟩
  · exact ⟨fun hnone => (nomatch hnone), fun ⟨hlt, _⟩ => absurd hlt (Nat.lt_irrefl 1)⟩
  · rw [Option.some.injEq]
    exact ⟨fun heq => ⟨hj, heq.symm⟩, fun ⟨_, heq⟩ => heq.symm⟩

/-- There is no next target exactly if there is no longer tail. -/
theorem CutsBehind.next_eq_none (h : CutsBehind estimate (exchanges conversation) target j next) :
    next = none ↔ ∀ tail, IsTail conversation tail →
      tail.length ≤ ((exchanges conversation).drop j).flatten.length := by
  rcases h.next with ⟨rfl, rfl⟩ | ⟨hj, rfl, -⟩
  · refine ⟨fun _ => ?_, fun _ => rfl⟩
    rintro _ ⟨k, hk, rfl⟩
    exact length_flatten_drop_le hk
  · refine ⟨fun hnone => (nomatch hnone), fun hall => ?_⟩
    exact absurd (hall _ ⟨j - 1, by omega, rfl⟩) (Nat.not_le_of_lt (h.longer hj))

/-! ## Retained user messages -/

/-- The loop keeps messages as long as they fit. -/
theorem retainLoop_spec {tokenBudget : ℕ} (retained : List (Message A)) {retainedTokens : ℕ}
    (h : retainedTokens ≤ tokenBudget) (users : List (Message A)) : ∃ kept rest,
      users = kept ++ rest ∧
      (retainLoop estimate tokenBudget retained retainedTokens users).1 = kept.reverse ++ retained ∧
      retainedTokens + tokenSum estimate kept ≤ tokenBudget ∧
      ∀ m ∈ rest.head?, tokenBudget < retainedTokens + tokenSum estimate kept + estimate m := by
  induction users generalizing retained retainedTokens with
  | nil => exact ⟨[], [], rfl, rfl, h, fun m hm => nomatch hm⟩
  | cons m users ih =>
    rw [retainLoop]
    split
    · rename_i hover
      refine ⟨[], m :: users, rfl, rfl, h, ?_⟩
      intro m' hm'
      rw [head?_cons, Option.mem_some_iff] at hm'
      rw [← hm']
      exact hover
    · rename_i hunder
      obtain ⟨kept, rest, rfl, hloop, hfits, hover⟩ := ih (m :: retained) (Nat.le_of_not_lt hunder)
      have hsum : tokenSum estimate (m :: kept) = estimate m + tokenSum estimate kept := rfl
      refine ⟨m :: kept, rest, rfl, ?_, ?_, ?_⟩
      · rw [hloop, reverse_cons, append_assoc, singleton_append]
      · rw [hsum, ← Nat.add_assoc]
        exact hfits
      · rw [hsum, ← Nat.add_assoc]
        exact hover

/-- The longest suffix of some messages within a budget. -/
structure LongestSuffix (estimate : Message A → ℕ) (users : List (Message A)) (budget : ℕ)
    (retained : List (Message A)) : Prop where
  suffix : retained <:+ users
  fits : tokenSum estimate retained ≤ budget
  longest : ∀ other, other <:+ users → tokenSum estimate other ≤ budget →
    other.length ≤ retained.length

theorem tokenSum_reverse (messages : List (Message A)) :
    tokenSum estimate messages.reverse = tokenSum estimate messages := by
  rw [tokenSum, map_reverse, sum_reverse]
  rfl

theorem retainHistoricalUserMessages_longest (summaryMessages : List (Message A))
    (tokenBudget : ℕ) :
    LongestSuffix estimate (summaryMessages.filter Message.isActualUserMessage) tokenBudget
      (retainHistoricalUserMessages estimate summaryMessages tokenBudget).1 := by
  obtain ⟨kept, rest, husers, hloop, hfits, hover⟩ := @retainLoop_spec _ estimate tokenBudget [] 0
    (Nat.zero_le _) (summaryMessages.reverse.filter Message.isActualUserMessage)
  rw [filter_reverse, reverse_eq_iff, reverse_append] at husers
  rw [append_nil] at hloop
  rw [Nat.zero_add] at hfits hover
  rw [retainHistoricalUserMessages, hloop, husers]
  refine ⟨suffix_append _ _, by rwa [tokenSum_reverse], ?_⟩
  rintro other ⟨before, hother⟩ hbudget
  rcases append_eq_append_iff.1 hother with ⟨y, hrest, rfl⟩ | ⟨y, -, hkept⟩
  · rcases eq_nil_or_concat' y with rfl | ⟨y, m, rfl⟩
    · exact Nat.le_refl _
    · -- the newest message that was not kept would be too much
      have hhead : m ∈ rest.head? := by
        rw [← reverse_reverse rest, hrest, ← append_assoc, reverse_append]
        exact rfl
      have hm := hover m hhead
      have hsum : tokenSum estimate [m] = estimate m := rfl
      rw [tokenSum_append, tokenSum_append, hsum, tokenSum_reverse] at hbudget
      omega
  · rw [hkept, length_append]
    exact Nat.le_add_left _ _

/-! ## The whole compaction -/

/-- **A compaction cuts exactly.** A rebased plan splits the grown conversation, and no tool result
of the tail has its call in the summarized prefix. The planned tail is the longest within the
target, the next target is the smallest one with a longer tail, and the retained user messages are
the longest suffix within a tenth of the context window and 20000 tokens. -/
theorem compaction_exact {currentTurnId : Option String} {runtimeMessages appended :
    List (Message A)} {contextWindow recentTargetTokens : ℕ} {plan : CompressionPlan A}
    (hwell : WellFormed (runtimeMessages ++ appended))
    (hplan : planCompressionInternal estimate currentTurnId runtimeMessages contextWindow
      recentTargetTokens = some plan) :
    (∀ turnId rebased,
      rebasePlan estimate plan (runtimeMessages ++ appended) turnId = some rebased →
        rebased.summaryMessages ++ rebased.recentTailMessages =
          canonicalConversation (runtimeMessages ++ appended) ∧
        Answered rebased.recentTailMessages) ∧
    plan.summaryMessages ++ plan.recentTailMessages = canonicalConversation runtimeMessages ∧
    LongestTail estimate (canonicalConversation runtimeMessages) recentTargetTokens
      plan.recentTailMessages ∧
    (∀ target, plan.nextRecentTargetTokens = some target ↔
      IsLeast {target | ∃ plan', planCompressionInternal estimate currentTurnId runtimeMessages
        contextWindow target = some plan' ∧
          plan.recentTailMessages.length < plan'.recentTailMessages.length} target) ∧
    (plan.nextRecentTargetTokens = none ↔ ∀ tail, IsTail (canonicalConversation runtimeMessages)
      tail → tail.length ≤ plan.recentTailMessages.length) ∧
    LongestSuffix estimate (plan.summaryMessages.filter Message.isActualUserMessage)
      (min (contextWindow / 10) 20000) plan.retainedUserMessages := by
  have hspec := fun target => @planCompressionInternal_spec _ estimate currentTurnId
    runtimeMessages contextWindow target
  obtain ⟨j, hcuts⟩ := exists_cuts hplan
  have hne := hcuts.conversation_ne_nil
  have hwhole := hcuts.whole
  refine ⟨?_, hwhole, ?_, ?_, ?_, ?_⟩
  · intro turnId rebased hrebased
    obtain ⟨hsummary, -, htail, hparted, -⟩ := rebasePlan_spec hrebased
    have hgrown := canonicalConversation_append hne appended
    have htake : (canonicalConversation (runtimeMessages ++ appended)).take
        plan.summaryMessages.length = plan.summaryMessages := by
      rw [hgrown, ← hwhole, append_assoc]
      exact take_left
    rw [hsummary, htail]
    refine ⟨?_, hwell.answered.canonical.drop (fun m hm => isDroppable_of_mem_canonical hm)
      hparted⟩
    calc plan.summaryMessages ++ (canonicalConversation (runtimeMessages ++ appended)).drop
          plan.summaryMessages.length
      _ = (canonicalConversation (runtimeMessages ++ appended)).take plan.summaryMessages.length ++
          (canonicalConversation (runtimeMessages ++ appended)).drop
            plan.summaryMessages.length := by rw [htake]
      _ = canonicalConversation (runtimeMessages ++ appended) := take_append_drop _ _
  · rw [hcuts.recentTailMessages]
    exact hcuts.cut.longestTail
  · intro target
    have hset : {target | ∃ plan', planCompressionInternal estimate currentTurnId runtimeMessages
        contextWindow target = some plan' ∧
          plan.recentTailMessages.length < plan'.recentTailMessages.length} =
        {target | 1 < j ∧ tailTokens estimate
          (exchanges (canonicalConversation runtimeMessages)) (j - 1) ≤ target} := by
      ext target
      rcases hspec target with ⟨hnone, -⟩ | ⟨plan', j', hplan', hcuts'⟩
      · exact absurd hnone hne
      · have hlonger := hcuts.cut.longer_iff hcuts'.cut.longestTail
        rw [← hcuts.recentTailMessages, ← hcuts'.recentTailMessages] at hlonger
        rw [Set.mem_ofPred_eq, Set.mem_ofPred_eq, ← hlonger]
        refine ⟨?_, fun hlt => ⟨plan', hplan', hlt⟩⟩
        rintro ⟨plan'', hplan'', hlt⟩
        rw [hplan', Option.some.injEq] at hplan''
        rwa [hplan'']
    rw [hset, hcuts.cut.next_eq_some]
    refine ⟨?_, fun hleast => ?_⟩
    · rintro ⟨hj, rfl⟩
      exact ⟨⟨hj, Nat.le_refl _⟩, fun _ ht => ht.2⟩
    · obtain ⟨hj, hle⟩ := hleast.1
      exact ⟨hj, Nat.le_antisymm (hleast.2 ⟨hj, Nat.le_refl _⟩) hle⟩
  · rw [hcuts.recentTailMessages]
    exact hcuts.cut.next_eq_none
  · rw [hcuts.retained]
    exact retainHistoricalUserMessages_longest _ _

/-- A question, a tool call and its result. -/
def oneCall : List (Message Unit) :=
  [.user "question" "Which files are there?",
    ⟨"call", .assistant, .mixed none "" [⟨"ls", "Bash", .null, none, false⟩], none, none, none,
      none⟩,
    ⟨"result", .tool, .toolResult "ls" "Bash" .null none false none, none, none, none, none⟩]

/-- The answer, appended while the summary is written. -/
def oneAnswer : List (Message Unit) :=
  [⟨"answer", .assistant, .text "None.", none, none, none, none⟩]

theorem wellFormed_oneCall : WellFormed (oneCall ++ oneAnswer) where
  distinct := by decide
  answered := by
    intro before result after heq hrole
    rcases before with _ | ⟨a, _ | ⟨b, _ | ⟨c, _ | ⟨d, before⟩⟩⟩⟩
    · cases heq
      cases hrole
    · cases heq
      cases hrole
    · cases heq
      exact ⟨[_], _, [], rfl, rfl, rfl, ⟨"ls", mem_cons_self, rfl⟩, fun m hm => nomatch hm⟩
    · cases heq
      cases hrole
    · have hlength := congrArg List.length heq
      simp only [oneCall, oneAnswer, length_append, length_cons, length_nil]
        at hlength
      omega

/-- The call and its result are cut off together, or not at all. -/
theorem compaction_exact_oneCall : ∃ plan,
    planCompression (fun _ : Message Unit => 1) oneCall 128000 1 = some plan ∧
    plan.summaryMessages ++ plan.recentTailMessages = oneCall ∧
    ∀ rebased, rebasePlan (fun _ => 1) plan (oneCall ++ oneAnswer) "turn" = some rebased →
      rebased.summaryMessages ++ rebased.recentTailMessages = oneCall ++ oneAnswer ∧
      Answered rebased.recentTailMessages := by
  rcases @planCompressionInternal_spec Unit (fun _ => 1) none oneCall 128000 1 with
    ⟨hnone, -⟩ | ⟨plan, j, hplan, -⟩
  · exact absurd hnone (cons_ne_nil _ _)
  · obtain ⟨hrebased, hwhole, -⟩ := compaction_exact wellFormed_oneCall hplan
    have hcall : canonicalConversation oneCall = oneCall := rfl
    have hanswer : canonicalConversation (oneCall ++ oneAnswer) = oneCall ++ oneAnswer := rfl
    rw [hcall] at hwhole
    rw [hanswer] at hrebased
    exact ⟨plan, hplan, hwhole, fun rebased h => hrebased "turn" rebased h⟩

end Compaction

end OpenBitFun
