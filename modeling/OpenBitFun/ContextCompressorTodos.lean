import OpenBitFun.ContextCompressorExact
import OpenBitFun.Run

/-!
# The current task list survives compaction

Next to the context of a turn we keep its full history, as it would be had nothing ever been
compacted. Both determine the same latest todo list: if it was written in the tail, it is still
there; if it was summarized, the summary carries it in front of the tail. So one compaction keeps
the latest todo list of a conversation (`CompressionPlan.Rebases.latest`), and a run keeps it by
induction.
-/

namespace OpenBitFun

open List

namespace Compaction

variable {A : Type} {estimate : Message A → ℕ} {messages messages' : List (Message A)}
  {turnId : String}

/-! ## The todo lists of a conversation -/

/-- The todo lists found at a message. -/
def foundAt (turnId : String) (m : Message A) (following : List (Message A)) :
    List CompressedTodoSnapshot :=
  payloadSnapshots turnId m ++ callSnapshots turnId m following

/-- The todo lists found in some messages, oldest first. -/
def found (turnId : String) : List (Message A) → List CompressedTodoSnapshot
  | [] => []
  | m :: messages => foundAt turnId m messages ++ found turnId messages

theorem foldl_latest (index : ℕ) (snapshots : List CompressedTodoSnapshot)
    (latest : Option (ℕ × CompressedTodoSnapshot)) :
    snapshots.foldl (fun _ snapshot => some (index, snapshot)) latest =
      (snapshots.getLast?.map (index, ·)).or latest := by
  rcases eq_nil_or_concat' snapshots with rfl | ⟨before, last, rfl⟩
  · rfl
  · rw [foldl_append, getLast?_concat]
    rfl

theorem latestFrom_cons (index : ℕ) (latest : Option (ℕ × CompressedTodoSnapshot))
    (m : Message A) (messages : List (Message A)) :
    latestFrom turnId index latest (m :: messages) = latestFrom turnId (index + 1)
      (((foundAt turnId m messages).getLast?.map (index, ·)).or latest) messages := by
  rw [latestFrom, ← foldl_append, foldl_latest]
  rfl

/-- The loop returns the last todo list that is found, at an index of its messages. -/
theorem latestFrom_spec (index : ℕ) (latest : Option (ℕ × CompressedTodoSnapshot))
    (messages : List (Message A)) :
    (found turnId messages = [] ∧ latestFrom turnId index latest messages = latest) ∨
      ∃ k snapshot, index ≤ k ∧ k < index + messages.length ∧
        (found turnId messages).getLast? = some snapshot ∧
        latestFrom turnId index latest messages = some (k, snapshot) := by
  induction messages generalizing index latest with
  | nil => exact .inl ⟨rfl, rfl⟩
  | cons m messages ih =>
    rw [latestFrom_cons, found, length_cons]
    rcases ih (index + 1) (((foundAt turnId m messages).getLast?.map (index, ·)).or latest) with
      ⟨hnone, hrest⟩ | ⟨k, snapshot, hle, hlt, hlast, hrest⟩
    · rw [hrest, hnone, append_nil]
      cases hfound : (foundAt turnId m messages).getLast? with
      | none => exact .inl ⟨getLast?_eq_none_iff.1 hfound, rfl⟩
      | some snapshot => exact .inr ⟨index, snapshot, by omega, by omega, rfl, rfl⟩
    · refine .inr ⟨k, snapshot, by omega, by omega, ?_, hrest⟩
      rw [getLast?_append, hlast]
      rfl

/-- The latest todo list of a conversation. -/
theorem latestSuccessful_snapshot (turnId : String) (messages : List (Message A)) :
    (latestSuccessfulTodoSnapshotForTurn messages turnId).map Prod.snd =
      (found turnId messages).getLast? := by
  rw [latestSuccessfulTodoSnapshotForTurn]
  rcases @latestFrom_spec _ turnId 0 none messages with
    ⟨hnone, hlatest⟩ | ⟨k, snapshot, -, -, hlast, hlatest⟩
  · rw [hlatest, hnone]
    rfl
  · rw [hlatest, hlast]
    rfl

/-- Tool results are looked for in the exchange of their call only. -/
theorem callSnapshots_append {m : Message A}
    (h : Parted (m :: messages) messages') :
    callSnapshots turnId m (messages ++ messages') = callSnapshots turnId m messages := by
  by_cases hrole : m.role = .assistant
  · have htake := h.takeWhile (nil_append _).symm (decide_eq_true hrole)
    have hresult : ∀ call : ToolCall, successfulResult call (messages ++ messages') =
        successfulResult call messages := by
      intro call
      rw [successfulResult, successfulResult]
      exact congrArg _ htake
    have hcall : (callSnapshot (messages ++ messages') : ToolCall → _) = callSnapshot messages := by
      funext call
      rw [callSnapshot, callSnapshot, hresult]
    rw [callSnapshots, callSnapshots, hcall]
  · rw [callSnapshots, callSnapshots, if_pos (.inl hrole), if_pos (.inl hrole)]

/-- Between exchanges, the todo lists are found on both sides separately. -/
theorem found_append (h : Parted messages messages') :
    found turnId (messages ++ messages') = found turnId messages ++ found turnId messages' := by
  induction messages with
  | nil => rfl
  | cons m messages ih =>
    rw [cons_append, found, found, ih h.tail, foundAt, foundAt, callSnapshots_append h,
      append_assoc, append_assoc, append_assoc]

/-- The loop over a conversation cut between exchanges. -/
theorem latestFrom_append (index : ℕ) (latest : Option (ℕ × CompressedTodoSnapshot))
    (h : Parted messages messages') :
    latestFrom turnId index latest (messages ++ messages') =
      latestFrom turnId (index + messages.length) (latestFrom turnId index latest messages)
        messages' := by
  induction messages generalizing index latest with
  | nil => rfl
  | cons m messages ih =>
    have hlength : index + 1 + messages.length = index + (m :: messages).length := by
      rw [length_cons]
      omega
    rw [cons_append, latestFrom_cons, latestFrom_cons, ih _ _ h.tail, foundAt, foundAt,
      callSnapshots_append h, hlength]

/-- The checkpoint of a cut: there is one if something is found before the cut, and nothing behind
it. -/
theorem checkpointBefore_append (h : Parted messages messages') :
    checkpointBefore (messages ++ messages') messages.length turnId =
      if found turnId messages' = [] then
        (found turnId messages).getLast?.map fun snapshot => ⟨turnId, snapshot⟩
      else none := by
  rw [checkpointBefore, latestSuccessfulTodoSnapshotForTurn, latestFrom_append 0 none h]
  rcases @latestFrom_spec _ turnId (0 + messages.length) (latestFrom turnId 0 none messages)
    messages' with ⟨hnone, hlatest⟩ | ⟨k, snapshot, hle, -, hlast, hlatest⟩
  · rw [hlatest, if_pos hnone]
    rcases @latestFrom_spec _ turnId 0 none messages with
      ⟨hnone', hlatest'⟩ | ⟨k, snapshot, -, hlt, hlast, hlatest'⟩
    · rw [hlatest', hnone']
      rfl
    · rw [Nat.zero_add] at hlt
      rw [hlatest', hlast, Option.bind_some]
      exact if_pos hlt
  · have hne : found turnId messages' ≠ [] := by
      intro hnone
      rw [hnone] at hlast
      cases hlast
    rw [Nat.zero_add] at hle
    rw [hlatest, if_neg hne, Option.bind_some]
    exact if_neg (Nat.not_lt.2 hle)

/-! ## The new context -/

/-- What the summary's metadata say of the turn. -/
theorem payloadSnapshots_summary (summaryId : String) (plan : CompressionPlan A)
    (contract : Option CompressionContract) (summary : String)
    (hturn : ∀ checkpoint ∈ plan.currentTurnTodoCheckpoint, checkpoint.turnId = turnId) :
    payloadSnapshots turnId (createSummaryMessage summaryId (planArtifact plan contract summary) :
      Message A) = (plan.currentTurnTodoCheckpoint.map
        CurrentTurnTodoCheckpoint.snapshot).toList := by
  cases hcheckpoint : plan.currentTurnTodoCheckpoint with
  | none =>
    simp only [payloadSnapshots, createSummaryMessage, planArtifact, hcheckpoint,
      buildModelSummaryArtifact]
    split
    · rfl
    · rfl
  | some checkpoint =>
    have h := hturn checkpoint hcheckpoint
    simp only [payloadSnapshots, createSummaryMessage, planArtifact, hcheckpoint,
      buildModelSummaryArtifact, appendCurrentTurnTodoCheckpoint]
    split
    · simp [CompressionPayload.fromSummary, CompressionEntry.clearTodo,
        CompressionEntry.isSpent, h]
    · simp [CompressionPayload.fromSummary, CompressionEntry.clearTodo,
        CompressionEntry.isSpent, h]

theorem foundAt_of_user {m : Message A} (h : m.role = .user) (following : List (Message A)) :
    foundAt turnId m following = payloadSnapshots turnId m := by
  have hrole : m.role ≠ .assistant := by
    rw [h]
    decide
  rw [foundAt, callSnapshots, if_pos (.inl hrole), append_nil]

theorem payloadSnapshots_eq_nil (hnone : found turnId messages = []) {m : Message A}
    (hm : m ∈ messages) : payloadSnapshots turnId m = [] := by
  induction messages with
  | nil => cases hm
  | cons first messages ih =>
    rw [found, append_eq_nil_iff, foundAt, append_eq_nil_iff] at hnone
    rcases mem_cons.1 hm with rfl | hm
    · exact hnone.1.1
    · exact ih hnone.2 hm

/-- Where nothing is found, users' messages carry nothing either. -/
theorem found_users_eq_nil {users : List (Message A)} (hnone : found turnId messages = [])
    (husers : ∀ m ∈ users, m ∈ messages ∧ m.role = .user) : found turnId users = [] := by
  induction users with
  | nil => rfl
  | cons m users ih =>
    obtain ⟨hmem, hrole⟩ := husers m mem_cons_self
    rw [found, foundAt_of_user hrole, payloadSnapshots_eq_nil hnone hmem, nil_append]
    exact ih fun m' hm' => husers m' (mem_cons_of_mem _ hm')

/-- What is retained of the prefix are users' messages. -/
theorem mem_of_retained {summaryMessages : List (Message A)} {tokenBudget : ℕ} {m : Message A}
    (h : m ∈ (retainHistoricalUserMessages estimate summaryMessages tokenBudget).1) :
    m ∈ summaryMessages ∧ m.role = .user := by
  obtain ⟨hmem, hactual⟩ := mem_filter.1
    ((retainHistoricalUserMessages_longest summaryMessages tokenBudget).suffix.subset h)
  refine ⟨hmem, ?_⟩
  by_contra hrole
  rw [Message.isActualUserMessage, if_pos hrole] at hactual
  cases hactual

/-- **One compaction** keeps the latest todo list of the conversation. -/
theorem latest_compressed {conversation users : List (Message A)} {summary : Message A}
    {cutoff : ℕ} (hparted : Parted (conversation.take cutoff) (conversation.drop cutoff))
    (hle : cutoff ≤ conversation.length) (husers : ∀ m ∈ users,
      m ∈ conversation.take cutoff ∧ m.role = .user) (hrole : summary.role = .user)
    (hsummary : payloadSnapshots turnId summary = ((checkpointBefore conversation cutoff
      turnId).map CurrentTurnTodoCheckpoint.snapshot).toList) :
    (found turnId (users ++ [summary] ++ conversation.drop cutoff)).getLast? =
      (found turnId conversation).getLast? := by
  have hcheckpoint := @checkpointBefore_append _ _ _ turnId hparted
  rw [length_take_of_le hle, take_append_drop] at hcheckpoint
  have hconversation := @found_append _ _ _ turnId hparted
  rw [take_append_drop] at hconversation
  have hleft : Parted (users ++ [summary]) (conversation.drop cutoff) := by
    have hopens : ¬summary.opensExchange := by
      rw [Message.opensExchange, hrole]
      decide
    apply Parts.append _ (parts_singleton hopens _)
    apply parts_of_head?
    intro m hm
    rw [singleton_append, head?_cons, Option.mem_some_iff] at hm
    rw [← hm, Message.followsExchange, hrole]
    decide
  have hsplit : found turnId (users ++ [summary]) =
      found turnId users ++ payloadSnapshots turnId summary := by
    have hparted' : Parted users [summary] := by
      apply parts_of_head?
      intro m hm
      rw [head?_cons, Option.mem_some_iff] at hm
      rw [← hm, Message.followsExchange, hrole]
      decide
    rw [found_append hparted', found, foundAt_of_user hrole, found, append_nil]
  rw [found_append hleft, hconversation, hsplit, hsummary, hcheckpoint]
  by_cases htail : found turnId (conversation.drop cutoff) = []
  · -- the summary carries what was found before the cut
    rw [htail, append_nil, append_nil, if_pos rfl]
    cases hlast : (found turnId (conversation.take cutoff)).getLast? with
    | none =>
      rw [found_users_eq_nil (getLast?_eq_none_iff.1 hlast) husers]
      rfl
    | some snapshot => exact getLast?_concat
  · obtain ⟨snapshot, hsnapshot⟩ := Option.ne_none_iff_exists'.1
      (mt getLast?_eq_none_iff.1 htail)
    have hright : ∀ snapshots, (snapshots ++ found turnId (conversation.drop cutoff)).getLast? =
        some snapshot := by
      intro snapshots
      rw [getLast?_append, hsnapshot]
      rfl
    rw [hright, hright]

theorem turnId_of_mem_checkpointBefore {conversation : List (Message A)} {cutoff : ℕ}
    {checkpoint : CurrentTurnTodoCheckpoint}
    (h : checkpoint ∈ checkpointBefore conversation cutoff turnId) :
    checkpoint.turnId = turnId := by
  obtain ⟨⟨index, snapshot⟩, -, hcheckpoint⟩ := Option.bind_eq_some_iff.1 h
  dsimp only at hcheckpoint
  split at hcheckpoint
  · rw [← Option.some.inj hcheckpoint]
  · cases hcheckpoint

/-- The conversation of a new context, behind any system messages. -/
theorem canonicalConversation_compressed {system users tail : List (Message A)}
    {summary reminder : Message A} (hsystem : ∀ m ∈ system, m.role = .system)
    (husers : ∀ m ∈ users, m.isDroppable = false ∧ m.role = .user)
    (hsummary : summary.isDroppable = false ∧ summary.role = .user)
    (htail : ∀ m ∈ tail, m.isDroppable = false) (hreminder : reminder.isDroppable) :
    canonicalConversation (system ++ (users ++ [summary] ++ tail ++ [reminder])) =
      users ++ [summary] ++ tail := by
  have hkept : (users ++ [summary] ++ tail).filter (fun m => !m.isDroppable) =
      users ++ [summary] ++ tail := by
    rw [filter_eq_self]
    intro m hm
    rw [mem_append, mem_append, mem_singleton] at hm
    rcases hm with (hm | rfl) | hm
    · rw [(husers m hm).1]
      rfl
    · rw [hsummary.1]
      rfl
    · rw [htail m hm]
      rfl
  have hdropped : [reminder].filter (fun m => !m.isDroppable) = [] := by
    rw [filter_cons_of_neg (by rw [hreminder]; decide), filter_nil]
  have hhead : ∃ m rest, users ++ [summary] ++ tail = m :: rest ∧ m.role = .user := by
    cases users with
    | nil => exact ⟨summary, tail, rfl, hsummary.2⟩
    | cons m users => exact ⟨m, _, rfl, (husers m mem_cons_self).2⟩
  obtain ⟨m, rest, heq, hrole⟩ := hhead
  have hnot : ¬decide (m.role = .system) = true := by
    rw [hrole]
    decide
  have hdrop : (m :: rest).dropWhile (fun m => decide (m.role = .system)) = m :: rest :=
    dropWhile_cons_of_neg hnot
  rw [canonicalConversation, filter_append, filter_append, hkept, hdropped,
    append_nil, dropWhile_append_of_pos, heq, hdrop]
  intro m' hm'
  exact decide_eq_true (hsystem m' (mem_of_mem_filter hm'))

/-- The latest todo list that some messages determine. -/
def latestSnapshot (turnId : String) (messages : List (Message A)) :
    Option CompressedTodoSnapshot :=
  (latestSuccessfulTodoSnapshotForTurn (canonicalConversation messages) turnId).map Prod.snd

/-- A compaction, whatever was appended while it was prepared, keeps the latest todo list. -/
theorem latestSnapshot_compressed {runtimeMessages appended result system : List (Message A)}
    {contextWindow recentTargetTokens : ℕ} {plan rebased : CompressionPlan A}
    {contract : Option CompressionContract} {modelSummary summaryId reminderId : String}
    (hplan : planCompressionForTurn estimate turnId runtimeMessages contextWindow
      recentTargetTokens = some plan)
    (hrebased : rebasePlan estimate plan (runtimeMessages ++ appended) turnId = some rebased)
    (hresult : compressPlanWithContract summaryId reminderId rebased contract modelSummary =
      some result)
    (hsystem : ∀ m ∈ system, m.role = .system) :
    latestSnapshot turnId (system ++ result) =
      latestSnapshot turnId (runtimeMessages ++ appended) := by
  obtain ⟨j, hcuts⟩ := exists_cuts hplan
  have hgrown := canonicalConversation_append hcuts.conversation_ne_nil appended
  obtain ⟨hsummary, hretained, htail, hparted, hcheckpoint⟩ := rebasePlan_spec hrebased
  -- the summarized prefix is still the prefix of the grown conversation
  have hinit : plan.summaryMessages <+: canonicalConversation (runtimeMessages ++ appended) := by
    rw [hgrown]
    exact (hcuts.whole ▸ prefix_append _ _).trans (prefix_append _ _)
  obtain ⟨summary, -, hmessages⟩ := Option.bind_eq_some_iff.1 hresult
  rw [← Option.some.inj hmessages]
  have hkept : ∀ m ∈ canonicalConversation (runtimeMessages ++ appended),
      m.isDroppable = false := fun m hm => isDroppable_of_mem_canonical hm
  have husers : ∀ m ∈ rebased.retainedUserMessages, m ∈ plan.summaryMessages ∧
      m.role = .user := by
    intro m hm
    rw [hretained, hcuts.retained] at hm
    exact mem_of_retained hm
  rw [latestSnapshot, latestSnapshot, canonicalConversation_compressed hsystem
    (fun m hm => ⟨hkept m (hinit.subset (husers m hm).1), (husers m hm).2⟩) ⟨rfl, rfl⟩
    (fun m hm => hkept m (mem_of_mem_drop (htail ▸ hm))) rfl, latestSuccessful_snapshot,
    latestSuccessful_snapshot, htail]
  apply latest_compressed hparted hinit.length_le _ rfl
  · rw [payloadSnapshots_summary, hcheckpoint]
    intro checkpoint hmem
    rw [hcheckpoint] at hmem
    exact turnId_of_mem_checkpointBefore hmem
  · intro m hm
    rw [prefix_iff_eq_take.1 hinit] at husers
    exact husers m hm

/-! ## Runs of a turn -/

/-- A complete assistant round of the turn: an assistant message and the results of its tools. -/
def IsRound (turnId : String) (round : List (Message A)) : Prop :=
  ∃ assistant tools, round = assistant :: tools ∧ assistant.role = .assistant ∧
    (∀ m ∈ tools, m.role = .tool) ∧
    ∀ m ∈ round, m.turnId = some turnId ∧ m.internalReminderKind = none

/-- A turn: its context, and its history as it would be had nothing ever been compacted. -/
structure Turn (A : Type) where
  context : List (Message A)
  history : List (Message A)

/-- What happens in a turn. -/
inductive TurnEvent where
  | round
  | compaction
  deriving DecidableEq

/-- One step of a turn. A compaction is planned, rounds are appended while its summary is written,
and it is carried out on the grown context; the new context may get system messages in front. -/
inductive Turn.Step (estimate : Message A → ℕ) (turnId : String) :
    Turn A → TurnEvent → Turn A → Prop
  | round (t : Turn A) (round : List (Message A)) : IsRound turnId round →
      Step estimate turnId t .round ⟨t.context ++ round, t.history ++ round⟩
  | compaction (t : Turn A) (contextWindow recentTargetTokens : ℕ)
      (rounds : List (List (Message A))) (plan rebased : CompressionPlan A)
      (contract : Option CompressionContract) (modelSummary summaryId reminderId : String)
      (result system : List (Message A)) :
      planCompressionForTurn estimate turnId t.context contextWindow recentTargetTokens =
        some plan →
      (∀ round ∈ rounds, IsRound turnId round) →
      rebasePlan estimate plan (t.context ++ rounds.flatten) turnId = some rebased →
      compressPlanWithContract summaryId reminderId rebased contract modelSummary = some result →
      (∀ m ∈ system, m.role = .system) →
      Step estimate turnId t .compaction ⟨system ++ result, t.history ++ rounds.flatten⟩

/-- A round is appended as it is, as an exchange of its own. -/
theorem IsRound.append {round : List (Message A)} (h : IsRound turnId round)
    (messages : List (Message A)) :
    canonicalConversation (messages ++ round) = canonicalConversation messages ++ round ∧
      Parted (canonicalConversation messages) round := by
  obtain ⟨assistant, tools, rfl, hrole, htools, hkind⟩ := h
  have hkept : (assistant :: tools).filter (fun m => !m.isDroppable) = assistant :: tools := by
    rw [filter_eq_self]
    intro m hm
    rw [Message.isDroppable, (hkind m hm).2]
    rfl
  have hdrop : (assistant :: tools).dropWhile (fun m => decide (m.role = .system)) =
      assistant :: tools := by
    apply dropWhile_cons_of_neg
    rw [hrole]
    decide
  refine ⟨?_, ?_⟩
  · rw [canonicalConversation, filter_append, hkept, dropWhile_append, hdrop]
    split
    · rename_i hempty
      rw [canonicalConversation, isEmpty_iff.1 hempty]
      rfl
    · rfl
  · apply parts_of_head?
    intro m hm
    rw [head?_cons, Option.mem_some_iff] at hm
    rw [← hm, Message.followsExchange, hrole]
    decide

/-- The same rounds have the same effect. -/
theorem latestSnapshot_rounds {rounds : List (List (Message A))}
    (hrounds : ∀ round ∈ rounds, IsRound turnId round) {messages messages' : List (Message A)}
    (h : latestSnapshot turnId messages = latestSnapshot turnId messages') :
    latestSnapshot turnId (messages ++ rounds.flatten) =
      latestSnapshot turnId (messages' ++ rounds.flatten) := by
  induction rounds generalizing messages messages' with
  | nil => rwa [flatten_nil, append_nil, append_nil]
  | cons round rounds ih =>
    rw [flatten_cons, ← append_assoc, ← append_assoc]
    apply ih fun round hround => hrounds round (mem_cons_of_mem _ hround)
    have hround := hrounds round mem_cons_self
    have hlatest : ∀ messages : List (Message A), latestSnapshot turnId (messages ++ round) =
        ((found turnId round).getLast?).or (latestSnapshot turnId messages) := by
      intro messages
      obtain ⟨hcanonical, hparted⟩ := hround.append messages
      rw [latestSnapshot, latestSnapshot, latestSuccessful_snapshot, latestSuccessful_snapshot,
        hcanonical, found_append hparted, getLast?_append]
    rw [hlatest, hlatest, h]

theorem Turn.Step.latestSnapshot {t t' : Turn A} {event : TurnEvent}
    (hstep : Turn.Step estimate turnId t event t')
    (h : latestSnapshot turnId t.context = latestSnapshot turnId t.history) :
    latestSnapshot turnId t'.context = latestSnapshot turnId t'.history := by
  cases hstep with
  | round round hround =>
    have hrounds : ∀ r ∈ [round], IsRound turnId r := by
      intro r hr
      rwa [mem_singleton.1 hr]
    have := latestSnapshot_rounds hrounds h
    rwa [flatten_singleton] at this
  | compaction contextWindow recentTargetTokens rounds plan rebased contract modelSummary summaryId
      reminderId result system hplan hrounds hrebased hresult hsystem =>
    exact (latestSnapshot_compressed hplan hrebased hresult hsystem).trans
      (latestSnapshot_rounds hrounds h)

/-- **The current task list survives any number of compactions**: in every run of a turn, from any
context, the context determines the same latest todo list as the full history. -/
theorem latestSnapshot_of_run {init : List (Message A)} {tr : List TurnEvent} {t : Turn A}
    (hrun : Run (Turn.Step estimate turnId) ⟨init, init⟩ tr t) :
    latestSnapshot turnId t.context = latestSnapshot turnId t.history :=
  Run.invariant (P := fun t => latestSnapshot turnId t.context = latestSnapshot turnId t.history)
    hrun rfl fun _ _ _ h hstep => hstep.latestSnapshot h

/-- A question. -/
def question : List (Message Unit) := [.user "question" "What is in the file?"]

/-- A round that writes a todo list. -/
def todoRound : List (Message Unit) :=
  [⟨"call", .assistant, .mixed none "" [⟨"todo", "TodoWrite", .object [("todos", .array
      [.object [("content", .string "Read it")]])], none, false⟩], some "turn", none, none, none⟩,
    ⟨"result", .tool, .toolResult "todo" "TodoWrite" (.object [("success", .bool true)]) none false
      none, some "turn", none, none, none⟩]

/-- The todo list is summarized, and still there. -/
theorem latestSnapshot_of_run_todoRound : ∃ t, Run (Turn.Step (fun _ : Message Unit => 1) "turn")
    ⟨question, question⟩ [.round, .compaction] t ∧
    latestSnapshot "turn" t.context = some ⟨[⟨none, "Read it", "pending"⟩], none⟩ := by
  have hround : IsRound "turn" todoRound := by
    refine ⟨_, _, rfl, rfl, ?_, ?_⟩
    · intro m hm
      rw [mem_singleton.1 hm]
    · intro m hm
      rcases mem_cons.1 hm with rfl | hm
      · exact ⟨rfl, rfl⟩
      · rw [mem_singleton.1 hm]
        exact ⟨rfl, rfl⟩
  have hone := Run.single (@Turn.Step.round _ (fun _ => 1) _ ⟨question, question⟩ todoRound hround)
  obtain ⟨plan, j, hplan, hcuts⟩ := (@planCompressionInternal_spec Unit (fun _ => 1) (some "turn")
    (question ++ todoRound) 1000 0).resolve_left fun h => cons_ne_nil _ _ h.1
  -- with a target of zero tokens everything is summarized
  have hsummary : plan.summaryMessages = canonicalConversation (question ++ todoRound) := by
    have hlength : ∀ messages : List (Message Unit),
        tokenSum (fun _ => 1) messages = messages.length := by
      intro messages
      simp [tokenSum]
    have htail : plan.recentTailMessages = [] := by
      have hfits := hcuts.cut.fits
      rw [tailTokens, hlength] at hfits
      rw [hcuts.recentTailMessages]
      exact length_eq_zero_iff.1 (Nat.le_zero.1 hfits)
    have hwhole := hcuts.whole
    rwa [htail, append_nil] at hwhole
  obtain ⟨rebased, hrebased⟩ : ∃ rebased, rebasePlan (fun _ => 1) plan
      (question ++ todoRound ++ [].flatten) "turn" = some rebased := by
    rw [rebasePlan, flatten_nil, append_nil, hsummary, if_neg]
    · exact ⟨_, rfl⟩
    · simp [hasMessageIdPrefix]
  obtain ⟨result, hresult⟩ : ∃ result, compressPlanWithContract "summary" "reminder" rebased none
      "The file was read." = some result := ⟨_, rfl⟩
  have hrun := hone.step (Turn.Step.compaction _ 1000 0 [] plan rebased none _ _ _ result [] hplan
    (fun _ hr => absurd hr not_mem_nil) hrebased hresult fun _ hm => absurd hm not_mem_nil)
  refine ⟨_, hrun, ?_⟩
  rw [latestSnapshot_of_run hrun]
  rfl

end Compaction

end OpenBitFun
