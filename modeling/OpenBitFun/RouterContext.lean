import OpenBitFun.RouterProjection
import OpenBitFun.Run

/-!
# The Router's incremental context

`RouterContextState` is what the Router remembers of a session: a summary of everything up to
`summarizedThrough`, and the observations after it in a buffer of bounded length. Summaries are
made elsewhere: a `RouterSummaryWork` captures a prefix of the buffer, and is applied later, when
the buffer may have lost observations.
-/

namespace OpenBitFun

namespace Router

open Json (Value)

/-- `OBSERVATION_BUFFER_CAPACITY`. -/
def OBSERVATION_BUFFER_CAPACITY : ℕ := 128

/-- `RouterEntryKind`. -/
inductive RouterEntryKind where
  | round
  | userUpdate
  | feedback
  deriving DecidableEq, Repr

/-- The kind as it is serialized. -/
def RouterEntryKind.render : RouterEntryKind → String
  | .round => "round"
  | .userUpdate => "user_update"
  | .feedback => "feedback"

/-- One observation. -/
structure RouterEntry where
  /-- Its place in the history. -/
  sequence : ℕ
  /-- Where it comes from. -/
  sourceId : String
  /-- What it is. -/
  kind : RouterEntryKind
  /-- It reports an error. -/
  isError : Bool
  /-- The tokens of its projected content. -/
  tokenCount : ℕ
  /-- The projected content. -/
  content : Value

/-- `RouterHistoryBootstrap`: the progress of a history rebuild. -/
structure RouterHistoryBootstrap where
  /-- The turns to rebuild. -/
  turnIds : List String
  /-- The next turn. -/
  turnCursor : ℕ
  /-- The next entry of it. -/
  entryCursor : ℕ
  /-- Everything was read. -/
  complete : Bool

/-- `RouterContextState`, without the ids and sets that only the host reads. -/
structure RouterContextState where
  /-- The current task. -/
  task : String
  /-- The summary of the observations up to `summarizedThrough`. -/
  summary : String
  /-- The last observation the summary covers. -/
  summarizedThrough : ℕ
  /-- The sequence number of the next observation. -/
  nextSequence : ℕ
  /-- The number of rounds observed. -/
  observedRounds : ℕ
  /-- The highest observation dropped without coverage from an accepted summary. -/
  omittedThrough : ℕ
  /-- The observations after the summary, oldest first. -/
  entries : List RouterEntry
  /-- The newest user updates. -/
  latestUserUpdates : List String
  /-- A history rebuild under way. -/
  historyBootstrap : Option RouterHistoryBootstrap

/-- `RouterContextState::default`. -/
def RouterContextState.default : RouterContextState where
  task := ""
  summary := ""
  summarizedThrough := 0
  nextSequence := 1
  observedRounds := 0
  omittedThrough := 0
  entries := []
  latestUserUpdates := []
  historyBootstrap := none

/-! ## Observing -/

/-- `entry_for_prompt`: a round as it is, anything else with its kind. -/
def entryForPrompt (entry : RouterEntry) : Value :=
  if entry.kind = .round then
    match entry.content with
    | .object fields => .object (Json.insertField "is_error" (.bool entry.isError) fields)
    | content => content
  else Json.ofFields [("kind", .string entry.kind.render), ("content", entry.content)]

/-- An observation's content reports an error: itself, a tool result, or a tool call. -/
def contentIsError (content : Value) : Bool :=
  flagged content ||
    (((content.get "tool_results").bind Value.asArray).any fun values => values.any flagged) ||
    (((content.pointer ["assistant", "tool_calls"]).bind Value.asArray).any fun values =>
      values.any flagged)

/-- `observation_entry`: the entry of a new observation; the projection may panic. -/
def RouterContextState.observationEntry (s : RouterContextState) (sourceId : String)
    (kind : RouterEntryKind) (content : Value) (counter : RouterTokenCounter) :
    Option RouterEntry := do
  let content ← projectObservation content counter
  let entry : RouterEntry := ⟨s.nextSequence, sourceId, kind, contentIsError content, 0, content⟩
  return { entry with tokenCount := counter.count (entryForPrompt entry).render }

/-- The user updates after an entry: the current task forgets the older ones, another text is
added, and four are kept. -/
def RouterContextState.userUpdates (s : RouterContextState) (entry : RouterEntry)
    (counter : RouterTokenCounter) : List String :=
  if entry.kind = .userUpdate then
    match entry.content.asStr with
    | none => s.latestUserUpdates
    | some text =>
      if text = s.task then []
      else if s.latestUserUpdates.getLast? = some text then s.latestUserUpdates
      else
        let updates := s.latestUserUpdates ++ [truncate text 1024 counter]
        updates.drop (updates.length - 4)
  else s.latestUserUpdates

/-- `append_entry`. -/
def RouterContextState.appendEntry (s : RouterContextState) (entry : RouterEntry)
    (counter : RouterTokenCounter) : RouterContextState :=
  { s with
    observedRounds := if entry.kind = .round then s.observedRounds + 1 else s.observedRounds
    latestUserUpdates := s.userUpdates entry counter
    entries := s.entries ++ [entry]
    nextSequence := s.nextSequence + 1 }

/-- The backpressure loop: the entries dropped, the entries kept, and `omitted_through`. -/
def dropOldest (omittedThrough : ℕ) : List RouterEntry → List RouterEntry × List RouterEntry × ℕ
  | [] => ([], [], omittedThrough)
  | entry :: entries =>
    if (entry :: entries).length > OBSERVATION_BUFFER_CAPACITY then
      let (dropped, kept, omittedThrough) := dropOldest entry.sequence entries
      (entry :: dropped, kept, omittedThrough)
    else ([], entry :: entries, omittedThrough)

/-- `append`, with the entries that backpressure drops. -/
def RouterContextState.append (s : RouterContextState) (sourceId : String)
    (kind : RouterEntryKind) (content : Value) (counter : RouterTokenCounter) :
    Option (RouterContextState × List RouterEntry) := do
  let entry ← s.observationEntry sourceId kind content counter
  let s := s.appendEntry entry counter
  let (dropped, kept, omittedThrough) := dropOldest s.omittedThrough s.entries
  return ({ s with entries := kept, omittedThrough := omittedThrough }, dropped)

/-! ## Summaries -/

/-- `RouterSummaryWork`: the input of a summary, as it was captured. -/
structure RouterSummaryWork where
  /-- The summary it continues. -/
  baseThrough : ℕ
  /-- The last observation it covers. -/
  through : ℕ
  /-- The observations that were missing when it was captured. -/
  omittedThrough : ℕ
  /-- The tokens of its observations. -/
  pendingTokens : ℕ
  /-- The input. -/
  prompt : String
  deriving DecidableEq

/-- The index of the last but `n` round in `entries`, whose first entry has the index `i`. -/
def nthRoundFromEnd (n : ℕ) (entries : List RouterEntry) : Option ℕ :=
  ((entries.zipIdx.reverse.filter fun entry => entry.1.kind = .round)[n]?).map Prod.snd

/-- `recent_start`: where the `recent_rounds` newest rounds start. -/
def RouterContextState.recentStart (s : RouterContextState) (recentRounds : ℕ) : ℕ :=
  (nthRoundFromEnd (max recentRounds 1 - 1) s.entries).getD 0

/-- The tokens of some entries. -/
def tokenSum (entries : List RouterEntry) : ℕ := (entries.map RouterEntry.tokenCount).sum

/-- `pending_tokens`. -/
def RouterContextState.pendingTokens (s : RouterContextState) (recentRounds : ℕ) : ℕ :=
  tokenSum (s.entries.take (s.recentStart recentRounds))

/-- `summary_prompt`. -/
def RouterContextState.summaryPrompt (s : RouterContextState) (through : ℕ) (entries : String) :
    String :=
  "Task:\n" ++ s.task ++ "\n\nPrevious router summary:\n" ++ s.summary ++
    "\n\nObserved entries through sequence " ++ toString through ++ ":\n" ++ entries ++
    "\n\nPreviously omitted through sequence: " ++ toString s.omittedThrough

/-- `summary_work_for_prefix`. -/
def RouterContextState.summaryWorkForPrefix (s : RouterContextState)
    (observed : List RouterEntry) : Option RouterSummaryWork := do
  let last ← observed.getLast?
  let entries := Value.array (observed.map entryForPrompt)
  return {
    baseThrough := s.summarizedThrough
    through := last.sequence
    omittedThrough := s.omittedThrough
    pendingTokens := tokenSum observed
    prompt := s.summaryPrompt last.sequence entries.render }

/-- `summary_work`. -/
def RouterContextState.summaryWork (s : RouterContextState) (recentRounds triggerTokens : ℕ) :
    Option RouterSummaryWork :=
  let observed := s.entries.take (s.recentStart recentRounds)
  if s.pendingTokens recentRounds < triggerTokens then none else s.summaryWorkForPrefix observed

/-- The loop of `summary_work_bounded` over the longer prefixes: the last one that fits. -/
def RouterContextState.boundedLoop (s : RouterContextState) (observed : List RouterEntry)
    (maxPromptTokens : ℕ) (counter : RouterTokenCounter) (selected : RouterSummaryWork) :
    List ℕ → Option RouterSummaryWork
  | [] => some selected
  | count :: counts => do
    let work ← s.summaryWorkForPrefix (observed.take count)
    s.boundedLoop observed maxPromptTokens counter
      (if counter.count work.prompt ≤ maxPromptTokens then work else selected) counts

/-- `summary_work_bounded`. -/
def RouterContextState.summaryWorkBounded (s : RouterContextState)
    (recentRounds triggerTokens maxPromptTokens : ℕ) (counter : RouterTokenCounter) :
    Option RouterSummaryWork := do
  let count := if recentRounds = 0 then s.entries.length else s.recentStart recentRounds
  let observed := s.entries.take count
  if tokenSum observed < triggerTokens then none
  else if observed.isEmpty then none
  else
    let first ← s.summaryWorkForPrefix (observed.take 1)
    if counter.count first.prompt > maxPromptTokens then none
    else s.boundedLoop observed maxPromptTokens counter first (List.range' 2 (observed.length - 1))

/-- `apply_summary`: a summary is accepted if it continues the current one. -/
def RouterContextState.applySummary (s : RouterContextState) (work : RouterSummaryWork)
    (summary : String) : RouterContextState × Bool :=
  let trimmed := Text.trim summary.toList
  if work.baseThrough ≠ s.summarizedThrough ∨ work.through ≤ s.summarizedThrough ∨
      s.nextSequence ≤ work.through ∨ trimmed = [] then (s, false)
  else
    ({ s with
        summary := String.ofList trimmed
        summarizedThrough := work.through
        entries := s.entries.filter fun entry => entry.sequence > work.through
        omittedThrough :=
          if work.omittedThrough = 0 ∧ s.omittedThrough ≤ work.through then 0
          else s.omittedThrough }, true)

/-! ## Preparing the input -/

/-- `RouterEntryTokenRecord`. -/
structure RouterEntryTokenRecord where
  sequence : ℕ
  sourceId : String
  /-- The `round_id` of the content. -/
  roundId : Option String
  kind : RouterEntryKind
  /-- `pending` or `recent`. -/
  sectionName : String
  tokenCount : ℕ
  isError : Bool

/-- `PreparedRouterContext`, without the measurements of the host. -/
structure PreparedRouterContext where
  /-- The Router's input. -/
  userPrompt : String
  /-- Its tokens. -/
  inputTokens : ℕ
  /-- The budget it was prepared for. -/
  budgetTokens : ℕ
  /-- Some of the history is missing from it. -/
  historyTruncated : Bool
  /-- The tokens of the observations that wait for a summary. -/
  pendingTokens : ℕ
  /-- The tokens of each entry. -/
  entryTokens : List RouterEntryTokenRecord
  /-- The counter's name. -/
  counter : String
  summarizedThrough : ℕ
  observedThrough : ℕ
  omittedThrough : ℕ

/-- The task with the user's updates, newest first. -/
def RouterContextState.taskText (s : RouterContextState) : String :=
  let updates := String.intercalate "\nPrevious user update:\n" s.latestUserUpdates.reverse
  if updates.isEmpty then s.task else s.task ++ "\nUser update:\n" ++ updates

/-- The history section: the summary, the observations it does not cover, and the gap. -/
def RouterContextState.historyText (s : RouterContextState) (observed : List RouterEntry) :
    String :=
  if s.summary.isEmpty ∧ observed.isEmpty ∧ s.omittedThrough = 0 then "(none)"
  else
    s.summary ++
      (if observed.isEmpty then ""
      else "\nUnsummarized earlier observations: " ++
        (Value.array (observed.map entryForPrompt)).render) ++
      (if s.omittedThrough = 0 then ""
      else "\nEarlier observations omitted through sequence: " ++ toString s.omittedThrough)

/-- The three sections of the Router's input. -/
def threeSections (task history trajectory : String) : String :=
  "## Task\n" ++ task ++ "\n\n## Earlier history summary\n" ++ history ++
    "\n\n## Recent trajectory\n" ++ trajectory

/-- The token record of the entry at an index. -/
def tokenRecord (start index : ℕ) (entry : RouterEntry) : RouterEntryTokenRecord where
  sequence := entry.sequence
  sourceId := entry.sourceId
  roundId := ((entry.content.get "round_id").filter fun v => !v.isNull).map fun v =>
    v.asStr.getD v.render
  kind := entry.kind
  sectionName := if index < start then "pending" else "recent"
  tokenCount := entry.tokenCount
  isError := entry.isError

/-- The budget of the entry at an index: the newest round gets half. -/
def entryBudget (recentLength newestRound index recentBudget : ℕ) : ℕ :=
  if recentLength = 1 then recentBudget
  else if index = newestRound then recentBudget / 2
  else recentBudget / (2 * (recentLength - 1))

/-- The trajectory section within a budget. -/
def renderRecent (recent : List RouterEntry) (recentBudget : ℕ) (counter : RouterTokenCounter) :
    String :=
  let newestRound := (nthRoundFromEnd 0 recent).getD (recent.length - 1)
  let rendered := recent.zipIdx.map fun (entry, index) =>
    compactJson (entryForPrompt entry)
      (max (entryBudget recent.length newestRound index recentBudget) 16) counter
  (compactJson (.array rendered) recentBudget counter).render

/-- The loop of `prepare`: halve the trajectory's budget until the input fits, or give it up. -/
def shrinkPrompt (task history : String) (recent : List RouterEntry) (maxTokens : ℕ)
    (counter : RouterTokenCounter) (recentBudget : ℕ) : String :=
  let prompt := threeSections task history (renderRecent recent recentBudget counter)
  if counter.count prompt ≤ maxTokens then prompt
  else if recentBudget ≤ 16 then
    threeSections (truncate task (maxTokens - 160) counter) "(context budget exhausted)" "[]"
  else shrinkPrompt task history recent maxTokens counter (recentBudget / 2)
termination_by recentBudget
decreasing_by omega

/-- `prepare`: the Router's input within a budget. -/
def RouterContextState.prepare (s : RouterContextState) (recentRounds maxTokens : ℕ)
    (counter : RouterTokenCounter) : PreparedRouterContext :=
  let maxTokens := max maxTokens 512
  let task := s.taskText
  let start := s.recentStart recentRounds
  let history := s.historyText (s.entries.take start)
  let recent := s.entries.drop start
  let fullPrompt :=
    threeSections task history (Value.array (recent.map entryForPrompt)).render
  let prepared (userPrompt : String) (historyTruncated : Bool) : PreparedRouterContext :=
    { userPrompt := userPrompt
      inputTokens := counter.count userPrompt
      budgetTokens := maxTokens
      historyTruncated := historyTruncated
      pendingTokens := tokenSum (s.entries.take start)
      entryTokens := s.entries.zipIdx.map fun (entry, index) => tokenRecord start index entry
      counter := counter.name
      summarizedThrough := s.summarizedThrough
      observedThrough := s.nextSequence - 1
      omittedThrough := s.omittedThrough }
  if counter.count fullPrompt ≤ maxTokens then
    prepared fullPrompt (s.omittedThrough ≠ 0 || s.historyBootstrap.isSome)
  else
    let sectionBudget := max (maxTokens / 5) 128
    let task := truncate task sectionBudget counter
    let history := truncate history sectionBudget counter
    let recentBudget := max (maxTokens - (counter.count task + counter.count history + 100)) 64
    prepared (shrinkPrompt task history recent maxTokens counter recentBudget) true

end Router

end OpenBitFun
