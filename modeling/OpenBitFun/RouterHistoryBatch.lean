import OpenBitFun.RouterContext
import OpenBitFun.RouterTokenBudget

/-!
# Historical import within a budget

When the Router's history is rebuilt, the old observations come in batches. A `RouterHistoryBatch`
keeps, next to the context, what a summary of the whole buffer would cost: an envelope, and the
estimate of every entry. It admits an observation only if the batch still fits, and later selects
the longest fitting prefix for a summary.

The accounting is kept incrementally, and is nevertheless that of a batch made anew. That it bounds
the estimate of the real prompt rests on two facts: estimates are sub-additive, and the envelope has
the widest sequence number.
-/

namespace OpenBitFun

open List

namespace Router

open Json (Value)

/-- `u64::MAX`. -/
def u64Max : ℕ := 2 ^ 64 - 1

/-- An entry as it is serialized. -/
def RouterEntry.serialized (entry : RouterEntry) : Value :=
  .object [("sequence", .number (.int entry.sequence)), ("source_id", .string entry.sourceId),
    ("kind", .string entry.kind.render), ("is_error", .bool entry.isError),
    ("token_count", .number (.int entry.tokenCount)), ("content", entry.content)]

/-- `RouterHistoryBatch`: the costs of a batch and their limits. -/
structure RouterHistoryBatch where
  /-- The most tokens of a summary's prompt. -/
  maxPromptTokens : ℕ
  /-- The most bytes of the serialized entries. -/
  maxBytes : ℕ
  /-- The tokens of the envelope and of the entries. -/
  promptTokens : ℕ
  /-- The bytes of the envelope and of the entries. -/
  bytes : ℕ
  deriving DecidableEq

namespace RouterHistoryBatch

/-- `empty`: the costs of a prompt without entries, with the widest sequence number. -/
def empty (s : RouterContextState) (maxPromptTokens : ℕ) : RouterHistoryBatch where
  maxPromptTokens := maxPromptTokens
  maxBytes := Saturating.mul usizeMax maxPromptTokens 3
  promptTokens := EstimatedRouterTokens.count (s.summaryPrompt u64Max "[]")
  bytes := Text.byteLength (s.summaryPrompt u64Max "[]").toList

/-- `entry_cost`: an entry as the prompt shows it, its tokens and its bytes, each with a comma. -/
def entryCost (entry : RouterEntry) : String × ℕ × ℕ :=
  let projected := (entryForPrompt entry).render
  (projected, Saturating.add usizeMax (EstimatedRouterTokens.count projected) 1,
    Saturating.add usizeMax (Text.byteLength entry.serialized.render.toList) 1)

/-- The batch after some more tokens and bytes. -/
def spend (batch : RouterHistoryBatch) (tokens bytes : ℕ) : RouterHistoryBatch :=
  { batch with
    promptTokens := Saturating.add usizeMax batch.promptTokens tokens
    bytes := Saturating.add usizeMax batch.bytes bytes }

/-- `charge`. -/
def charge (batch : RouterHistoryBatch) (entry : RouterEntry) : RouterHistoryBatch :=
  batch.spend (entryCost entry).2.1 (entryCost entry).2.2

/-- `new`: the batch of a context; entries that are already there are charged, fitting or not. -/
def new (s : RouterContextState) (maxPromptTokens : ℕ) : RouterHistoryBatch :=
  s.entries.foldl charge (empty s maxPromptTokens)

/-- `fits`. -/
def fits (batch : RouterHistoryBatch) (tokens bytes : ℕ) : Bool :=
  Saturating.add usizeMax batch.promptTokens tokens ≤ batch.maxPromptTokens &&
    Saturating.add usizeMax batch.bytes bytes ≤ batch.maxBytes

/-- `try_append`: the batch and the context after an observation, and whether it was admitted.
Without a bootstrap cursor it panics, and the projection may. -/
def tryAppend (batch : RouterHistoryBatch) (s : RouterContextState) (sourceId : String)
    (kind : RouterEntryKind) (content : Value) (counter : RouterTokenCounter) :
    Option (RouterHistoryBatch × RouterContextState × Bool) :=
  if s.historyBootstrap.isNone then none
  else do
    let entry ← s.observationEntry sourceId kind content counter
    let (_, tokens, bytes) := entryCost entry
    if !batch.fits tokens bytes then return (batch, s, false)
    else return (batch.spend tokens bytes, s.appendEntry entry counter, true)

/-- What `summary_work` has selected so far. -/
structure Selection where
  /-- The costs of the selected entries. -/
  plan : RouterHistoryBatch
  /-- Their text, without the closing bracket. -/
  entries : String
  /-- The last one's sequence number. -/
  through : Option ℕ
  /-- Their tokens. -/
  pendingTokens : ℕ

/-- One more entry is selected. -/
def Selection.take (selection : Selection) (entry : RouterEntry) : Selection :=
  let (projected, _, _) := entryCost entry
  { plan := selection.plan.charge entry
    entries := (if selection.through.isSome then selection.entries ++ "," else selection.entries) ++
      projected
    through := some entry.sequence
    pendingTokens := Saturating.add usizeMax selection.pendingTokens entry.tokenCount }

/-- The loop of `summary_work`: entries are selected as long as they fit. -/
def Selection.takeFitting (selection : Selection) : List RouterEntry → Selection
  | [] => selection
  | entry :: entries =>
    let (_, tokens, bytes) := entryCost entry
    if !selection.plan.fits tokens bytes then selection
    else (selection.take entry).takeFitting entries

/-- `summary_work`: the longest prefix of the buffer that fits. -/
def summaryWork (batch : RouterHistoryBatch) (s : RouterContextState) (recentRounds : ℕ) :
    Option RouterSummaryWork := do
  let count := if recentRounds = 0 then s.entries.length else s.recentStart recentRounds
  let selection : Selection := ⟨empty s batch.maxPromptTokens, "[", none, 0⟩
  let selection := selection.takeFitting (s.entries.take count)
  let entries := selection.entries ++ "]"
  let through ← selection.through
  return {
    baseThrough := s.summarizedThrough
    through := through
    omittedThrough := s.omittedThrough
    pendingTokens := selection.pendingTokens
    prompt := s.summaryPrompt through entries }

/-! ## Selections -/

section Selections

variable {batch : RouterHistoryBatch} {s : RouterContextState} {entry : RouterEntry}
  {entries : List RouterEntry} {selection : Selection} {maxPromptTokens : ℕ}

/-- The entries are admitted one after the other. -/
def Admits (batch : RouterHistoryBatch) : List RouterEntry → Prop
  | [] => True
  | entry :: entries =>
    batch.fits (entryCost entry).2.1 (entryCost entry).2.2 ∧ (batch.charge entry).Admits entries

theorem admits_concat : batch.Admits (entries ++ [entry]) ↔ batch.Admits entries ∧
    (entries.foldl charge batch).fits (entryCost entry).2.1 (entryCost entry).2.2 := by
  induction entries generalizing batch with
  | nil => simp only [nil_append, Admits, foldl_nil, and_true, true_and]
  | cons first entries ih => rw [cons_append, Admits, Admits, ih, foldl_cons, and_assoc]

@[simp] theorem maxPromptTokens_foldl_charge :
    (entries.foldl charge batch).maxPromptTokens = batch.maxPromptTokens := by
  induction entries generalizing batch with
  | nil => rfl
  | cons entry entries ih =>
    rw [foldl_cons, ih]
    simp only [charge, spend]

/-- What was admitted is within the limit. -/
theorem Admits.promptTokens_le (h : batch.Admits entries) (hne : entries ≠ []) :
    (entries.foldl charge batch).promptTokens ≤ batch.maxPromptTokens := by
  obtain ⟨before, last, rfl⟩ := (eq_nil_or_concat' entries).resolve_left hne
  obtain ⟨-, hfits⟩ := admits_concat.1 h
  rw [fits, Bool.and_eq_true, decide_eq_true_eq, maxPromptTokens_foldl_charge] at hfits
  rw [foldl_append]
  exact hfits.1

/-- The loop selects a prefix that was admitted entry by entry. -/
theorem takeFitting_spec (selection : Selection) (entries : List RouterEntry) :
    ∃ taken, taken <+: entries ∧ selection.plan.Admits taken ∧
      selection.takeFitting entries = taken.foldl Selection.take selection := by
  induction entries generalizing selection with
  | nil => exact ⟨[], prefix_rfl, trivial, rfl⟩
  | cons entry entries ih =>
    by_cases hfits : selection.plan.fits (entryCost entry).2.1 (entryCost entry).2.2
    · obtain ⟨taken, hinit, hadmits, htaken⟩ := ih (selection.take entry)
      refine ⟨entry :: taken, prefix_cons_inj entry |>.2 hinit, ⟨hfits, hadmits⟩, ?_⟩
      simp only [Selection.takeFitting, hfits, Bool.not_true, Bool.false_eq_true, if_false,
        htaken, foldl_cons]
    · refine ⟨[], nil_prefix, trivial, ?_⟩
      simp only [Selection.takeFitting, hfits, Bool.not_false, if_true, foldl_nil]

/-- Nothing that would be admitted is left out. -/
theorem takeFitting_of_admits (h : selection.plan.Admits entries) :
    selection.takeFitting entries = entries.foldl Selection.take selection := by
  induction entries generalizing selection with
  | nil => rfl
  | cons entry entries ih =>
    simp only [Selection.takeFitting, h.1, Bool.not_true, Bool.false_eq_true, if_false,
      @ih (selection.take entry) h.2, foldl_cons]

end Selections

/-! ## The selected prompt -/

section Prompt

variable {batch : RouterHistoryBatch} {s : RouterContextState} {maxPromptTokens : ℕ}
  {taken : List RouterEntry}

/-- The selection of a list of entries. -/
def selected (s : RouterContextState) (maxPromptTokens : ℕ) (taken : List RouterEntry) :
    Selection :=
  taken.foldl Selection.take ⟨empty s maxPromptTokens, "[", none, 0⟩

theorem selected_concat (entry : RouterEntry) :
    selected s maxPromptTokens (taken ++ [entry]) =
      (selected s maxPromptTokens taken).take entry := by
  rw [selected, foldl_append]
  rfl

theorem through_selected :
    (selected s maxPromptTokens taken).through = taken.getLast?.map RouterEntry.sequence := by
  rcases eq_nil_or_concat' taken with rfl | ⟨before, last, rfl⟩
  · rfl
  · rw [selected_concat, getLast?_concat]
    rfl

theorem plan_selected :
    (selected s maxPromptTokens taken).plan = taken.foldl charge (empty s maxPromptTokens) := by
  induction taken using List.reverseRecOn with
  | nil => rfl
  | append_singleton taken entry ih =>
    rw [selected_concat, foldl_append, ← ih]
    rfl

theorem pendingTokens_selected : (selected s maxPromptTokens taken).pendingTokens =
    (taken.map RouterEntry.tokenCount).foldl (Saturating.add usizeMax) 0 := by
  induction taken using List.reverseRecOn with
  | nil => rfl
  | append_singleton taken entry ih =>
    rw [selected_concat, map_append, foldl_append, ← ih]
    rfl

/-- The selected text is that of an array, without its closing bracket. -/
theorem entries_selected : (selected s maxPromptTokens taken).entries =
    "[" ++ Json.renderItems (taken.map entryForPrompt) := by
  induction taken using List.reverseRecOn with
  | nil => rfl
  | append_singleton taken entry ih =>
    have htext : (selected s maxPromptTokens (taken ++ [entry])).entries =
        (if taken.getLast?.isSome then (selected s maxPromptTokens taken).entries ++ ","
          else (selected s maxPromptTokens taken).entries) ++ (entryForPrompt entry).render := by
      rw [selected_concat, Selection.take, through_selected, Option.isSome_map]
      rfl
    rw [htext, ih, map_append, map_singleton, Json.renderItems_concat]
    cases taken with
    | nil => rfl
    | cons first taken =>
      have hne : (first :: taken).map entryForPrompt ≠ [] := cons_ne_nil _ _
      rw [if_neg hne, if_pos (by rw [getLast?_cons]; rfl)]
      simp only [String.append_assoc]

/-- The prompt, as lists of characters around its sequence number and its entries. -/
theorem exists_summaryPrompt (s : RouterContextState) : ∃ before after : List Char,
    ∀ through text, (s.summaryPrompt through text).toList =
      before ++ (toString through).toList ++ ":\n".toList ++ text.toList ++ after := by
  refine ⟨("Task:\n" ++ s.task ++ "\n\nPrevious router summary:\n" ++ s.summary ++
      "\n\nObserved entries through sequence ").toList,
    ("\n\nPreviously omitted through sequence: " ++ toString s.omittedThrough).toList, ?_⟩
  intro through text
  simp only [RouterContextState.summaryPrompt, String.toList_append, append_assoc]

/-- One more entry raises the estimate of the prompt at most by its costs. -/
theorem estimate_summaryPrompt_le (through : ℕ) (text : String) (entry : RouterEntry)
    (comma : Bool) :
    EstimatedRouterTokens.count (s.summaryPrompt through
        ((if comma then text ++ "," else text) ++ (entryForPrompt entry).render ++ "]")) ≤
      Saturating.add usizeMax
        (EstimatedRouterTokens.count (s.summaryPrompt through (text ++ "]")))
        (entryCost entry).2.1 := by
  obtain ⟨before, after, hprompt⟩ := exists_summaryPrompt s
  have hinsert := estimate_insert
    (before ++ (toString through).toList ++ ":\n".toList ++ text.toList)
    ((if comma then [','] else []) ++ (entryForPrompt entry).render.toList) ("]".toList ++ after)
  have hcomma : estimate ((if comma then [','] else []) ++ (entryForPrompt entry).render.toList) ≤
      (entryCost entry).2.1 := by
    cases comma with
    | false => exact Saturating.le_add (estimate_le_usizeMax _) (Nat.le_add_right _ 1)
    | true =>
      have := estimate_insert [] [','] (entryForPrompt entry).render.toList
      rwa [estimate_singleton (by decide)] at this
  have hprompt₁ := hprompt through
    ((if comma then text ++ "," else text) ++ (entryForPrompt entry).render ++ "]")
  have hprompt₂ := hprompt through (text ++ "]")
  have htext : (if comma then text ++ "," else text).toList =
      text.toList ++ if comma then [','] else [] := by
    cases comma with
    | false => exact (append_nil _).symm
    | true => exact String.toList_append
  simp only [String.toList_append, htext, append_assoc] at hprompt₁ hprompt₂ hinsert
  apply Nat.le_trans _ (Saturating.add_mono (Nat.le_refl _) hcomma)
  simpa only [EstimatedRouterTokens, hprompt₁, hprompt₂, append_assoc] using hinsert

/-- The costs bound the estimate of the prompt, with the widest sequence number. -/
theorem estimate_selected_le :
    EstimatedRouterTokens.count
        (s.summaryPrompt u64Max ((selected s maxPromptTokens taken).entries ++ "]")) ≤
      (selected s maxPromptTokens taken).plan.promptTokens := by
  induction taken using List.reverseRecOn with
  | nil => exact Nat.le_refl _
  | append_singleton taken entry ih =>
    rw [selected_concat]
    apply Nat.le_trans (estimate_summaryPrompt_le ..)
    exact Saturating.add_mono ih (Nat.le_refl _)

/-- The real prompt has a narrower sequence number. -/
theorem estimate_through_le {through : ℕ} (h : through ≤ u64Max) (text : String) :
    EstimatedRouterTokens.count (s.summaryPrompt through text) ≤
      EstimatedRouterTokens.count (s.summaryPrompt u64Max text) := by
  obtain ⟨before, after, hprompt⟩ := exists_summaryPrompt s
  have hle := estimate_toString_le h before (":\n".toList ++ text.toList ++ after)
  simpa only [EstimatedRouterTokens, hprompt, append_assoc] using hle

/-- The work of a selection. -/
def selectedWork (s : RouterContextState) (maxPromptTokens : ℕ) (taken : List RouterEntry)
    (through : ℕ) : RouterSummaryWork where
  baseThrough := s.summarizedThrough
  through := through
  omittedThrough := s.omittedThrough
  pendingTokens := (selected s maxPromptTokens taken).pendingTokens
  prompt := s.summaryPrompt through ((selected s maxPromptTokens taken).entries ++ "]")

/-- A summary work is that of a prefix that was admitted. -/
theorem summaryWork_eq_some {recentRounds : ℕ} {work : RouterSummaryWork}
    (h : batch.summaryWork s recentRounds = some work) :
    ∃ taken last, taken <+: s.entries ∧ (empty s batch.maxPromptTokens).Admits taken ∧
      taken.getLast? = some last ∧
      work = selectedWork s batch.maxPromptTokens taken last.sequence := by
  obtain ⟨taken, hinit, hadmits, htaken⟩ := takeFitting_spec
    ⟨empty s batch.maxPromptTokens, "[", none, 0⟩
    (s.entries.take (if recentRounds = 0 then s.entries.length else s.recentStart recentRounds))
  obtain ⟨through, hthrough, hwork⟩ := Option.bind_eq_some_iff.1 h
  rw [htaken] at hthrough
  obtain ⟨last, hlast, rfl⟩ := Option.map_eq_some_iff.1 (through_selected.symm.trans hthrough)
  refine ⟨taken, last, hinit.trans (List.take_prefix _ _), hadmits, hlast, ?_⟩
  simp only [htaken] at hwork
  exact (Option.some.inj hwork).symm

/-- If everything in the buffer was admitted, everything is selected. -/
theorem summaryWork_of_admits {last : RouterEntry} (hlast : s.entries.getLast? = some last)
    (h : (empty s batch.maxPromptTokens).Admits s.entries) :
    batch.summaryWork s 0 =
      some (selectedWork s batch.maxPromptTokens s.entries last.sequence) := by
  have hselected : Selection.takeFitting ⟨empty s batch.maxPromptTokens, "[", none, 0⟩
      (s.entries.take s.entries.length) = selected s batch.maxPromptTokens s.entries := by
    rw [take_length]
    exact takeFitting_of_admits h
  simp only [summaryWork, if_true, hselected, through_selected, hlast, Option.map_some,
    selectedWork]
  rfl

/-- The work of an admitted selection is within the limit. -/
theorem estimate_selectedWork_le {last : RouterEntry}
    (h : (empty s maxPromptTokens).Admits taken) (hlast : taken.getLast? = some last)
    (hrange : last.sequence ≤ u64Max) :
    EstimatedRouterTokens.count (selectedWork s maxPromptTokens taken last.sequence).prompt ≤
      maxPromptTokens := by
  have hne : taken ≠ [] := by
    rintro rfl
    cases hlast
  calc EstimatedRouterTokens.count (selectedWork s maxPromptTokens taken last.sequence).prompt
    _ ≤ _ := estimate_through_le hrange _
    _ ≤ (selected s maxPromptTokens taken).plan.promptTokens := estimate_selected_le
    _ ≤ maxPromptTokens := by
      rw [plan_selected]
      exact h.promptTokens_le hne

end Prompt

end RouterHistoryBatch

/-! ## Runs -/

/-- One call of `try_append`. -/
structure TryAppend where
  sourceId : String
  kind : RouterEntryKind
  content : Value
  /-- The counter of this call. -/
  counter : RouterTokenCounter

/-- A batch with the context it is about. -/
structure Import where
  batch : RouterHistoryBatch
  state : RouterContextState

/-- A call of `try_append` that returns, with its answer. -/
inductive Import.Step : Import → TryAppend × Bool → Import → Prop
  | tryAppend (i i' : Import) (call : TryAppend) (admitted : Bool) :
      i.batch.tryAppend i.state call.sourceId call.kind call.content call.counter =
        some (i'.batch, i'.state, admitted) →
      Step i (call, admitted) i'

/-- The runs of `try_append` on a new batch. -/
abbrev Imports (s : RouterContextState) (maxPromptTokens : ℕ) (tr : List (TryAppend × Bool))
    (i : Import) : Prop :=
  Run Import.Step ⟨.new s maxPromptTokens, s⟩ tr i

/-- The work is a summary of `taken`, a prefix of the buffer. -/
structure RouterSummaryWork.Covers (work : RouterSummaryWork) (s : RouterContextState)
    (taken : List RouterEntry) : Prop where
  taken_init : taken <+: s.entries
  through : ∃ last, taken.getLast? = some last ∧ work.through = last.sequence
  baseThrough : work.baseThrough = s.summarizedThrough
  omittedThrough : work.omittedThrough = s.omittedThrough
  pendingTokens : work.pendingTokens =
    (taken.map RouterEntry.tokenCount).foldl (Saturating.add usizeMax) 0
  prompt : work.prompt =
    s.summaryPrompt work.through (Value.array (taken.map entryForPrompt)).render

section Runs

variable {s : RouterContextState} {maxPromptTokens : ℕ} {tr : List (TryAppend × Bool)}
  {i i' : Import}

/-- What holds of a batch and its context after any calls of `try_append`. -/
structure Import.Inv (s : RouterContextState) (maxPromptTokens : ℕ) (i : Import) : Prop where
  /-- The batch is the one made anew. -/
  batch : i.batch = .new i.state maxPromptTokens
  /-- If the buffer was empty at first, everything in it was admitted. -/
  admits : s.entries = [] → (RouterHistoryBatch.empty i.state maxPromptTokens).Admits
    i.state.entries

/-- A call that returns did nothing, or its entry fit and was appended. -/
theorem Import.Step.cases {call : TryAppend} {admitted : Bool}
    (h : Import.Step i (call, admitted) i') :
    (admitted = false ∧ i' = i) ∨ ∃ entry, admitted = true ∧
      i.batch.fits (RouterHistoryBatch.entryCost entry).2.1
        (RouterHistoryBatch.entryCost entry).2.2 ∧
      i' = ⟨i.batch.charge entry, i.state.appendEntry entry call.counter⟩ := by
  obtain ⟨batch', state'⟩ := i'
  have happend : i.batch.tryAppend i.state call.sourceId call.kind call.content call.counter =
      some (batch', state', admitted) := by
    cases h with
    | tryAppend _ _ _ happend => exact happend
  rw [RouterHistoryBatch.tryAppend] at happend
  split at happend
  · cases happend
  · obtain ⟨entry, hentry, hrest⟩ := Option.bind_eq_some_iff.1 happend
    by_cases hfits : i.batch.fits (RouterHistoryBatch.entryCost entry).2.1
        (RouterHistoryBatch.entryCost entry).2.2
    · refine .inr ⟨entry, ?_⟩
      simp only [hfits, Bool.not_true, Bool.false_eq_true, if_false] at hrest
      cases hrest
      exact ⟨rfl, hfits, rfl⟩
    · left
      simp only [hfits, Bool.not_false, if_true] at hrest
      cases hrest
      exact ⟨rfl, rfl⟩

/-- An observation that fits is admitted. -/
theorem Import.Step.of_fits {call : TryAppend} {entry : RouterEntry}
    (hboot : i.state.historyBootstrap.isSome)
    (hentry : i.state.observationEntry call.sourceId call.kind call.content call.counter =
      some entry)
    (hfits : i.batch.fits (RouterHistoryBatch.entryCost entry).2.1
      (RouterHistoryBatch.entryCost entry).2.2) :
    Import.Step i (call, true)
      ⟨i.batch.charge entry, i.state.appendEntry entry call.counter⟩ := by
  apply Import.Step.tryAppend
  rw [RouterHistoryBatch.tryAppend, if_neg (by simp [Option.isSome_iff_ne_none.1 hboot]), hentry]
  simp only [Option.bind_eq_bind, Option.bind_some, hfits, Bool.not_true, Bool.false_eq_true,
    if_false]
  rfl

/-- The step lemma: an appended entry leaves the envelope as it is. -/
theorem Import.Inv.step (h : i.Inv s maxPromptTokens) {call : TryAppend × Bool}
    (hstep : Import.Step i call i') : i'.Inv s maxPromptTokens := by
  obtain ⟨call, admitted⟩ := call
  rcases hstep.cases with ⟨-, rfl⟩ | ⟨entry, -, hfits, rfl⟩
  · exact h
  · have hempty : RouterHistoryBatch.empty (i.state.appendEntry entry call.counter)
        maxPromptTokens = RouterHistoryBatch.empty i.state maxPromptTokens := rfl
    have hentries : (i.state.appendEntry entry call.counter).entries =
        i.state.entries ++ [entry] := rfl
    refine ⟨?_, fun hnone => ?_⟩
    · simp only [RouterHistoryBatch.new, hempty, hentries, foldl_append, h.batch]
      rfl
    · rw [hempty, hentries, RouterHistoryBatch.admits_concat]
      rw [h.batch] at hfits
      exact ⟨h.admits hnone, hfits⟩

theorem Imports.inv (h : Imports s maxPromptTokens tr i) : i.Inv s maxPromptTokens := by
  refine Run.invariant h ⟨rfl, fun hnone => ?_⟩ fun _ _ _ hinv hstep => hinv.step hstep
  rw [hnone]
  trivial

theorem covers_selectedWork {taken : List RouterEntry} {last : RouterEntry}
    (hinit : taken <+: s.entries) (hlast : taken.getLast? = some last) :
    (RouterHistoryBatch.selectedWork s maxPromptTokens taken last.sequence).Covers s taken where
  taken_init := hinit
  through := ⟨last, hlast, rfl⟩
  baseThrough := rfl
  omittedThrough := rfl
  pendingTokens := RouterHistoryBatch.pendingTokens_selected
  prompt := by
    rw [RouterHistoryBatch.selectedWork, RouterHistoryBatch.entries_selected, Value.render]

/-- **The accounting of an import**: a rejected call changes nothing, the batch is always the one
made anew, every summary work covers a prefix of the buffer within the limit, and a buffer that was
admitted entry by entry is covered as a whole. The sequence numbers are `u64`s. -/
theorem importAccounting (h : Imports s maxPromptTokens tr i)
    (hrange : ∀ entry ∈ i.state.entries, entry.sequence ≤ u64Max) :
    (∀ call i', Import.Step i (call, false) i' → i' = i) ∧
      i.batch = .new i.state maxPromptTokens ∧
      (∀ recentRounds work, i.batch.summaryWork i.state recentRounds = some work →
        (∃ taken, work.Covers i.state taken) ∧
          EstimatedRouterTokens.count work.prompt ≤ maxPromptTokens) ∧
      (s.entries = [] → i.state.entries ≠ [] → ∃ work,
        i.batch.summaryWork i.state 0 = some work ∧ work.Covers i.state i.state.entries) := by
  have hinv := h.inv
  have hmax : i.batch.maxPromptTokens = maxPromptTokens := by
    rw [hinv.batch, RouterHistoryBatch.new, RouterHistoryBatch.maxPromptTokens_foldl_charge,
      RouterHistoryBatch.empty]
  refine ⟨?_, hinv.batch, ?_, ?_⟩
  · intro call i' hstep
    rcases hstep.cases with ⟨-, hsame⟩ | ⟨_, hadmitted, -⟩
    · exact hsame
    · cases hadmitted
  · intro recentRounds work hwork
    obtain ⟨taken, last, hinit, hadmits, hlast, rfl⟩ :=
      RouterHistoryBatch.summaryWork_eq_some hwork
    rw [hmax] at hadmits ⊢
    refine ⟨⟨taken, covers_selectedWork hinit hlast⟩, ?_⟩
    apply RouterHistoryBatch.estimate_selectedWork_le hadmits hlast
    exact hrange last (hinit.subset (mem_of_getLast? hlast))
  · intro hnone hne
    obtain ⟨last, hlast⟩ := Option.ne_none_iff_exists'.1 (mt getLast?_eq_none_iff.1 hne)
    have hadmits := hinv.admits hnone
    rw [← hmax] at hadmits
    exact ⟨_, RouterHistoryBatch.summaryWork_of_admits hlast hadmits,
      covers_selectedWork prefix_rfl hlast⟩

/-- A context that rebuilds its history. -/
def bootstrapping : RouterContextState :=
  { RouterContextState.default with historyBootstrap := some ⟨["t"], 0, 0, false⟩ }

/-- An observation is admitted to a batch of a hundred tokens. -/
theorem importAccounting_one_round : ∃ tr i, Imports bootstrapping 100 tr i ∧
    i.state.entries.map RouterEntry.sequence = [1] ∧ ∃ work,
      i.batch.summaryWork i.state 0 = some work ∧ work.Covers i.state i.state.entries := by
  obtain ⟨tr, i, hrun, hentries⟩ : ∃ tr i, Imports bootstrapping 100 tr i ∧
      i.state.entries.map RouterEntry.sequence = [1] :=
    ⟨_, _, Run.single (@Import.Step.of_fits _ ⟨"a", .round, .null, Utf8ByteBudget⟩ _ rfl rfl
      (by decide +kernel)), rfl⟩
  have hne : i.state.entries ≠ [] := by
    intro hnone
    rw [hnone] at hentries
    cases hentries
  have hrange : ∀ entry ∈ i.state.entries, entry.sequence ≤ u64Max := by
    intro entry hentry
    have hmem := mem_map_of_mem (f := RouterEntry.sequence) hentry
    rw [hentries, mem_singleton] at hmem
    rw [hmem]
    decide
  obtain ⟨-, -, -, hcovers⟩ := importAccounting hrun hrange
  exact ⟨tr, i, hrun, hentries, hcovers rfl hne⟩

end Runs

end Router

end OpenBitFun
