import OpenBitFun.Lists
import OpenBitFun.RouterContext

/-!
# The Router never loses history silently

Summaries are captured, and applied later in any order, while the buffer drops its oldest
observations. Two facts carry the proof. The buffer holds exactly the observations after the
summary and after the last unrecovered drop. A work that still continues the current summary was
captured after everything up to that summary was settled, so what was dropped since then lies
inside its range.
-/

namespace OpenBitFun

open List

namespace Router

open Json (Value)

/-! ## Runs -/

/-- The context and the works captured from it. -/
structure World where
  /-- The context. -/
  state : RouterContextState
  /-- The works captured so far, in flight or applied. -/
  works : List RouterSummaryWork

/-- What the host does with a context. Each operation comes with the counter it uses. -/
inductive Event where
  /-- `append`. -/
  | append (sourceId : String) (kind : RouterEntryKind) (content : Value)
      (counter : RouterTokenCounter)
  /-- `summary_work`. -/
  | capture (recentRounds triggerTokens : ℕ)
  /-- `summary_work_bounded`. -/
  | captureBounded (recentRounds triggerTokens maxPromptTokens : ℕ)
      (counter : RouterTokenCounter)
  /-- `apply_summary`. -/
  | apply (work : RouterSummaryWork) (summary : String)

/-- An operation with what it did: the entries it dropped and the work it accepted. -/
structure Label where
  /-- The operation. -/
  event : Event
  /-- The entries that backpressure dropped. -/
  dropped : List RouterEntry
  /-- The work whose summary was accepted. -/
  accepted : Option RouterSummaryWork

/-- One operation; a work can be applied once it was captured. -/
inductive World.Step : World → Label → World → Prop
  /-- An observation is appended. -/
  | append (w : World) (sourceId : String) (kind : RouterEntryKind) (content : Value)
      (counter : RouterTokenCounter) (s' : RouterContextState) (dropped : List RouterEntry) :
      w.state.append sourceId kind content counter = some (s', dropped) →
      Step w ⟨.append sourceId kind content counter, dropped, none⟩ { w with state := s' }
  /-- A work is captured, if there is one. -/
  | capture (w : World) (recentRounds triggerTokens : ℕ) :
      Step w ⟨.capture recentRounds triggerTokens, [], none⟩
        { w with works := w.works ++ (w.state.summaryWork recentRounds triggerTokens).toList }
  /-- A work is captured within a budget, if there is one. -/
  | captureBounded (w : World) (recentRounds triggerTokens maxPromptTokens : ℕ)
      (counter : RouterTokenCounter) :
      Step w ⟨.captureBounded recentRounds triggerTokens maxPromptTokens counter, [], none⟩
        { w with works := w.works ++ (w.state.summaryWorkBounded recentRounds triggerTokens
            maxPromptTokens counter).toList }
  /-- A captured work is applied. -/
  | apply (w : World) (work : RouterSummaryWork) (summary : String) : work ∈ w.works →
      Step w ⟨.apply work summary, [],
          if (w.state.applySummary work summary).2 then some work else none⟩
        { w with state := (w.state.applySummary work summary).1 }

/-- A new context, from which nothing was captured. -/
def World.default : World := ⟨.default, []⟩

/-- The runs from the default state. -/
abbrev RunsTo (tr : List Label) (w : World) : Prop := Run World.Step World.default tr w

/-- The sequence numbers dropped in a run. -/
def droppedIn (tr : List Label) : List ℕ :=
  tr.flatMap fun l => l.dropped.map RouterEntry.sequence

/-- The works accepted in a run. -/
def acceptedIn (tr : List Label) : List RouterSummaryWork := tr.filterMap Label.accepted

@[simp] theorem droppedIn_concat (tr : List Label) (l : Label) :
    droppedIn (tr ++ [l]) = droppedIn tr ++ l.dropped.map RouterEntry.sequence := by
  simp [droppedIn]

@[simp] theorem acceptedIn_concat (tr : List Label) (l : Label) :
    acceptedIn (tr ++ [l]) = acceptedIn tr ++ l.accepted.toList := by
  rcases h : l.accepted with _ | work <;> simp [acceptedIn, h]

/-- An observation is inside the range of an accepted work that was captured before any gap. -/
def Covered (accepted : List RouterSummaryWork) (n : ℕ) : Prop :=
  ∃ work ∈ accepted, work.omittedThrough = 0 ∧ work.baseThrough < n ∧ n ≤ work.through

/-! ## The buffer -/

/-- The buffer holds the last observations without a gap, and everything before it is covered by
the summary or dropped. -/
structure RouterContextState.Contiguous (s : RouterContextState) : Prop where
  /-- The sequence numbers are consecutive and end before the next one. -/
  sequences : s.entries.map RouterEntry.sequence =
    List.range' (s.nextSequence - s.entries.length) s.entries.length
  /-- The first one follows the summary and the last drop. -/
  length_eq : max s.summarizedThrough s.omittedThrough + s.entries.length + 1 = s.nextSequence

variable {s s' : RouterContextState}

theorem RouterContextState.Contiguous.mem (h : s.Contiguous) (n : ℕ) :
    n ∈ s.entries.map RouterEntry.sequence ↔
      max s.summarizedThrough s.omittedThrough < n ∧ n < s.nextSequence := by
  have hlen := h.length_eq
  rw [h.sequences, mem_range'_1]
  omega

/-- Dropping the oldest entries keeps the rest of the buffer. -/
theorem dropOldest_spec (entries : List RouterEntry) :
    ∀ omitted, (dropOldest omitted entries).1 ++ (dropOldest omitted entries).2.1 = entries ∧
      (dropOldest omitted entries).2.2 =
        (((dropOldest omitted entries).1.getLast?).map RouterEntry.sequence).getD omitted := by
  induction entries with
  | nil =>
    intro omitted
    exact ⟨rfl, rfl⟩
  | cons entry entries ih =>
    intro omitted
    obtain ⟨happ, hlast⟩ := ih entry.sequence
    simp only [dropOldest]
    split
    · refine ⟨by simp [happ], ?_⟩
      rw [hlast]
      rcases hd : (dropOldest entry.sequence entries).1 with _ | ⟨e, es⟩ <;>
        simp [getLast?_cons]
    · exact ⟨rfl, rfl⟩

theorem RouterContextState.Contiguous.default : RouterContextState.default.Contiguous :=
  ⟨rfl, rfl⟩

/-- What `append` does to the buffer: the new entry joins, and the oldest ones are dropped. -/
theorem RouterContextState.append_spec {sourceId : String} {kind : RouterEntryKind}
    {content : Value} {counter : RouterTokenCounter} {dropped : List RouterEntry}
    (h : s.append sourceId kind content counter = some (s', dropped)) :
    ∃ entry, entry.sequence = s.nextSequence ∧ dropped ++ s'.entries = s.entries ++ [entry] ∧
      s'.nextSequence = s.nextSequence + 1 ∧ s'.summarizedThrough = s.summarizedThrough ∧
      s'.omittedThrough =
        ((dropped.getLast?).map RouterEntry.sequence).getD s.omittedThrough := by
  simp only [RouterContextState.append, RouterContextState.observationEntry, Option.bind_eq_bind,
    Option.bind_eq_some_iff, Option.pure_def, Option.some.injEq, Prod.mk.injEq] at h
  obtain ⟨entry, ⟨projected, -, rfl⟩, rfl, rfl⟩ := h
  obtain ⟨happ, hlast⟩ := dropOldest_spec (s.entries ++ [_]) s.omittedThrough
  exact ⟨_, rfl, happ, rfl, rfl, hlast⟩

/-- The sequence numbers of the buffer after an append, with those it dropped in front. -/
theorem RouterContextState.Contiguous.dropped_append (h : s.Contiguous) {entry : RouterEntry}
    (hentry : entry.sequence = s.nextSequence) {dropped kept : List RouterEntry}
    (happ : dropped ++ kept = s.entries ++ [entry]) :
    dropped.map RouterEntry.sequence =
        List.range' (max s.summarizedThrough s.omittedThrough + 1) dropped.length ∧
      kept.map RouterEntry.sequence =
        List.range' (max s.summarizedThrough s.omittedThrough + 1 + dropped.length)
          kept.length := by
  have hlen := h.length_eq
  have hstart : s.nextSequence - s.entries.length =
      max s.summarizedThrough s.omittedThrough + 1 := by omega
  have hlength := congrArg List.length happ
  simp only [length_append, length_singleton] at hlength
  have hall : (dropped ++ kept).map RouterEntry.sequence =
      List.range' (max s.summarizedThrough s.omittedThrough + 1)
        (dropped.length + kept.length) := by
    rw [happ, hlength, map_append, h.sequences, hstart, range'_concat]
    simp only [map_cons, map_nil, hentry, Nat.one_mul]
    congr 2
    omega
  rw [map_append, ← range'_append_1] at hall
  exact append_inj hall (by simp)

/-- An append keeps the buffer contiguous. -/
theorem RouterContextState.Contiguous.append (h : s.Contiguous) {sourceId : String}
    {kind : RouterEntryKind} {content : Value} {counter : RouterTokenCounter}
    {dropped : List RouterEntry}
    (happend : s.append sourceId kind content counter = some (s', dropped)) :
    s'.Contiguous ∧ (∀ n ∈ dropped.map RouterEntry.sequence,
      max s.summarizedThrough s.omittedThrough < n ∧ s'.omittedThrough ≠ 0 ∧
        n ≤ s'.omittedThrough) ∧ (dropped = [] → s'.omittedThrough = s.omittedThrough) ∧
      s.omittedThrough ≤ s'.omittedThrough := by
  obtain ⟨entry, hentry, happ, hnext, hsumm, homitted⟩ := RouterContextState.append_spec happend
  obtain ⟨hdropped, hkept⟩ := h.dropped_append hentry happ
  have hlen := h.length_eq
  have hlength := congrArg List.length happ
  simp only [length_append, length_singleton] at hlength
  -- the last one dropped is the new gap
  have hgap : s'.omittedThrough = if dropped = [] then s.omittedThrough
      else max s.summarizedThrough s.omittedThrough + dropped.length := by
    rw [homitted]
    split
    · next hnil => simp [hnil]
    · next hnil =>
      rw [← getLast?_map, hdropped]
      have hpos : dropped.length ≠ 0 := fun h => hnil (eq_nil_of_length_eq_zero h)
      rw [getLast?_range']
      simp only [hpos, if_false, Option.getD_some]
      omega
  have hpos : dropped ≠ [] → 0 < dropped.length := length_pos_iff.2
  refine ⟨⟨?_, ?_⟩, ?_, ?_, ?_⟩
  · rw [hkept, hnext]
    congr 1
    omega
  · rw [hsumm, hgap, hnext]
    split
    · next hnil =>
      rw [hnil, length_nil] at hlength
      omega
    · next hnil =>
      have := hpos hnil
      omega
  · intro n hn
    have hnil : dropped ≠ [] := by
      rintro rfl
      simp at hn
    rw [hdropped, mem_range'_1] at hn
    rw [hgap, if_neg hnil]
    omega
  · intro hnil
    rw [hgap, if_pos hnil]
  · rw [hgap]
    split <;> omega

theorem RouterContextState.applySummary_spec {work : RouterSummaryWork} {summary : String}
    (h : (s.applySummary work summary).2 = true) :
    work.baseThrough = s.summarizedThrough ∧ s.summarizedThrough < work.through ∧
      work.through < s.nextSequence ∧
      (s.applySummary work summary).1.summarizedThrough = work.through ∧
      (s.applySummary work summary).1.nextSequence = s.nextSequence ∧
      (s.applySummary work summary).1.entries =
        s.entries.filter (fun entry => entry.sequence > work.through) ∧
      (s.applySummary work summary).1.omittedThrough =
        if work.omittedThrough = 0 ∧ s.omittedThrough ≤ work.through then 0
        else s.omittedThrough := by
  simp only [RouterContextState.applySummary] at h ⊢
  split at h
  · cases h
  · next hguard =>
    rw [if_neg hguard]
    simp only [ne_eq, not_or, not_not, not_le] at hguard
    obtain ⟨hbase, hthrough, hnext, -⟩ := hguard
    exact ⟨hbase, hthrough, hnext, rfl, rfl, rfl, rfl⟩

theorem RouterContextState.applySummary_refused {work : RouterSummaryWork} {summary : String}
    (h : (s.applySummary work summary).2 = false) : (s.applySummary work summary).1 = s := by
  simp only [RouterContextState.applySummary] at h ⊢
  split
  · rfl
  · next hguard => simp [hguard] at h

/-- An accepted summary keeps the buffer contiguous. -/
theorem RouterContextState.Contiguous.applySummary (h : s.Contiguous) {work : RouterSummaryWork}
    {summary : String} (hacc : (s.applySummary work summary).2 = true) :
    (s.applySummary work summary).1.Contiguous := by
  obtain ⟨-, hthrough, hnext, hsumm, hnextE, hentries, homitted⟩ :=
    RouterContextState.applySummary_spec hacc
  have hlen := h.length_eq
  -- the entries after the summary are a tail of the buffer
  have hmap : (s.applySummary work summary).1.entries.map RouterEntry.sequence =
      (List.range' (s.nextSequence - s.entries.length) s.entries.length).filter
        fun n => n > work.through := by
    rw [hentries, ← h.sequences, filter_map]
    rfl
  rw [filter_range'_gt] at hmap
  have hcount : (s.applySummary work summary).1.entries.length =
      s.nextSequence - s.entries.length + s.entries.length -
        max (s.nextSequence - s.entries.length) (work.through + 1) := by
    rw [← length_map RouterEntry.sequence, hmap, length_range']
  refine ⟨?_, ?_⟩
  · rw [hmap, hcount, hnextE]
    congr 1
    omega
  · rw [hcount, hsumm, homitted, hnextE]
    split <;> omega

/-! ## What is never lost -/

/-- **The invariant of every reachable world.** -/
structure World.Inv (tr : List Label) (w : World) : Prop where
  /-- The buffer is contiguous. -/
  contiguous : w.state.Contiguous
  /-- No work is ahead of the current summary. -/
  base_le : ∀ work ∈ w.works, work.baseThrough ≤ w.state.summarizedThrough
  /-- An observation dropped and not recovered is reported by the gap. -/
  gap : ∀ n ∈ droppedIn tr, Covered (acceptedIn tr) n ∨
    w.state.omittedThrough ≠ 0 ∧ n ≤ w.state.omittedThrough
  /-- A work captured before any gap that still continues the summary has seen every observation
  that was dropped since. -/
  inRange : ∀ work ∈ w.works, work.omittedThrough = 0 →
    work.baseThrough = w.state.summarizedThrough →
      ∀ n ∈ droppedIn tr, Covered (acceptedIn tr) n ∨ work.baseThrough < n

theorem Covered.mono {accepted accepted' : List RouterSummaryWork} {n : ℕ}
    (h : Covered accepted n) (hsub : accepted ⊆ accepted') : Covered accepted' n := by
  obtain ⟨work, hmem, hrest⟩ := h
  exact ⟨work, hsub hmem, hrest⟩

/-- What a captured work says of the context it was captured from. -/
structure RouterContextState.Captures (s : RouterContextState) (work : RouterSummaryWork) :
    Prop where
  /-- It continues the current summary. -/
  base_eq : work.baseThrough = s.summarizedThrough
  /-- It knows the current gap. -/
  omitted_eq : work.omittedThrough = s.omittedThrough
  /-- It ends with an entry of the buffer. -/
  through_mem : work.through ∈ s.entries.map RouterEntry.sequence

theorem RouterContextState.Captures.of_observed {observed : List RouterEntry}
    {work : RouterSummaryWork} (hsub : observed ⊆ s.entries)
    (h : s.summaryWorkForPrefix observed = some work) : s.Captures work := by
  rcases hlast : observed.getLast? with _ | last
  · simp [RouterContextState.summaryWorkForPrefix, hlast] at h
  · simp only [RouterContextState.summaryWorkForPrefix, hlast, Option.bind_eq_bind,
      Option.bind_some, Option.pure_def, Option.some.injEq] at h
    subst h
    exact ⟨rfl, rfl, mem_map_of_mem (hsub (mem_of_getLast? hlast))⟩

theorem RouterContextState.Captures.of_summaryWork {recentRounds triggerTokens : ℕ}
    {work : RouterSummaryWork} (h : s.summaryWork recentRounds triggerTokens = some work) :
    s.Captures work := by
  simp only [RouterContextState.summaryWork] at h
  split at h
  · cases h
  · exact .of_observed (take_subset _ _) h

theorem RouterContextState.Captures.of_boundedLoop {observed : List RouterEntry}
    {maxPromptTokens : ℕ} {counter : RouterTokenCounter} (hsub : observed ⊆ s.entries)
    (counts : List ℕ) : ∀ {selected work : RouterSummaryWork}, s.Captures selected →
      s.boundedLoop observed maxPromptTokens counter selected counts = some work →
      s.Captures work := by
  induction counts with
  | nil =>
    intro selected work hsel h
    cases h
    exact hsel
  | cons count counts ih =>
    intro selected work hsel h
    simp only [RouterContextState.boundedLoop, Option.bind_eq_bind,
      Option.bind_eq_some_iff] at h
    obtain ⟨next, hnext, h⟩ := h
    refine ih ?_ h
    split
    · exact .of_observed (List.Subset.trans (take_subset _ _) hsub) hnext
    · exact hsel

theorem RouterContextState.Captures.of_summaryWorkBounded
    {recentRounds triggerTokens maxPromptTokens : ℕ} {counter : RouterTokenCounter}
    {work : RouterSummaryWork}
    (h : s.summaryWorkBounded recentRounds triggerTokens maxPromptTokens counter = some work) :
    s.Captures work := by
  simp only [RouterContextState.summaryWorkBounded] at h
  generalize hobserved : List.take _ s.entries = observed at h
  have hsub : observed ⊆ s.entries := hobserved ▸ take_subset _ _
  split at h
  · cases h
  · split at h
    · cases h
    · simp only [Option.bind_eq_bind, Option.bind_eq_some_iff] at h
      obtain ⟨first, hfirst, h⟩ := h
      split at h
      · cases h
      · exact .of_boundedLoop hsub _ (.of_observed (List.Subset.trans (take_subset _ _) hsub) hfirst) h

/-- A work captured without a gap has seen every observation of its range. -/
theorem RouterContextState.Contiguous.captured (h : s.Contiguous) {work : RouterSummaryWork}
    (hw : s.Captures work) (homitted : work.omittedThrough = 0) {n : ℕ}
    (hbase : work.baseThrough < n) (hthrough : n ≤ work.through) :
    n ∈ s.entries.map RouterEntry.sequence := by
  have hlast := (h.mem _).1 hw.through_mem
  have hbaseE := hw.base_eq
  have homittedE := hw.omitted_eq
  refine (h.mem n).2 ?_
  omega

/-! ## Every step keeps the invariant -/

variable {tr : List Label} {w w' : World}

theorem World.Inv.default : World.Inv [] World.default where
  contiguous := RouterContextState.Contiguous.default
  base_le := by simp [World.default]
  gap := by simp [droppedIn]
  inRange := by simp [World.default]

theorem World.Inv.capture (h : w.Inv tr) {captured : Option RouterSummaryWork}
    (hw : ∀ work, captured = some work → w.state.Captures work) {l : Label}
    (hdropped : l.dropped = []) (haccepted : l.accepted = none) :
    World.Inv (tr ++ [l]) { w with works := w.works ++ captured.toList } := by
  have hdrops : droppedIn (tr ++ [l]) = droppedIn tr := by simp [hdropped]
  have haccepts : acceptedIn (tr ++ [l]) = acceptedIn tr := by simp [haccepted]
  refine ⟨h.contiguous, ?_, ?_, ?_⟩
  · intro work hmem
    rcases mem_append.1 hmem with hmem | hmem
    · exact h.base_le work hmem
    · exact le_of_eq (hw work (by simpa using hmem)).base_eq
  · rw [hdrops, haccepts]
    exact h.gap
  · intro work hmem homitted hbase
    rw [hdrops, haccepts]
    rcases mem_append.1 hmem with hmem | hmem
    · exact h.inRange work hmem homitted hbase
    · -- without a gap, everything dropped so far is covered
      intro n hn
      rcases h.gap n hn with hcov | ⟨hne, -⟩
      · exact Or.inl hcov
      · exact absurd ((hw work (by simpa using hmem)).omitted_eq.symm.trans homitted) hne

/-- **A step keeps the invariant.** -/
theorem World.Inv.step (h : w.Inv tr) {l : Label} (hstep : World.Step w l w') :
    World.Inv (tr ++ [l]) w' := by
  cases hstep with
  | append sourceId kind content counter s' dropped happend =>
    obtain ⟨-, -, -, -, hsumm, -⟩ := RouterContextState.append_spec happend
    obtain ⟨hcont, hdropped, -, hmono⟩ := h.contiguous.append happend
    refine ⟨hcont, ?_, ?_, ?_⟩
    · intro work hmem
      rw [hsumm]
      exact h.base_le work hmem
    · intro n hn
      rw [droppedIn_concat] at hn
      simp only [acceptedIn_concat, Option.toList_none, append_nil]
      rcases mem_append.1 hn with hn | hn
      · rcases h.gap n hn with hcov | ⟨hne, hle⟩
        · exact Or.inl hcov
        · exact Or.inr ⟨by omega, by omega⟩
      · exact Or.inr (hdropped n hn).2
    · intro work hmem homitted hbase n hn
      rw [droppedIn_concat] at hn
      simp only [acceptedIn_concat, Option.toList_none, append_nil]
      simp only at hbase
      rw [hsumm] at hbase
      rcases mem_append.1 hn with hn | hn
      · exact h.inRange work hmem homitted hbase n hn
      · have := (hdropped n hn).1
        exact Or.inr (by omega)
  | capture =>
    exact h.capture (fun work hw => .of_summaryWork hw) rfl rfl
  | captureBounded =>
    exact h.capture (fun work hw => .of_summaryWorkBounded hw) rfl rfl
  | @apply work summary hmem =>
    rcases hacc : (w.state.applySummary work summary).2 with _ | _
    · have hstate := RouterContextState.applySummary_refused hacc
      simp only [hstate, Bool.false_eq_true, if_false]
      refine ⟨h.contiguous, h.base_le, ?_, ?_⟩
      · simpa using h.gap
      · simpa using h.inRange
    · obtain ⟨hbase, hthrough, -, hsumm, -, -, homitted⟩ :=
        RouterContextState.applySummary_spec hacc
      have haccepts : acceptedIn (tr ++ [⟨.apply work summary, [], some work⟩]) =
          acceptedIn tr ++ [work] := by simp
      have hdrops : droppedIn (tr ++ [⟨.apply work summary, [], some work⟩]) = droppedIn tr := by
        simp
      simp only [if_true]
      refine ⟨h.contiguous.applySummary hacc, ?_, ?_, ?_⟩
      · intro work' hmem'
        have := h.base_le work' hmem'
        simp only [hsumm]
        omega
      · intro n hn
        rw [hdrops] at hn
        rw [haccepts]
        simp only [homitted]
        rcases h.gap n hn with hcov | ⟨hne, hle⟩
        · exact Or.inl (hcov.mono (subset_append_left _ _))
        · split
          · next hreset =>
            -- the work was captured before the gap, and reaches beyond it
            rcases h.inRange work hmem hreset.1 hbase n hn with hcov | hlt
            · exact Or.inl (hcov.mono (subset_append_left _ _))
            · exact Or.inl ⟨work, by simp, hreset.1, hlt, by omega⟩
          · exact Or.inr ⟨hne, hle⟩
      · intro work' hmem' _ hbase'
        have := h.base_le work' hmem'
        simp only [hsumm] at hbase'
        omega

/-- Every reachable world satisfies the invariant. -/
theorem RunsTo.inv (h : RunsTo tr w) : w.Inv tr :=
  h.history (P := World.Inv) World.Inv.default fun _ _ _ _ hinv hstep => hinv.step hstep

/-! ## The promise -/

theorem RouterContextState.prepare_historyTruncated (h : s.omittedThrough ≠ 0)
    (recentRounds maxTokens : ℕ) (counter : RouterTokenCounter) :
    (s.prepare recentRounds maxTokens counter).historyTruncated = true := by
  simp only [RouterContextState.prepare]
  split
  · simp [h]
  · rfl

/-- **History is never lost silently.** -/
structure KeepsHistory (tr : List Label) (w : World) : Prop where
  /-- The entries are consecutive and end before the next sequence number. -/
  sequences : w.state.entries.length < w.state.nextSequence ∧
    w.state.entries.map RouterEntry.sequence =
      List.range' (w.state.nextSequence - w.state.entries.length) w.state.entries.length
  /-- They come after the summary. -/
  above : ∀ entry ∈ w.state.entries, w.state.summarizedThrough < entry.sequence
  /-- Without a known gap, every observation is summarized or present. -/
  complete : w.state.omittedThrough = 0 → ∀ n, 1 ≤ n → n ≤ w.state.nextSequence - 1 →
    n ≤ w.state.summarizedThrough ∨ n ∈ w.state.entries.map RouterEntry.sequence
  /-- The range of a work captured without a gap is what it has seen. -/
  captured : ∀ recentRounds triggerTokens maxPromptTokens counter work,
    w.state.summaryWork recentRounds triggerTokens = some work ∨
      w.state.summaryWorkBounded recentRounds triggerTokens maxPromptTokens counter = some work →
    work.omittedThrough = 0 → ∀ n, work.baseThrough < n → n ≤ work.through →
      n ∈ w.state.entries.map RouterEntry.sequence
  /-- A dropped observation that no accepted summary captured before a gap covers is reported. -/
  reported : ∀ n ∈ droppedIn tr, ¬Covered (acceptedIn tr) n → w.state.omittedThrough ≠ 0 ∧
    ∀ recentRounds maxTokens counter,
      (w.state.prepare recentRounds maxTokens counter).historyTruncated = true

/-- **The Router context keeps its history**, in every reachable state. -/
theorem RunsTo.keepsHistory (h : RunsTo tr w) : KeepsHistory tr w := by
  have hinv := RunsTo.inv h
  have hlen := hinv.contiguous.length_eq
  refine
    { sequences := ⟨by omega, hinv.contiguous.sequences⟩
      above := ?_
      complete := ?_
      captured := ?_
      reported := ?_ }
  · intro entry hmem
    have := (hinv.contiguous.mem _).1 (mem_map_of_mem hmem)
    omega
  · intro homitted n hpos hle
    rw [hinv.contiguous.mem]
    omega
  · intro recentRounds triggerTokens maxPromptTokens counter work hwork homitted n hbase hthrough
    have hcap : w.state.Captures work := by
      rcases hwork with hwork | hwork
      · exact .of_summaryWork hwork
      · exact .of_summaryWorkBounded hwork
    exact hinv.contiguous.captured hcap homitted hbase hthrough
  · intro n hn hcov
    rcases hinv.gap n hn with h | ⟨hne, -⟩
    · exact absurd h hcov
    · exact ⟨hne, fun recentRounds maxTokens counter =>
        RouterContextState.prepare_historyTruncated hne recentRounds maxTokens counter⟩

/-- Two rounds are observed, the first is captured and summarized. -/
theorem keepsHistory_two_rounds : ∃ tr w, RunsTo tr w ∧ w.state.summarizedThrough = 1 ∧
    w.state.entries.map RouterEntry.sequence = [2] ∧ KeepsHistory tr w := by
  obtain ⟨tr, w, hrun, hsumm, hentries⟩ : ∃ tr w, RunsTo tr w ∧ w.state.summarizedThrough = 1 ∧
      w.state.entries.map RouterEntry.sequence = [2] := by
    have h₁ := Run.single (World.Step.append .default "a" .round .null Utf8ByteBudget _ _ rfl)
    have h₂ := h₁.step (World.Step.append _ "b" .round .null Utf8ByteBudget _ _ rfl)
    have h₃ := h₂.step (World.Step.capture _ 1 0)
    refine ⟨_, _, h₃.step (World.Step.apply _ _ "s" mem_cons_self), ?_, ?_⟩
    · rfl
    · rfl
  exact ⟨tr, w, hrun, hsumm, hentries, RunsTo.keepsHistory hrun⟩

end Router

end OpenBitFun
