import Mathlib
import OpenBitFun.ToolCallAccumulator

/-!
# Runs of tool-call deltas

The deltas of one key come in runs: a run starts with a delta that brings a new id and goes on until
the next one. What should become of a run is said by its deltas alone (`named`, `argumentsOf`,
`callOf`), and one invariant says that the pending call of a key is what its last run has become
(`Holds`). Every run is reassembled into its call. What is streamed of its arguments meanwhile are
the arguments of its deltas one after the other, and these are the arguments of the call unless a
snapshot comes after other arguments.
-/

namespace OpenBitFun

open List

namespace ToolCallAccumulator

universe u

/-! ## What a run says -/

/-- The arguments a delta brings, which may be none. -/
def ToolCallDelta.args (d : ToolCallDelta) : List Char := d.arguments.getD []

/-- The name a delta brings, where it is not empty. -/
def ToolCallDelta.name? (d : ToolCallDelta) : Option String := d.toolName.filter (· ≠ "")

/-- The name of a call: the first name that is not empty. -/
def named (run : List ToolCallDelta) : String := (run.findSome? ToolCallDelta.name?).getD ""

/-- The id of a call is that of the first delta of its run. -/
def idOf (run : List ToolCallDelta) : String := (run.head?.bind ToolCallDelta.id?).getD ""

/-- A delta brings a snapshot: it says so, or it is for a user interface and goes on from all the
arguments since the last snapshot. -/
def isSnapshot (before since : List ToolCallDelta) (d : ToolCallDelta) : Bool :=
  d.args ≠ [] && (d.argumentsIsSnapshot || (named (before ++ [d]) = generativeUi &&
    since.flatMap ToolCallDelta.args ≠ [] &&
    (since.flatMap ToolCallDelta.args).isPrefixOf d.args))

/-- The deltas from the last snapshot on, of a run in reverse. -/
def sinceSnapshotRev : List ToolCallDelta → List ToolCallDelta
  | [] => []
  | d :: before =>
    if isSnapshot before.reverse (sinceSnapshotRev before) d then [d]
    else sinceSnapshotRev before ++ [d]

/-- The deltas of a run from the last snapshot on. -/
def sinceSnapshot (run : List ToolCallDelta) : List ToolCallDelta := sinceSnapshotRev run.reverse

/-- The arguments of a call: those of its deltas, from the last snapshot on. -/
def argumentsOf (run : List ToolCallDelta) : List Char :=
  (sinceSnapshot run).flatMap ToolCallDelta.args

/-- A delta that carries a name or arguments. -/
def ToolCallDelta.carries (d : ToolCallDelta) : Bool :=
  d.name?.isSome || d.args ≠ []

/-- The call that a run becomes, if it carries a name or arguments. -/
def callOf {ι : Type u} (interpret : String → List Char → ι) (run : List ToolCallDelta) :
    Option (FinalizedToolCall ι) :=
  if run.any ToolCallDelta.carries then
    some ⟨idOf run, named run, argumentsOf run, interpret (named run) (argumentsOf run)⟩
  else none

/-- A delta starts a run, where the last run has an id or there is none (`""`). -/
def ToolCallDelta.starts (current : String) (d : ToolCallDelta) : Bool :=
  d.id?.any (· ≠ current)

/-- The runs of the deltas of one key, after the deltas of the run that goes on. -/
def runsFrom : (current : List ToolCallDelta) → List ToolCallDelta → List (List ToolCallDelta)
  | current, [] => [current]
  | current, d :: ds =>
    if d.starts (idOf current) then current :: runsFrom [d] ds else runsFrom (current ++ [d]) ds

/-- The runs of the deltas of one key. What comes before the first id belongs to none. -/
def runs : List ToolCallDelta → List (List ToolCallDelta)
  | [] => []
  | d :: ds => if d.id?.isSome then runsFrom [d] ds else runs ds

/-- The number of deltas before the first id. -/
def leading (ds : List ToolCallDelta) : ℕ := (ds.takeWhile fun d => d.id?.isNone).length

/-! ## One more delta -/

variable {run before : List ToolCallDelta} {d : ToolCallDelta}

theorem getD_name? (d : ToolCallDelta) : d.name?.getD "" = d.toolName.getD "" := by
  rw [ToolCallDelta.name?]
  cases d.toolName with
  | none => rfl
  | some name =>
    by_cases hname : name = ""
    · simp [Option.filter, hname]
    · simp [Option.filter, hname]

/-- A call has no name when no delta brings one. -/
theorem named_eq_empty_iff (run : List ToolCallDelta) :
    named run = "" ↔ run.findSome? ToolCallDelta.name? = none := by
  refine ⟨fun h => ?_, fun h => by rw [named, h]; rfl⟩
  cases hfound : run.findSome? ToolCallDelta.name? with
  | none => rfl
  | some name =>
    obtain ⟨d, -, hname⟩ := exists_of_findSome?_eq_some hfound
    have hne := (Option.filter_eq_some_iff.1 hname).2
    rw [named, hfound, Option.getD_some] at h
    simp [h] at hne

theorem named_concat (run : List ToolCallDelta) (d : ToolCallDelta) :
    named (run ++ [d]) = if named run = "" then d.toolName.getD "" else named run := by
  by_cases hnone : named run = ""
  · rw [if_pos hnone, named, findSome?_append, (named_eq_empty_iff run).1 hnone,
      Option.none_or, ← getD_name?]
    cases hname : d.name? with
    | none => simp [hname]
    | some name => simp [hname]
  · obtain ⟨name, hname⟩ := Option.ne_none_iff_exists'.1 (mt (named_eq_empty_iff run).2 hnone)
    rw [if_neg hnone, named, named, findSome?_append, hname]
    rfl

theorem sinceSnapshot_concat (run : List ToolCallDelta) (d : ToolCallDelta) :
    sinceSnapshot (run ++ [d]) =
      if isSnapshot run (sinceSnapshot run) d then [d] else sinceSnapshot run ++ [d] := by
  rw [sinceSnapshot, reverse_append, reverse_singleton, singleton_append,
    sinceSnapshotRev, reverse_reverse]
  rfl

theorem argumentsOf_concat (run : List ToolCallDelta) (d : ToolCallDelta) :
    argumentsOf (run ++ [d]) =
      if isSnapshot run (sinceSnapshot run) d then d.args else argumentsOf run ++ d.args := by
  rw [argumentsOf, sinceSnapshot_concat]
  split
  · simp
  · simp [argumentsOf]

theorem idOf_concat (h : run ≠ []) (d : ToolCallDelta) : idOf (run ++ [d]) = idOf run := by
  obtain ⟨d', run, rfl⟩ := exists_cons_of_ne_nil h
  rfl

/-- A run without a name and without arguments carries nothing. -/
theorem any_carries_iff (run : List ToolCallDelta) :
    run.any ToolCallDelta.carries = true ↔ named run ≠ "" ∨ argumentsOf run ≠ [] := by
  induction run using List.reverseRecOn with
  | nil => simp [named, argumentsOf, sinceSnapshot, sinceSnapshotRev]
  | append_singleton run d ih =>
    have hname : d.name?.isSome = true ↔ d.toolName.getD "" ≠ "" := by
      rw [← getD_name?]
      cases hfound : d.name? with
      | none => simp
      | some name =>
        have hne := (Option.filter_eq_some_iff.1 hfound).2
        simpa using hne
    have hcarries : d.carries = true ↔ d.toolName.getD "" ≠ "" ∨ d.args ≠ [] := by
      rw [ToolCallDelta.carries, Bool.or_eq_true, hname, decide_eq_true_eq]
    have hsnapshot : isSnapshot run (sinceSnapshot run) d = true → d.args ≠ [] := by
      intro h
      rw [isSnapshot, Bool.and_eq_true, decide_eq_true_eq] at h
      exact h.1
    have hlast : [d].any ToolCallDelta.carries = true ↔ d.carries = true := by simp
    rw [any_append, Bool.or_eq_true, ih, named_concat, argumentsOf_concat, hlast, hcarries]
    by_cases hempty : named run = ""
    · by_cases hs : isSnapshot run (sinceSnapshot run) d = true
      · simp [hempty, hs, hsnapshot hs]
      · simp [hempty, hs]
        tauto
    · simp [hempty]

/-! ## The pending call -/

variable {σ γ ι : Type u} {ui : OpenUi σ γ} {interpret : String → List Char → ι}
  {p : PendingToolCall σ}

/-- A pending call is what a run has become. -/
structure Holds (p : PendingToolCall σ) (run : List ToolCallDelta) : Prop where
  ne_nil : run ≠ []
  toolId : p.toolId = idOf run
  toolId_ne : idOf run ≠ ""
  toolName : p.toolName = named run
  rawArguments : p.rawArguments = argumentsOf run
  early : p.earlyDetectedEmitted = decide (named run ≠ "")

/-- A pending call after the id and the name of a delta, and before the rest of it. -/
structure Ready (p : PendingToolCall σ) (before : List ToolCallDelta) (d : ToolCallDelta) :
    Prop where
  toolId : p.toolId = idOf (before ++ [d])
  toolId_ne : idOf (before ++ [d]) ≠ ""
  toolName : p.toolName = named (before ++ [d])
  rawArguments : p.rawArguments = argumentsOf before
  early : p.earlyDetectedEmitted = decide (named before ≠ "")

/-- The detection of a delta: the first after which the name is known. -/
def earlyOf (before : List ToolCallDelta) (d : ToolCallDelta) : Option EarlyDetectedToolCall :=
  if named before = "" ∧ named (before ++ [d]) ≠ "" then
    some ⟨idOf (before ++ [d]), named (before ++ [d])⟩
  else none

/-- The chunk of parameters of a delta: its arguments, as they are. -/
def paramsOf (before : List ToolCallDelta) (d : ToolCallDelta) : Option ToolCallParamsChunk :=
  if d.args ≠ [] ∧ named (before ++ [d]) ≠ generativeUi then
    some ⟨idOf (before ++ [d]), named (before ++ [d]), d.args⟩
  else none

theorem named_ne_of_named_ne (h : named before ≠ "") : named (before ++ [d]) ≠ "" := by
  rwa [named_concat, if_neg h]

/-- A pending call after the detection for a delta, and before its arguments. -/
structure Detected (p : PendingToolCall σ) (before : List ToolCallDelta) (d : ToolCallDelta) :
    Prop where
  toolId : p.toolId = idOf (before ++ [d])
  toolId_ne : idOf (before ++ [d]) ≠ ""
  toolName : p.toolName = named (before ++ [d])
  rawArguments : p.rawArguments = argumentsOf before
  early : p.earlyDetectedEmitted = decide (named (before ++ [d]) ≠ "")

theorem Ready.detect (h : Ready p before d) :
    p.detect.1 = earlyOf before d ∧ Detected p.detect.2 before d := by
  obtain ⟨toolId, toolName, raw, early, openui⟩ := p
  obtain ⟨rfl, hid, rfl, rfl, rfl⟩ := h
  by_cases hbefore : named before = ""
  · by_cases hname : named (before ++ [d]) = ""
    · refine ⟨by simp [PendingToolCall.detect, earlyOf, hname], ?_⟩
      simp only [PendingToolCall.detect, hname, ne_eq, not_true_eq_false, decide_false,
        Bool.and_false, Bool.false_and, Bool.false_eq_true, if_false]
      exact ⟨rfl, hid, hname.symm, rfl, by simp [hbefore, hname]⟩
    · simp only [PendingToolCall.detect, PendingToolCall.hasPending, earlyOf, hbefore, hname, hid,
        ne_eq, not_true_eq_false, not_false_eq_true, decide_true, decide_false, Bool.not_false,
        Bool.and_self, if_true, true_and]
      exact ⟨rfl, hid, rfl, rfl, by simp [hname]⟩
  · have hname : named (before ++ [d]) ≠ "" := named_ne_of_named_ne hbefore
    refine ⟨by simp [PendingToolCall.detect, earlyOf, hbefore], ?_⟩
    simp only [PendingToolCall.detect, hbefore, ne_eq, not_false_eq_true, decide_true,
      Bool.not_true, Bool.and_false, Bool.false_eq_true, if_false]
    exact ⟨rfl, hid, rfl, rfl, by simp [hname]⟩

theorem args_eq_nil (h : d.arguments? = none) : d.args = [] := by
  rw [ToolCallDelta.arguments?] at h
  rw [ToolCallDelta.args]
  cases harguments : d.arguments with
  | none => rfl
  | some chunk =>
    rw [harguments, Option.filter_eq_none_iff] at h
    simpa using h

theorem args_of_arguments? {chunk : List Char} (h : d.arguments? = some chunk) :
    d.args = chunk ∧ chunk ≠ [] := by
  rw [ToolCallDelta.arguments?, Option.filter_eq_some_iff] at h
  refine ⟨?_, by simpa using h.2⟩
  rw [ToolCallDelta.args, h.1]
  rfl

theorem PendingToolCall.takeArguments_eq (ui : OpenUi σ γ) (p : PendingToolCall σ)
    (isSnapshot : Bool) (chunk : List Char) :
    (p.takeArguments ui isSnapshot chunk).toolId = p.toolId ∧
      (p.takeArguments ui isSnapshot chunk).toolName = p.toolName ∧
      (p.takeArguments ui isSnapshot chunk).earlyDetectedEmitted = p.earlyDetectedEmitted ∧
      (p.takeArguments ui isSnapshot chunk).rawArguments =
        if p.takesSnapshot isSnapshot chunk then chunk else p.rawArguments ++ chunk := by
  rw [PendingToolCall.takeArguments]
  by_cases hsnapshot : p.takesSnapshot isSnapshot chunk
  · rw [if_pos hsnapshot, if_pos hsnapshot]
    split
    · exact ⟨rfl, rfl, rfl, rfl⟩
    · exact ⟨rfl, rfl, rfl, rfl⟩
  · rw [if_neg hsnapshot, if_neg hsnapshot]
    exact ⟨rfl, rfl, rfl, rfl⟩

/-- The code takes a snapshot where the run has one. -/
theorem Detected.takesSnapshot (h : Detected p before d) (hargs : d.args ≠ []) :
    p.takesSnapshot d.argumentsIsSnapshot d.args = isSnapshot before (sinceSnapshot before) d := by
  have hraw : (sinceSnapshot before).flatMap ToolCallDelta.args = p.rawArguments :=
    h.rawArguments.symm
  simp [isSnapshot, PendingToolCall.takesSnapshot, hargs, hraw, h.toolName]

theorem Detected.receive (h : Detected p before d) (ui : OpenUi σ γ) :
    (p.receive ui d).1 = paramsOf before d ∧ Holds (p.receive ui d).2.2 (before ++ [d]) := by
  rw [PendingToolCall.receive]
  cases harguments : d.arguments? with
  | none =>
    have hargs := args_eq_nil harguments
    refine ⟨by simp [paramsOf, hargs], by simp, h.toolId, h.toolId_ne, h.toolName, ?_, h.early⟩
    rw [argumentsOf_concat, hargs, append_nil]
    simp [isSnapshot, hargs, h.rawArguments]
  | some chunk =>
    obtain ⟨rfl, hargs⟩ := args_of_arguments? harguments
    have hpending : p.hasPending = true := by
      simp [PendingToolCall.hasPending, h.toolId, h.toolId_ne]
    obtain ⟨hid, hname, hearly, hraw⟩ := p.takeArguments_eq ui d.argumentsIsSnapshot d.args
    rw [h.takesSnapshot hargs, h.rawArguments, ← argumentsOf_concat] at hraw
    rw [h.toolId] at hid
    rw [h.toolName] at hname
    rw [h.early] at hearly
    simp only [hpending, if_true]
    by_cases hui : named (before ++ [d]) = generativeUi
    · rw [if_pos (hname.trans hui)]
      exact ⟨by simp [paramsOf, hui], by simp, hid, h.toolId_ne, hname, hraw, hearly⟩
    · have hother : ¬(p.takeArguments ui d.argumentsIsSnapshot d.args).toolName = generativeUi := by
        rwa [hname]
      rw [if_neg hother]
      refine ⟨?_, by simp, hid, h.toolId_ne, hname, hraw, hearly⟩
      rw [paramsOf, if_pos ⟨hargs, hui⟩, hid, hname]

theorem Holds.finalize (h : Holds p run) : (p.finalize interpret).1 = callOf interpret run := by
  have hpending : p.hasPending = true := by
    simp [PendingToolCall.hasPending, h.toolId, h.toolId_ne]
  have hpayload : p.hasMeaningfulPayload = run.any ToolCallDelta.carries := by
    rw [Bool.eq_iff_iff, any_carries_iff, PendingToolCall.hasMeaningfulPayload, h.toolName,
      h.rawArguments]
    simp
  rw [PendingToolCall.finalize, hpending, callOf, hpayload, h.toolId, h.toolName, h.rawArguments]
  rfl

theorem ne_of_id? {id : String} (h : d.id? = some id) : id ≠ "" := by
  rw [ToolCallDelta.id?, Option.filter_eq_some_iff] at h
  simpa using h.2

theorem identify_of_starts (ui : OpenUi σ γ) (interpret : String → List Char → ι)
    (h : d.starts p.toolId) :
    (p.identify ui interpret d).1 = (p.finalize interpret).1 ∧
      Ready (p.identify ui interpret d).2 [] d := by
  rw [ToolCallDelta.starts] at h
  cases hid : d.id? with
  | none =>
    rw [hid] at h
    cases h
  | some id =>
    have hne : p.toolId ≠ id := by
      rw [hid] at h
      exact fun heq => by simp [heq] at h
    have hidentify : p.identify ui interpret d =
        ((p.finalize interpret).1, .startNew ui id d.toolName) := by
      rw [PendingToolCall.identify, hid]
      exact if_pos hne
    rw [hidentify]
    refine ⟨rfl, ?_, ?_, ?_, ?_, ?_⟩
    · simp [idOf, hid, PendingToolCall.startNew]
    · simpa [idOf, hid] using ne_of_id? hid
    · have hname := named_concat [] d
      rw [if_pos (by rfl)] at hname
      exact hname.symm
    · rfl
    · rfl

theorem Holds.identify (h : Holds p run) (ui : OpenUi σ γ) (interpret : String → List Char → ι)
    (hstarts : d.starts (idOf run) = false) :
    (p.identify ui interpret d).1 = none ∧ Ready (p.identify ui interpret d).2 run d := by
  have hidof := idOf_concat h.ne_nil d
  have hready : Ready (p.updateToolNameIfMissing d.toolName) run d := by
    have hname := named_concat run d
    rw [PendingToolCall.updateToolNameIfMissing, h.toolName]
    by_cases hempty : named run = ""
    · rw [if_pos hempty] at hname ⊢
      exact ⟨h.toolId.trans hidof.symm, hidof ▸ h.toolId_ne, hname.symm, h.rawArguments, h.early⟩
    · rw [if_neg hempty] at hname ⊢
      exact ⟨h.toolId.trans hidof.symm, hidof ▸ h.toolId_ne, h.toolName.trans hname.symm,
        h.rawArguments, h.early⟩
  have hidentify : p.identify ui interpret d = (none, p.updateToolNameIfMissing d.toolName) := by
    rw [PendingToolCall.identify]
    rw [ToolCallDelta.starts] at hstarts
    cases hid : d.id? with
    | some id =>
      have heq : p.toolId = id := by
        rw [hid, Option.any_some, decide_eq_false_iff_not, not_not] at hstarts
        rw [h.toolId, hstarts]
      exact if_neg (not_not.2 heq)
    | none =>
      by_cases hname : d.toolName.any (· ≠ "") = true
      · exact if_pos hname
      · -- without a name there is nothing to update
        have hnone : d.toolName.getD "" = "" := by
          cases htool : d.toolName with
          | none => rfl
          | some name => simpa [htool] using hname
        have hsame : p.updateToolNameIfMissing d.toolName = p := by
          rw [PendingToolCall.updateToolNameIfMissing, hnone]
          split
          · next hempty => rw [← hempty]
          · rfl
        rw [hsame]
        exact if_neg hname
  rw [hidentify]
  exact ⟨rfl, hready⟩

/-- What a delta does to a pending call that is ready for it. -/
theorem apply_of_ready {before : List ToolCallDelta}
    (h : Ready (p.identify ui interpret d).2 before d) :
    (p.apply ui interpret d).1.finalizedPrevious = (p.identify ui interpret d).1 ∧
      (p.apply ui interpret d).1.earlyDetected = earlyOf before d ∧
      (p.apply ui interpret d).1.paramsPartial = paramsOf before d ∧
      Holds (p.apply ui interpret d).2 (before ++ [d]) := by
  obtain ⟨hearly, hdetected⟩ := h.detect
  obtain ⟨hparams, hholds⟩ := hdetected.receive ui
  exact ⟨rfl, hearly, hparams, hholds⟩

/-! ## The outcomes of a run -/

/-- The outcomes of a run, delta by delta, but for the call that was finished before. -/
inductive Outcomes : List ToolCallDelta → List (ToolCallDeltaOutcome γ ι) → Prop
  | nil : Outcomes [] []
  | concat {run : List ToolCallDelta} {os : List (ToolCallDeltaOutcome γ ι)} {d : ToolCallDelta}
      {o : ToolCallDeltaOutcome γ ι} (h : Outcomes run os) (hearly : o.earlyDetected = earlyOf run d)
      (hparams : o.paramsPartial = paramsOf run d) : Outcomes (run ++ [d]) (os ++ [o])

variable {os : List (ToolCallDeltaOutcome γ ι)}

/-- The arguments that were streamed, one chunk after the other. -/
def streamed (os : List (ToolCallDeltaOutcome γ ι)) : List Char :=
  os.flatMap fun o => (o.paramsPartial.map ToolCallParamsChunk.paramsChunk).getD []

/-- A run that is reassembled: it is detected once, by the first delta after which its name is
known, and what is streamed of its arguments is the arguments at every step. -/
structure Reassembled (run : List ToolCallDelta) (os : List (ToolCallDeltaOutcome γ ι)) : Prop where
  length : os.length = run.length
  detected : ∀ before d after, run = before ++ d :: after →
    (os[before.length]?).bind (·.earlyDetected) =
      if named before = "" ∧ named (before ++ [d]) ≠ "" then some ⟨idOf run, named run⟩ else none
  once : os.filterMap (·.earlyDetected) = if named run = "" then [] else [⟨idOf run, named run⟩]
  streamed : named run ≠ generativeUi → ∀ before after, run = before ++ after →
    streamed (os.take before.length) = argumentsOf before

/-- No snapshot comes after other arguments, but for a user interface. -/
def SnapshotsFirst (run : List ToolCallDelta) : Prop :=
  named run ≠ generativeUi → ∀ before d after, run = before ++ d :: after →
    d.argumentsIsSnapshot = true → d.args ≠ [] → ∀ d' ∈ before, d'.args = []

theorem forall_concat_split {α : Type u} {P : List α → α → Prop} {l : List α} {a : α} :
    (∀ before b after, l ++ [a] = before ++ b :: after → P before b) ↔
      (∀ before b after, l = before ++ b :: after → P before b) ∧ P l a := by
  refine ⟨fun h => ⟨fun before b after heq => ?_, h l a [] rfl⟩, ?_⟩
  · exact h before b (after ++ [a]) (by simp [heq])
  · rintro ⟨h, hlast⟩ before b after heq
    induction after using List.reverseRecOn with
    | nil =>
      obtain ⟨rfl, hab⟩ := append_inj' heq rfl
      cases hab
      exact hlast
    | append_singleton after c =>
      rw [← cons_append, ← append_assoc] at heq
      obtain ⟨rfl, -⟩ := append_inj' heq rfl
      exact h before b after rfl

theorem forall_concat_start {α : Type u} {P : List α → Prop} {l : List α} {a : α} :
    (∀ before after, l ++ [a] = before ++ after → P before) ↔
      (∀ before after, l = before ++ after → P before) ∧ P (l ++ [a]) := by
  refine ⟨fun h => ⟨fun before after heq => ?_, h _ [] (by simp)⟩, ?_⟩
  · exact h before (after ++ [a]) (by simp [heq])
  · rintro ⟨h, hlast⟩ before after heq
    induction after using List.reverseRecOn with
    | nil =>
      rw [append_nil] at heq
      rwa [← heq]
    | append_singleton after c =>
      rw [← append_assoc] at heq
      obtain ⟨rfl, -⟩ := append_inj' heq rfl
      exact h before after rfl

theorem idOf_append (h : before ≠ []) (after : List ToolCallDelta) :
    idOf (before ++ after) = idOf before := by
  obtain ⟨d, before, rfl⟩ := exists_cons_of_ne_nil h
  rfl

theorem named_append (h : named before ≠ "") (after : List ToolCallDelta) :
    named (before ++ after) = named before := by
  obtain ⟨name, hname⟩ := Option.ne_none_iff_exists'.1 (mt (named_eq_empty_iff before).2 h)
  rw [named, named, findSome?_append, hname]
  rfl

/-- A run has no arguments exactly if none of its deltas brings any. -/
theorem argumentsOf_eq_nil_iff (run : List ToolCallDelta) :
    argumentsOf run = [] ↔ ∀ d ∈ run, d.args = [] := by
  induction run using List.reverseRecOn with
  | nil => simp [argumentsOf, sinceSnapshot, sinceSnapshotRev]
  | append_singleton run d ih =>
    have hall : (∀ d' ∈ run ++ [d], d'.args = []) ↔ (∀ d' ∈ run, d'.args = []) ∧ d.args = [] := by
      simp [or_imp, forall_and]
    rw [hall, ← ih, argumentsOf_concat]
    by_cases hs : isSnapshot run (sinceSnapshot run) d = true
    · have hargs : d.args ≠ [] := by
        rw [isSnapshot, Bool.and_eq_true, decide_eq_true_eq] at hs
        exact hs.1
      simp [hs, hargs]
    · simp [hs]

theorem Outcomes.length (h : Outcomes run os) : os.length = run.length := by
  induction h with
  | nil => rfl
  | concat _ _ _ ih => simp [ih]

theorem Outcomes.detected (h : Outcomes run os) : ∀ before d after, run = before ++ d :: after →
    (os[before.length]?).bind (·.earlyDetected) = earlyOf before d := by
  induction h with
  | nil => simp
  | @concat run os d o h hearly _ ih =>
    refine forall_concat_split.2 ⟨fun before d after heq => ?_, ?_⟩
    · have hlt : before.length < os.length := by
        rw [h.length, heq, length_append, length_cons]
        omega
      rw [getElem?_append_left hlt, ih before d after heq]
    · rw [← h.length, getElem?_concat_length, Option.bind_some, hearly]

theorem Outcomes.once (h : Outcomes run os) : os.filterMap (·.earlyDetected) =
    if named run = "" then [] else [⟨idOf run, named run⟩] := by
  induction h with
  | nil => rfl
  | @concat run os d o h hearly _ ih =>
    rw [filterMap_append, ih, filterMap_cons, hearly, earlyOf]
    by_cases hrun : named run = ""
    · by_cases hname : named (run ++ [d]) = ""
      · simp [hrun, hname]
      · simp [hrun, hname]
    · have hne : run ≠ [] := by
        rintro rfl
        exact hrun rfl
      simp [hrun, named_append hrun, idOf_append hne]

theorem streamed_concat {o : ToolCallDeltaOutcome γ ι} (hparams : o.paramsPartial = paramsOf run d)
    (hname : named (run ++ [d]) ≠ generativeUi) : streamed (os ++ [o]) = streamed os ++ d.args := by
  rw [streamed, flatMap_append, flatMap_singleton, hparams, paramsOf]
  by_cases hargs : d.args = []
  · simp [hargs, streamed]
  · simp [hargs, hname, streamed]

/-- **What is streamed** is the arguments at every step exactly if no snapshot comes after other
arguments. -/
theorem Outcomes.streamed_iff (h : Outcomes run os) (hui : named run ≠ generativeUi) :
    (∀ before after, run = before ++ after →
      streamed (os.take before.length) = argumentsOf before) ↔
        ∀ before d after, run = before ++ d :: after →
          d.argumentsIsSnapshot = true → d.args ≠ [] → ∀ d' ∈ before, d'.args = [] := by
  induction h with
  | nil => simp [streamed, argumentsOf, sinceSnapshot, sinceSnapshotRev]
  | @concat run os d o h _ hparams ih =>
    have hrun : named run ≠ generativeUi := by
      intro heq
      have hne : named run ≠ "" := by
        rw [heq]
        decide
      exact hui ((named_append hne [d]).trans heq)
    have ih := ih hrun
    have htake : (∀ before after, run = before ++ after →
        streamed ((os ++ [o]).take before.length) = argumentsOf before) ↔
          ∀ before d after, run = before ++ d :: after →
            d.argumentsIsSnapshot = true → d.args ≠ [] → ∀ d' ∈ before, d'.args = [] := by
      rw [← ih]
      refine forall_congr' fun before => forall_congr' fun after => forall_congr' fun heq => ?_
      have hle : before.length ≤ os.length := by
        rw [h.length, heq, length_append]
        omega
      rw [take_append_of_le_length hle]
    rw [forall_concat_start, forall_concat_split, htake]
    refine and_congr_right fun hfirst => ?_
    have hall : streamed os = argumentsOf run := by
      have := ih.2 hfirst run [] (by simp)
      rwa [← h.length, take_length] at this
    have hlen : (os ++ [o]).take (run ++ [d]).length = os ++ [o] :=
      take_of_length_le (by simp [h.length])
    rw [hlen, streamed_concat hparams hui, hall, argumentsOf_concat, ← argumentsOf_eq_nil_iff]
    have hsnapshot : isSnapshot run (sinceSnapshot run) d = true ↔
        d.argumentsIsSnapshot = true ∧ d.args ≠ [] := by
      simp [isSnapshot, hui, and_comm]
    by_cases hs : isSnapshot run (sinceSnapshot run) d = true
    · have hs' := hsnapshot.1 hs
      rw [if_pos hs]
      simp [hs'.1, hs'.2]
    · rw [if_neg hs]
      rw [hsnapshot] at hs
      tauto

theorem Outcomes.reassembled_iff (h : Outcomes run os) : Reassembled run os ↔ SnapshotsFirst run := by
  refine ⟨fun hr hui => (h.streamed_iff hui).1 (hr.streamed hui), fun hs => ⟨h.length, ?_, h.once,
    fun hui => (h.streamed_iff hui).2 (hs hui)⟩⟩
  rintro before d after rfl
  rw [h.detected before d after rfl, earlyOf]
  by_cases hcond : named before = "" ∧ named (before ++ [d]) ≠ ""
  · have hid := idOf_append (by simp : before ++ [d] ≠ []) after
    have hname := named_append hcond.2 after
    rw [append_assoc, singleton_append] at hid hname
    rw [if_pos hcond, if_pos hcond, hid, hname]
  · rw [if_neg hcond, if_neg hcond]

/-! ## The deltas of one key -/

/-- `apply_delta` for one key, with the call that is pending under it. -/
def applyTo (ui : OpenUi σ γ) (interpret : String → List Char → ι) (s : Option (PendingToolCall σ))
    (d : ToolCallDelta) : ToolCallDeltaOutcome γ ι × Option (PendingToolCall σ) :=
  match s with
  | some p => ((p.apply ui interpret d).1, some (p.apply ui interpret d).2)
  | none =>
    if d.id?.isSome then
      (((PendingToolCall.default ui).apply ui interpret d).1,
        some ((PendingToolCall.default ui).apply ui interpret d).2)
    else (.default, none)

/-- Several deltas of one key. -/
def trace (ui : OpenUi σ γ) (interpret : String → List Char → ι) :
    Option (PendingToolCall σ) → List ToolCallDelta →
      List (ToolCallDeltaOutcome γ ι) × Option (PendingToolCall σ)
  | s, [] => ([], s)
  | s, d :: ds =>
    ((applyTo ui interpret s d).1 :: (trace ui interpret (applyTo ui interpret s d).2 ds).1,
      (trace ui interpret (applyTo ui interpret s d).2 ds).2)

/-- **The runs of one key**, while a run goes on: outcomes come run by run, every run but the last
is finished by the next, and the last one is pending. -/
theorem trace_runsFrom (ui : OpenUi σ γ) (interpret : String → List Char → ι)
    (ds : List ToolCallDelta) : ∀ (p : PendingToolCall σ) (current : List ToolCallDelta)
    (os : List (ToolCallDeltaOutcome γ ι)), Holds p current → Outcomes current os →
    ∃ segments p' last,
      os ++ (trace ui interpret (some p) ds).1 = segments.flatten ∧
      List.Forall₂ Outcomes (runsFrom current ds) segments ∧
      (trace ui interpret (some p) ds).1.filterMap (·.finalizedPrevious) =
        (runsFrom current ds).dropLast.filterMap (callOf interpret) ∧
      (trace ui interpret (some p) ds).2 = some p' ∧
      (runsFrom current ds).getLast? = some last ∧ Holds p' last := by
  induction ds with
  | nil =>
    intro p current os h hos
    exact ⟨[os], p, current, by simp [trace],
      List.Forall₂.cons hos List.Forall₂.nil, rfl, rfl, rfl, h⟩
  | cons d ds ih =>
    intro p current os h hos
    rw [runsFrom]
    by_cases hstarts : d.starts (idOf current) = true
    · -- the delta starts another run
      obtain ⟨hprevious, hready⟩ := identify_of_starts ui interpret (h.toolId ▸ hstarts)
      obtain ⟨hfinal, hearly, hparams, hholds⟩ := apply_of_ready hready
      obtain ⟨segments, p', last, hflat, hall, hcalls, hpending, hlast, hp'⟩ :=
        ih _ [d] [(p.apply ui interpret d).1] hholds (Outcomes.concat Outcomes.nil hearly hparams)
      have hne : runsFrom [d] ds ≠ [] := by
        rintro hnil
        simp [hnil] at hlast
      rw [if_pos hstarts]
      refine ⟨os :: segments, p', last, ?_, List.Forall₂.cons hos hall, ?_, hpending, ?_, hp'⟩
      · rw [flatten_cons, ← hflat]
        rfl
      · have hcons : (trace ui interpret (some p) (d :: ds)).1 =
            (p.apply ui interpret d).1 :: (trace ui interpret
              (some (p.apply ui interpret d).2) ds).1 := rfl
        rw [dropLast_cons_of_ne_nil hne, hcons, filterMap_cons, filterMap_cons,
          ← hcalls, hfinal, hprevious, h.finalize]
      · rw [getLast?_cons, hlast]
        rfl
    · obtain ⟨hprevious, hready⟩ := h.identify ui interpret (Bool.eq_false_iff.2 hstarts)
      obtain ⟨hfinal, hearly, hparams, hholds⟩ := apply_of_ready hready
      obtain ⟨segments, p', last, hflat, hall, hcalls, hpending, hlast, hp'⟩ :=
        ih _ (current ++ [d]) (os ++ [(p.apply ui interpret d).1]) hholds
          (hos.concat hearly hparams)
      rw [if_neg hstarts]
      refine ⟨segments, p', last, ?_, hall, ?_, hpending, hlast, hp'⟩
      · rw [← hflat, append_assoc]
        rfl
      · have hcons : (trace ui interpret (some p) (d :: ds)).1 =
            (p.apply ui interpret d).1 :: (trace ui interpret
              (some (p.apply ui interpret d).2) ds).1 := rfl
        rw [hcons, filterMap_cons, hfinal, hprevious, hcalls]

/-- **The runs of one key**, from the start. -/
theorem trace_runs (ui : OpenUi σ γ) (interpret : String → List Char → ι)
    (ds : List ToolCallDelta) :
    ∃ segments, (trace ui interpret none ds).1 =
        List.replicate (leading ds) .default ++ segments.flatten ∧
      List.Forall₂ Outcomes (runs ds) segments ∧
      (trace ui interpret none ds).1.filterMap (·.finalizedPrevious) =
        (runs ds).dropLast.filterMap (callOf interpret) ∧
      ((trace ui interpret none ds).2 = none ∧ runs ds = [] ∨
        ∃ p last, (trace ui interpret none ds).2 = some p ∧ (runs ds).getLast? = some last ∧
          Holds p last) := by
  induction ds with
  | nil => exact ⟨[], rfl, List.Forall₂.nil, rfl, .inl ⟨rfl, rfl⟩⟩
  | cons d ds ih =>
    by_cases hid : d.id?.isSome = true
    · obtain ⟨id, hsome⟩ := Option.isSome_iff_exists.1 hid
      have hstarts : d.starts (PendingToolCall.default ui).toolId = true := by
        simp [ToolCallDelta.starts, hsome, PendingToolCall.default, ne_of_id? hsome]
      obtain ⟨hprevious, hready⟩ := identify_of_starts ui interpret hstarts
      obtain ⟨hfinal, hearly, hparams, hholds⟩ := apply_of_ready hready
      obtain ⟨segments, p, last, hflat, hall, hcalls, hpending, hlast, hp⟩ :=
        trace_runsFrom ui interpret ds _ [d] _ hholds
          (Outcomes.concat Outcomes.nil hearly hparams)
      have hcons : trace ui interpret none (d :: ds) =
          (((PendingToolCall.default ui).apply ui interpret d).1 ::
            (trace ui interpret (some ((PendingToolCall.default ui).apply ui interpret d).2) ds).1,
          (trace ui interpret (some ((PendingToolCall.default ui).apply ui interpret d).2) ds).2) := by
        rw [trace, applyTo, if_pos hid]
      have hleading : leading (d :: ds) = 0 := by simp [leading, hsome]
      have hnone : ((PendingToolCall.default ui).finalize interpret).1 = none := rfl
      rw [runs, if_pos hid, hcons, hleading]
      refine ⟨segments, hflat, hall, ?_, .inr ⟨p, last, hpending, hlast, hp⟩⟩
      rw [filterMap_cons, hfinal, hprevious, hnone, hcalls]
    · obtain ⟨segments, hflat, hall, hcalls, hrest⟩ := ih
      have hcons : trace ui interpret none (d :: ds) =
          (.default :: (trace ui interpret none ds).1, (trace ui interpret none ds).2) := by
        rw [trace, applyTo, if_neg hid]
      have hleading : leading (d :: ds) = leading ds + 1 := by
        have hnone : d.id?.isNone = true := by simpa using hid
        simp [leading, hnone]
      rw [runs, if_neg hid, hcons, hleading]
      refine ⟨segments, ?_, hall, hcalls, hrest⟩
      rw [replicate_succ, cons_append, hflat]

/-! ## All keys -/

/-- The deltas of a key. -/
def deltasOf (key : ToolCallStreamKey) (ds : List ToolCallDelta) : List ToolCallDelta :=
  ds.filter fun d => d.key = key

/-- The outcomes of the deltas of a key. -/
def outcomesOf (key : ToolCallStreamKey) (ds : List ToolCallDelta)
    (os : List (ToolCallDeltaOutcome γ ι)) : List (ToolCallDeltaOutcome γ ι) :=
  ((ds.zip os).filter fun x => x.1.key = key).map Prod.snd

/-- One delta, seen from its key and from the others. -/
theorem applyDelta_eq (ui : OpenUi σ γ) (interpret : String → List Char → ι)
    (calls : PendingToolCalls σ) (d : ToolCallDelta) :
    (calls.applyDelta ui interpret d).1 = (applyTo ui interpret (calls.lookup d.key) d).1 ∧
      ∀ key, (calls.applyDelta ui interpret d).2.lookup key =
        if key = d.key then (applyTo ui interpret (calls.lookup d.key) d).2
        else calls.lookup key := by
  rw [PendingToolCalls.applyDelta]
  cases hlookup : calls.lookup d.key with
  | some p =>
    refine ⟨rfl, fun key => ?_⟩
    rw [AssocMap.lookup_insert]
    rfl
  | none =>
    by_cases hid : d.id?.isSome = true
    · simp only [hid, if_true, applyTo]
      exact ⟨trivial, fun key => AssocMap.lookup_insert _ _ _ _⟩
    · simp only [hid, applyTo]
      refine ⟨rfl, fun key => ?_⟩
      by_cases hkey : key = d.key
      · subst hkey
        simp [hlookup]
      · simp [hkey]

/-- **Keys do not meddle**: what the deltas of a key come to is as if they came alone. -/
theorem applyAll_eq (ui : OpenUi σ γ) (interpret : String → List Char → ι)
    (key : ToolCallStreamKey) (ds : List ToolCallDelta) : ∀ calls : PendingToolCalls σ,
      outcomesOf key ds (calls.applyAll ui interpret ds).1 =
          (trace ui interpret (calls.lookup key) (deltasOf key ds)).1 ∧
        (calls.applyAll ui interpret ds).2.lookup key =
          (trace ui interpret (calls.lookup key) (deltasOf key ds)).2 := by
  induction ds with
  | nil => exact fun calls => ⟨rfl, rfl⟩
  | cons d ds ih =>
    intro calls
    obtain ⟨hout, hlookup⟩ := applyDelta_eq ui interpret calls d
    obtain ⟨ihout, ihlookup⟩ := ih (calls.applyDelta ui interpret d).2
    have hlookup := hlookup key
    by_cases hkey : d.key = key
    · subst hkey
      rw [if_pos rfl] at hlookup
      rw [hlookup] at ihout ihlookup
      have hdeltas : deltasOf d.key (d :: ds) = d :: deltasOf d.key ds := by simp [deltasOf]
      have houtcomes : outcomesOf d.key (d :: ds) (calls.applyAll ui interpret (d :: ds)).1 =
          (calls.applyDelta ui interpret d).1 ::
            outcomesOf d.key ds ((calls.applyDelta ui interpret d).2.applyAll ui interpret ds).1 := by
        simp [outcomesOf, PendingToolCalls.applyAll]
      rw [hdeltas, houtcomes, ihout, hout]
      exact ⟨rfl, ihlookup⟩
    · rw [if_neg (Ne.symm hkey)] at hlookup
      rw [hlookup] at ihout ihlookup
      have hdeltas : deltasOf key (d :: ds) = deltasOf key ds := by simp [deltasOf, hkey]
      have houtcomes : outcomesOf key (d :: ds) (calls.applyAll ui interpret (d :: ds)).1 =
          outcomesOf key ds ((calls.applyDelta ui interpret d).2.applyAll ui interpret ds).1 := by
        simp [outcomesOf, PendingToolCalls.applyAll, hkey]
      rw [hdeltas, houtcomes, ihout]
      exact ⟨rfl, ihlookup⟩

/-- What reassembling streamed calls promises, for deltas of any keys from a new accumulator on and
the end of the stream. -/
structure Reassembles (ui : OpenUi σ γ) (interpret : String → List Char → ι)
    (ds : List ToolCallDelta) : Prop where
  /-- the outcomes of a key are those of its runs, and every run is reassembled -/
  reassembled : ∀ key, ∃ segments,
    outcomesOf key ds (PendingToolCalls.applyAll ui interpret ∅ ds).1 =
        List.replicate (leading (deltasOf key ds)) .default ++ segments.flatten ∧
      List.Forall₂ Reassembled (runs (deltasOf key ds)) segments
  /-- every run but the last of its key becomes its call when the next one starts -/
  previous : ∀ key, (outcomesOf key ds
    (PendingToolCalls.applyAll ui interpret ∅ ds).1).filterMap (·.finalizedPrevious) =
      (runs (deltasOf key ds)).dropLast.filterMap (callOf interpret)
  /-- the last run of every key becomes its call when the stream ends -/
  last : ∃ keys : List ToolCallStreamKey, keys.Nodup ∧
    (∀ key, key ∈ keys ↔ runs (deltasOf key ds) ≠ []) ∧
    ((PendingToolCalls.applyAll ui interpret ∅ ds).2.finalizeAll interpret).1 =
      keys.filterMap fun key => (runs (deltasOf key ds)).getLast?.bind (callOf interpret)

theorem forall₂_reassembled_iff {rs : List (List ToolCallDelta)}
    {segments : List (List (ToolCallDeltaOutcome γ ι))} (h : List.Forall₂ Outcomes rs segments) :
    List.Forall₂ Reassembled rs segments ↔ ∀ run ∈ rs, SnapshotsFirst run := by
  induction h with
  | nil => simp
  | cons h _ ih => rw [List.forall₂_cons, forall_mem_cons, h.reassembled_iff, ih]

/-- Outcomes come apart into those of runs in one way. -/
theorem segments_unique {rs : List (List ToolCallDelta)}
    {segments : List (List (ToolCallDeltaOutcome γ ι))} (h : List.Forall₂ Reassembled rs segments)
    {segments' : List (List (ToolCallDeltaOutcome γ ι))} (h' : List.Forall₂ Outcomes rs segments')
    (hflat : segments.flatten = segments'.flatten) : segments = segments' := by
  induction h generalizing segments' with
  | nil =>
    cases h'
    rfl
  | @cons run os rs segments h _ ih =>
    cases h' with
    | @cons _ os' _ segments' h' hrest =>
      rw [flatten_cons, flatten_cons] at hflat
      obtain ⟨rfl, hflat'⟩ := append_inj hflat (h.length.trans h'.length.symm)
      rw [ih hrest hflat']

/-- The outcomes of a key come run by run. -/
theorem outcomesOf_runs (ui : OpenUi σ γ) (interpret : String → List Char → ι)
    (ds : List ToolCallDelta) (key : ToolCallStreamKey) : ∃ segments,
      outcomesOf key ds (PendingToolCalls.applyAll ui interpret ∅ ds).1 =
          List.replicate (leading (deltasOf key ds)) .default ++ segments.flatten ∧
        List.Forall₂ Outcomes (runs (deltasOf key ds)) segments := by
  obtain ⟨hout, -⟩ := applyAll_eq ui interpret key ds ∅
  obtain ⟨segments, hflat, hall, -⟩ := trace_runs ui interpret (deltasOf key ds)
  exact ⟨segments, by rw [hout, ← hflat]; rfl, hall⟩

/-- Where calls are reassembled no snapshot comes after other arguments. -/
theorem Reassembles.snapshotsFirst {ds : List ToolCallDelta} (h : Reassembles ui interpret ds)
    (key : ToolCallStreamKey) : ∀ run ∈ runs (deltasOf key ds), SnapshotsFirst run := by
  obtain ⟨segments, hflat, hall⟩ := h.reassembled key
  obtain ⟨segments', hflat', hall'⟩ := outcomesOf_runs ui interpret ds key
  have heq := segments_unique hall hall' (append_cancel_left (hflat.symm.trans hflat'))
  subst heq
  exact (forall₂_reassembled_iff hall').1 hall

/-- **Streamed tool calls are reassembled** from any deltas of any keys, exactly if in no run a
snapshot comes after other arguments, but for user interfaces. -/
theorem reassembles_iff (ui : OpenUi σ γ) (interpret : String → List Char → ι)
    (ds : List ToolCallDelta) :
    Reassembles ui interpret ds ↔ ∀ key, ∀ run ∈ runs (deltasOf key ds), SnapshotsFirst run := by
  have hempty : ∀ key, (∅ : PendingToolCalls σ).lookup key = none := fun key => rfl
  refine ⟨fun h => h.snapshotsFirst, fun h => ⟨fun key => ?_, fun key => ?_, ?_⟩⟩
  · obtain ⟨segments, hflat, hall⟩ := outcomesOf_runs ui interpret ds key
    exact ⟨segments, hflat, (forall₂_reassembled_iff hall).2 (h key)⟩
  · obtain ⟨hout, -⟩ := applyAll_eq ui interpret key ds ∅
    obtain ⟨segments, -, -, hcalls, -⟩ := trace_runs ui interpret (deltasOf key ds)
    rw [hout, hempty, hcalls]
  · have hpending : ∀ key, (PendingToolCalls.applyAll ui interpret ∅ ds).2.lookup key = none ∧
          runs (deltasOf key ds) = [] ∨
        ∃ p last, (PendingToolCalls.applyAll ui interpret ∅ ds).2.lookup key = some p ∧
          (runs (deltasOf key ds)).getLast? = some last ∧ Holds p last := by
      intro key
      obtain ⟨-, hlookup⟩ := applyAll_eq ui interpret key ds ∅
      obtain ⟨-, -, -, -, hrest⟩ := trace_runs ui interpret (deltasOf key ds)
      rwa [hlookup, hempty]
    refine ⟨_, AssocMap.nodup_iter (PendingToolCalls.applyAll ui interpret ∅ ds).2, ?_, ?_⟩
    · intro key
      rw [mem_map]
      rcases hpending key with ⟨hnone, hruns⟩ | ⟨p, last, hsome, hlast, -⟩
      · refine ⟨?_, fun hne => absurd hruns hne⟩
        rintro ⟨⟨key, p⟩, hmem, rfl⟩
        rw [AssocMap.mem_iter, hnone] at hmem
        cases hmem
      · refine ⟨fun _ hnil => ?_, fun _ => ⟨(key, p), AssocMap.mem_iter.2 hsome, rfl⟩⟩
        rw [hnil] at hlast
        cases hlast
    · rw [PendingToolCalls.finalizeAll, filterMap_map]
      refine filterMap_congr fun entry hmem => ?_
      obtain ⟨key, p⟩ := entry
      rw [AssocMap.mem_iter] at hmem
      rcases hpending key with ⟨hnone, -⟩ | ⟨p', last, hsome, hlast, hp⟩
      · rw [hnone] at hmem
        cases hmem
      · rw [hsome, Option.some.injEq] at hmem
        subst hmem
        simp only [Function.comp_apply, hlast, Option.bind_some]
        exact hp.finalize

/-! ## Snapshots that go on -/

/-- A call whose arguments come as two snapshots, the second after the first. -/
def twoSnapshots : List ToolCallDelta :=
  [⟨.indexed 0, some "call_1", some "Read", some "\x7b".toList, true⟩,
    ⟨.indexed 0, none, none, some "\x7b\x7d".toList, true⟩]

/-- Of two snapshots both are streamed, and what is streamed is not what the call gets. -/
theorem two_snapshots_streamed_twice :
    ¬∀ (ui : OpenUi Unit Unit) (interpret : String → List Char → Unit)
      (ds : List ToolCallDelta), Reassembles ui interpret ds := by
  intro h
  have hall := h ⟨(), id, fun _ _ _ => ((), none)⟩ (fun _ _ => ()) twoSnapshots
  have hruns : runs (deltasOf (.indexed 0) twoSnapshots) = [twoSnapshots] := by decide +kernel
  have hfirst := hall.snapshotsFirst (.indexed 0) twoSnapshots (by simp [hruns])
  have hnone := hfirst (by decide +kernel) [twoSnapshots[0]] twoSnapshots[1] [] rfl rfl
    (by decide +kernel) twoSnapshots[0] (by simp)
  revert hnone
  decide +kernel

end ToolCallAccumulator

end OpenBitFun
