import OpenBitFun.ShellAnalysis
import OpenBitFun.ShellParserProgress

/-!
# No output redirection is lost

Whatever the analyzer does after a redirection was met, the record of it stays: every call on an
analysis only adds to it (`Analysis.Extends`). A redirection that can write leaves a record with
its span or the span of its word, unless the list of unresolved effects is full.

What a limit leaves out is reported too, but not always heard: `interpreter` passes the unresolved
effects of a nested program on and forgets its status, so a limit that the full list of the nested
program could not take is lost.
-/

namespace OpenBitFun

open List

namespace Shell

variable {a b c : Analysis} {span : Span} {rx : Recognizers} {shell : String}

/-! ## Calls only add -/

/-- One analysis says all that another says. -/
structure Analysis.Extends (a b : Analysis) : Prop where
  /-- The file operations. -/
  files : a.fileOperations <+: b.fileOperations
  /-- The descriptor operations. -/
  descriptors : a.descriptorOperations <+: b.descriptorOperations
  /-- The unresolved effects. -/
  effects : a.unresolvedEffects <+: b.unresolvedEffects

theorem Analysis.Extends.refl (a : Analysis) : a.Extends a :=
  ⟨prefix_rfl, prefix_rfl, prefix_rfl⟩

theorem Analysis.Extends.trans (h : a.Extends b) (h' : b.Extends c) : a.Extends c :=
  ⟨h.files.trans h'.files, h.descriptors.trans h'.descriptors, h.effects.trans h'.effects⟩

theorem Analysis.extends_addIssue (a : Analysis) (issue : Issue) : a.Extends (a.addIssue issue) := by
  refine ⟨prefix_rfl, prefix_rfl, ?_⟩
  simp only [Analysis.addIssue]
  split
  · exact prefix_append _ _
  · exact prefix_rfl

theorem Analysis.extends_report (a : Analysis) (issue : Issue) : a.Extends (a.report issue) :=
  have h := a.extends_addIssue issue
  ⟨h.files, h.descriptors, h.effects⟩

theorem Analysis.extends_limit (a : Analysis) (reason : String) (span : Span) :
    a.Extends (a.limit reason span) :=
  a.extends_report _

theorem Analysis.extends_pushFile (a : Analysis) (op : FileOperation) :
    a.Extends (a.pushFile op) :=
  ⟨prefix_append _ _, prefix_rfl, prefix_rfl⟩

theorem Analysis.extends_fileIn (a : Analysis) (word : Word) (operation : String)
    (paths : List (List Char)) : a.Extends (a.fileIn word operation paths) := by
  induction paths generalizing a with
  | nil => exact .refl a
  | cons path paths ih =>
    rw [Analysis.fileIn]
    split
    · exact a.extends_limit _ _
    · exact (a.extends_pushFile _).trans (ih _)

theorem Analysis.extends_file (a : Analysis) (word : Word) (operation : String) (cwd : Cwd) :
    a.Extends (a.file word operation cwd) := by
  rw [Analysis.file]
  split
  · exact a.extends_report _
  split
  · exact a.extends_report _
  split
  · exact a.extends_limit _ _
  split
  · exact a.extends_pushFile _
  split
  · exact a.extends_fileIn _ _ _
  · exact a.extends_report _

theorem Analysis.extends_descriptor (a : Analysis) (op : DescriptorOperation) :
    a.Extends (a.descriptor op) := by
  rw [Analysis.descriptor]
  split
  · exact a.extends_limit _ _
  · exact ⟨prefix_rfl, prefix_append _ _, prefix_rfl⟩

theorem Analysis.extends_mergeFiles (a : Analysis) (span : Span) (ops : List FileOperation) :
    a.Extends (a.mergeFiles span ops) := by
  induction ops generalizing a with
  | nil => exact .refl a
  | cons op ops ih =>
    rw [Analysis.mergeFiles]
    split
    · exact (a.extends_pushFile _).trans (ih _)
    · exact a.extends_limit _ _

theorem Analysis.extends_foldl_addIssue (a : Analysis) (issues : List Issue) :
    a.Extends (issues.foldl Analysis.addIssue a) := by
  induction issues generalizing a with
  | nil => exact .refl a
  | cons issue issues ih => exact (a.extends_addIssue issue).trans (ih _)

theorem Analysis.extends_merge (a nested : Analysis) (input span : Span) :
    a.Extends (a.merge nested input span) := by
  rw [Analysis.merge]
  refine Extends.trans ?_ (Analysis.extends_foldl_addIssue _ _)
  refine Extends.trans (b := Analysis.mergeFiles { a with
      dropped := a.dropped || nested.dropped
      swallowed := a.swallowed || nested.swallowed || nested.muted } span
    (nested.fileOperations.map fun op => { op with sourceSpan := input })) ?_ ?_
  · have h := Analysis.extends_mergeFiles { a with
      dropped := a.dropped || nested.dropped
      swallowed := a.swallowed || nested.swallowed || nested.muted } span
      (nested.fileOperations.map fun op => { op with sourceSpan := input })
    exact ⟨h.files, h.descriptors, h.effects⟩
  · split
    · exact Extends.trans (Analysis.extends_limit _ _ _)
        ⟨prefix_rfl, prefix_append _ _, prefix_rfl⟩
    · exact ⟨prefix_rfl, prefix_append _ _, prefix_rfl⟩

variable {analyzeNested : List Char → String → Cwd → Analysis}

theorem Analysis.extends_perform (a : Analysis) (effect : Effect) :
    a.Extends (a.perform analyzeNested effect) := by
  cases effect with
  | issue issue => exact a.extends_report issue
  | file word operation cwd => exact a.extends_file word operation cwd
  | descriptor op => exact a.extends_descriptor op
  | nested input shell cwd span => exact a.extends_merge _ _ _

/-- **Calls only add.** -/
theorem Analysis.extends_foldl_perform (a : Analysis) (effects : List Effect) :
    a.Extends (effects.foldl (Analysis.perform analyzeNested) a) := by
  induction effects generalizing a with
  | nil => exact .refl a
  | cons effect effects ih => exact (a.extends_perform effect).trans (ih _)

/-! ## Records -/

/-- An analysis has a record with a span, or its list of unresolved effects is full. -/
def Analysis.Covers (a : Analysis) (span : Span) : Prop :=
  (∃ op ∈ a.fileOperations, op.sourceSpan = span) ∨
  (∃ op ∈ a.descriptorOperations, op.sourceSpan = span) ∨
  (∃ issue ∈ a.unresolvedEffects, issue.span = span) ∨
  MAX_EFFECTS ≤ a.unresolvedEffects.length

theorem Analysis.Covers.mono (h : a.Covers span) (hext : a.Extends b) : b.Covers span := by
  obtain ⟨op, hmem, hspan⟩ | ⟨op, hmem, hspan⟩ | ⟨issue, hmem, hspan⟩ | hfull := h
  · exact .inl ⟨op, hext.files.subset hmem, hspan⟩
  · exact .inr (.inl ⟨op, hext.descriptors.subset hmem, hspan⟩)
  · exact .inr (.inr (.inl ⟨issue, hext.effects.subset hmem, hspan⟩))
  · exact .inr (.inr (.inr (hfull.trans hext.effects.length_le)))

theorem Analysis.covers_report (a : Analysis) (issue : Issue) :
    (a.report issue).Covers issue.span := by
  by_cases hlen : a.unresolvedEffects.length < MAX_EFFECTS
  · exact .inr (.inr (.inl ⟨issue, by simp [Analysis.report, Analysis.addIssue, hlen], rfl⟩))
  · refine .inr (.inr (.inr ?_))
    simp only [Analysis.report, Analysis.addIssue, hlen, if_false]
    exact Nat.le_of_not_lt hlen

theorem Analysis.covers_limit (a : Analysis) (reason : String) (span : Span) :
    (a.limit reason span).Covers span :=
  a.covers_report ⟨.resourceLimit, reason, span⟩

theorem Analysis.covers_pushFile (a : Analysis) (op : FileOperation) :
    (a.pushFile op).Covers op.sourceSpan :=
  .inl ⟨op, by simp [Analysis.pushFile], rfl⟩

/-- The directories are unknown, or there is one. -/
def Cwd.Inhabited (cwd : Cwd) : Prop := cwd.paths ≠ some []

theorem Analysis.covers_file (a : Analysis) (word : Word) (operation : String) {cwd : Cwd}
    (hcwd : cwd.Inhabited) : (a.file word operation cwd).Covers word.span := by
  rw [Analysis.file]
  split
  · exact a.covers_report _
  split
  · exact a.covers_report _
  split
  · exact a.covers_limit _ _
  split
  · exact a.covers_pushFile _
  split
  · next paths hpaths =>
    cases paths with
    | nil => exact absurd hpaths hcwd
    | cons path paths =>
      rw [Analysis.fileIn]
      split
      · exact a.covers_limit _ _
      · exact (a.covers_pushFile ⟨operation, joinPath path word.value, path, word.span⟩).mono
          (Analysis.extends_fileIn _ _ _ _)
  · exact a.covers_report _

theorem Analysis.covers_descriptor (a : Analysis) (op : DescriptorOperation) :
    (a.descriptor op).Covers op.sourceSpan := by
  rw [Analysis.descriptor]
  split
  · exact a.covers_limit _ _
  · exact .inr (.inl ⟨op, by simp, rfl⟩)

/-- The call leaves a record with the span. -/
def Effect.Records (span : Span) : Effect → Prop
  | .issue i => i.span = span
  | .file w _ cwd => w.span = span ∧ cwd.Inhabited
  | .descriptor op => op.sourceSpan = span
  | .nested .. => False

theorem Effect.Records.covers {effect : Effect} (h : effect.Records span) (a : Analysis) :
    (a.perform analyzeNested effect).Covers span := by
  cases effect with
  | issue issue =>
    obtain rfl : issue.span = span := h
    exact a.covers_report issue
  | file word operation cwd =>
    obtain ⟨rfl, hcwd⟩ : word.span = span ∧ cwd.Inhabited := h
    exact a.covers_file word operation hcwd
  | descriptor op =>
    obtain rfl : op.sourceSpan = span := h
    exact a.covers_descriptor op
  | nested => cases h

/-- One such call among others is enough. -/
theorem Analysis.covers_foldl_perform {effects : List Effect} {effect : Effect}
    (hmem : effect ∈ effects) (h : effect.Records span) (a : Analysis) :
    (effects.foldl (Analysis.perform analyzeNested) a).Covers span := by
  induction effects generalizing a with
  | nil => cases hmem
  | cons e effects ih =>
    obtain rfl | hmem := mem_cons.1 hmem
    · exact (h.covers a).mono (Analysis.extends_foldl_perform _ _)
    · exact ih hmem _

/-! ## Directories stay inhabited -/

theorem Cwd.inhabited_none : (⟨none⟩ : Cwd).Inhabited := by
  simp [Cwd.Inhabited]

theorem Cwd.inhabited_singleton (path : List Char) : (⟨some [path]⟩ : Cwd).Inhabited := by
  simp [Cwd.Inhabited]

/-- The union of two lists of directories keeps the first. -/
theorem subset_foldl_insert (r ps : List (List Char)) :
    r <+: ps.foldl (fun r p => if p ∈ r then r else r ++ [p]) r := by
  induction ps generalizing r with
  | nil => exact prefix_rfl
  | cons p ps ih =>
    rw [foldl_cons]
    split
    · exact ih r
    · exact (prefix_append r [p]).trans (ih _)

theorem Cwd.Inhabited.union {x : Cwd} (h : x.Inhabited) (y : Cwd) : (x.union y).Inhabited := by
  obtain ⟨_ | paths⟩ := x
  · exact Cwd.inhabited_none
  obtain ⟨_ | paths'⟩ := y
  · exact Cwd.inhabited_none
  simp only [Cwd.union]
  split
  · exact Cwd.inhabited_none
  · intro hnil
    have hsub := subset_foldl_insert paths paths'
    rw [Option.some.inj hnil] at hsub
    exact h (congrArg some (prefix_nil.1 hsub))

/-- Both outcomes of a flow are inhabited. -/
def Flow.Inhabited (flow : Flow) : Prop := flow.success.Inhabited ∧ flow.failure.Inhabited

theorem Flow.inhabited_same {cwd : Cwd} (h : cwd.Inhabited) : (Flow.same cwd).Inhabited := ⟨h, h⟩

theorem cdFlow_inhabited (args : List Word) {cwd : Cwd} (h : cwd.Inhabited) :
    (cdFlow args cwd).Inhabited := by
  match args with
  | [] => exact ⟨Cwd.inhabited_none, h⟩
  | [arg] =>
    rw [cdFlow]
    split
    · exact ⟨Cwd.inhabited_none, h⟩
    · next habs =>
      have hhead : arg.value.head? = some '/' := by
        by_contra hne
        exact habs (.inl hne)
      refine ⟨?_, h⟩
      simp only [Cwd.change, hhead, if_true]
      split
      · exact Cwd.inhabited_none
      · exact Cwd.inhabited_singleton _
  | _ :: _ :: _ => exact ⟨Cwd.inhabited_none, h⟩

theorem program_inhabited (w : Word) (args : List Word) (rs : List Redirect) {cwd : Cwd}
    (h : cwd.Inhabited) : (program rx w args rs cwd).2.Inhabited := by
  rw [program]
  split_ifs
  · exact Flow.inhabited_same Cwd.inhabited_none
  · exact cdFlow_inhabited args h
  · exact Flow.inhabited_same Cwd.inhabited_none
  · exact Flow.inhabited_same h
  · exact Flow.inhabited_same h

theorem command_inhabited (words : List Word) (rs : List Redirect) {cwd : Cwd}
    (h : cwd.Inhabited) : (command rx words rs cwd shell).2.Inhabited := by
  simp only [command]
  cases unwrap false (words.dropWhile (·.assignment)) with
  | nothing => exact Flow.inhabited_same h
  | unresolved => exact Flow.inhabited_same Cwd.inhabited_none
  | program w args => exact program_inhabited w args rs h

/-! ## Every redirection is visited -/

/-- Among some calls are the calls for a redirection, in some directories. -/
def Visited (r : Redirect) (shell : String) (effects : List Effect) : Prop :=
  ∃ cwd : Cwd, cwd.Inhabited ∧ ∀ e ∈ redirectEffects r cwd shell, e ∈ effects

theorem Visited.mono {r : Redirect} {effects effects' : List Effect}
    (h : Visited r shell effects) (hsub : effects ⊆ effects') : Visited r shell effects' := by
  obtain ⟨cwd, hcwd, hmem⟩ := h
  exact ⟨cwd, hcwd, fun e he => hsub (hmem e he)⟩

theorem visited_redirectsEffects {r : Redirect} {rs : List Redirect} (hr : r ∈ rs) {cwd : Cwd}
    (hcwd : cwd.Inhabited) : Visited r shell (redirectsEffects rs cwd shell) :=
  ⟨cwd, hcwd, fun _ he => mem_flatMap.2 ⟨r, hr, he⟩⟩

mutual

/-- `visit` keeps directories inhabited and visits every redirection. -/
theorem visit_spec (a : Ast) {cwd : Cwd} (h : cwd.Inhabited) :
    (visit rx shell a cwd).2.Inhabited ∧
      ∀ r ∈ a.redirects, Visited r shell (visit rx shell a cwd).1 := by
  cases a with
  | command words rs =>
    refine ⟨command_inhabited words rs h, fun r hr => ?_⟩
    refine (visited_redirectsEffects (by simpa [Ast.redirects] using hr) h).mono ?_
    intro e he
    simp [visit, command, he]
  | group a rs =>
    obtain ⟨-, ha⟩ := visit_spec a h
    refine ⟨Flow.inhabited_same h, fun r hr => ?_⟩
    obtain hr | hr : r ∈ a.redirects ∨ r ∈ rs := by simpa [Ast.redirects] using hr
    · refine (ha r hr).mono fun e he => ?_
      simp [visit, he]
    · refine (visited_redirectsEffects hr h).mono fun e he => ?_
      simp [visit, he]
  | sequence list =>
    simpa only [visit, Ast.redirects] using visitSequence_spec list (Flow.inhabited_same h)
  | and a b =>
    obtain ⟨hflow, ha⟩ := visit_spec a h
    obtain ⟨hflow', hb⟩ := visit_spec b hflow.1
    refine ⟨⟨hflow'.1, hflow.2.union _⟩, fun r hr => ?_⟩
    obtain hr | hr : r ∈ a.redirects ∨ r ∈ b.redirects := by simpa [Ast.redirects] using hr
    · refine (ha r hr).mono fun e he => ?_
      simp [visit, he]
    · refine (hb r hr).mono fun e he => ?_
      simp [visit, he]
  | or a b =>
    obtain ⟨hflow, ha⟩ := visit_spec a h
    obtain ⟨hflow', hb⟩ := visit_spec b hflow.2
    refine ⟨⟨hflow.1.union _, hflow'.2⟩, fun r hr => ?_⟩
    obtain hr | hr : r ∈ a.redirects ∨ r ∈ b.redirects := by simpa [Ast.redirects] using hr
    · refine (ha r hr).mono fun e he => ?_
      simp [visit, he]
    · refine (hb r hr).mono fun e he => ?_
      simp [visit, he]
  | pipe list =>
    refine ⟨Flow.inhabited_same h, ?_⟩
    simpa only [visit, Ast.redirects] using visitMembers_spec list h

theorem visitSequence_spec (list : List Ast) {flow : Flow} (h : flow.Inhabited) :
    (visitSequence rx shell list flow).2.Inhabited ∧
      ∀ r ∈ redirectsOf list, Visited r shell (visitSequence rx shell list flow).1 := by
  cases list with
  | nil => exact ⟨h, by simp [redirectsOf]⟩
  | cons a list =>
    obtain ⟨hflow, ha⟩ := visit_spec a (h.1.union flow.failure)
    obtain ⟨hflow', hlist⟩ := visitSequence_spec list hflow
    refine ⟨hflow', fun r hr => ?_⟩
    obtain hr | hr : r ∈ a.redirects ∨ r ∈ redirectsOf list := by simpa [redirectsOf] using hr
    · refine (ha r hr).mono fun e he => ?_
      simp only [visitSequence, mem_append]
      exact .inl he
    · refine (hlist r hr).mono fun e he => ?_
      simp only [visitSequence, mem_append]
      exact .inr he

theorem visitMembers_spec (list : List Ast) {cwd : Cwd} (h : cwd.Inhabited) :
    ∀ r ∈ redirectsOf list, Visited r shell (visitMembers rx shell list cwd) := by
  cases list with
  | nil => simp [redirectsOf]
  | cons a list =>
    intro r hr
    obtain hr | hr : r ∈ a.redirects ∨ r ∈ redirectsOf list := by simpa [redirectsOf] using hr
    · refine ((visit_spec a h).2 r hr).mono fun e he => ?_
      simp [visitMembers, he]
    · refine (visitMembers_spec list h r hr).mono fun e he => ?_
      simp [visitMembers, he]

end

/-- The operators of redirections that can write. -/
def writingOperators : List String := [">", ">>", ">|", "<>", "&>", "&>>", ">&"]

/-- `>&` closes, moves or copies a descriptor, writes a file or is refused. -/
theorem descriptorRedirect_records (r : Redirect) {cwd : Cwd} (hcwd : cwd.Inhabited) :
    (descriptorRedirect r cwd shell).Records r.span ∨
      (descriptorRedirect r cwd shell).Records r.word.span := by
  rw [descriptorRedirect]
  split
  · exact .inl rfl
  · lift_lets
    intro v number
    by_cases hdesc : isDescriptor v = true
    · rw [if_pos hdesc]
      exact .inl rfl
    · rw [if_neg hdesc]
      split
      · exact .inr ⟨rfl, hcwd⟩
      · exact .inl rfl

/-- One of the calls for a redirection that can write leaves a record. -/
theorem exists_records {r : Redirect} (hop : r.op ∈ writingOperators) {cwd : Cwd}
    (hcwd : cwd.Inhabited) :
    ∃ e ∈ redirectEffects r cwd shell, e.Records r.span ∨ e.Records r.word.span := by
  rw [redirectEffects]
  split_ifs with _ hsh hsh
  all_goals try exact ⟨_, mem_append_right _ (mem_singleton_self _), .inl rfl⟩
  all_goals
    refine (?_ : ∃ e ∈ redirectOperation r cwd shell, _).imp
      fun e he => ⟨mem_append_right _ he.1, he.2⟩
    have hfile (operation : String) : (Effect.file r.word operation cwd).Records r.word.span :=
      ⟨rfl, hcwd⟩
    simp only [writingOperators, mem_cons, not_mem_nil, or_false] at hop
    obtain h | h | h | h | h | h | h := hop
    · exact ⟨_, by simp [redirectOperation, h], .inr (hfile "write")⟩
    · exact ⟨_, by simp [redirectOperation, h], .inr (hfile "append")⟩
    · exact ⟨_, by simp [redirectOperation, h], .inr (hfile "write")⟩
    · exact ⟨_, by simp [redirectOperation, h], .inr (hfile "read_write_open")⟩
    · exact ⟨_, by simp [redirectOperation, h], .inr (hfile "write")⟩
    · exact ⟨_, by simp [redirectOperation, h], .inr (hfile "append")⟩
    · exact ⟨descriptorRedirect r cwd shell, by simp [redirectOperation, h],
        descriptorRedirect_records r hcwd⟩

/-- Every redirection of a visited program that can write has a record. -/
theorem covers_visit {ast : Ast} {cwd : Cwd} (hcwd : cwd.Inhabited) {r : Redirect}
    (hr : r ∈ ast.redirects) (hop : r.op ∈ writingOperators) (a : Analysis) :
    ((visit rx shell ast cwd).1.foldl (Analysis.perform analyzeNested) a).Covers r.span ∨
      ((visit rx shell ast cwd).1.foldl (Analysis.perform analyzeNested) a).Covers
        r.word.span := by
  obtain ⟨cwd', hcwd', hsub⟩ := (visit_spec ast hcwd).2 r hr
  obtain ⟨e, hmem, hrec | hrec⟩ := exists_records hop hcwd'
  · exact .inl (Analysis.covers_foldl_perform (hsub e hmem) hrec a)
  · exact .inr (Analysis.covers_foldl_perform (hsub e hmem) hrec a)

/-! ## Limits -/

/-- A list of issues reports a limit. -/
def ReportsLimit (issues : List Issue) : Prop := ∃ issue ∈ issues, issue.status = .resourceLimit

/-- What an analysis remembers of limits: each that left something out is in its verdict, and among
its unresolved effects unless their list was full, or a nested program kept it to itself. Here
`pending` says that another report of a limit is on its way. -/
structure Analysis.HeardUpTo (pending : Prop) (a : Analysis) : Prop where
  /-- The verdict. -/
  status : a.dropped = true → a.swallowed = false → a.parseStatus = .resourceLimit ∨ pending
  /-- The list. -/
  listed : a.dropped = true → a.swallowed = false → a.muted = false →
    ReportsLimit a.unresolvedEffects ∨ pending
  /-- Nothing is swallowed where nothing was left out. -/
  dropped : a.swallowed = true ∨ a.muted = true ∨ ReportsLimit a.unresolvedEffects ∨ pending →
    a.dropped = true

/-- The same when no report is on its way. -/
def Analysis.Heard (a : Analysis) : Prop := a.HeardUpTo False

theorem Analysis.heard_empty : ({} : Analysis).Heard := by
  refine ⟨fun h => ?_, fun h => ?_, fun h => ?_⟩
  · cases h
  · cases h
  · simp [ReportsLimit] at h

variable {pending : Prop}

/-- A limit that is reported is in the verdict, and in the list unless it is full. -/
theorem Analysis.heard_addIssue_limit {a : Analysis} {issue : Issue}
    (h : issue.status = .resourceLimit) :
    (a.addIssue issue).parseStatus = .resourceLimit ∧
      ((a.addIssue issue).muted = false → ReportsLimit (a.addIssue issue).unresolvedEffects) := by
  refine ⟨by simp [Analysis.addIssue, h], fun hmuted => ?_⟩
  have hroom : a.unresolvedEffects.length < MAX_EFFECTS := by
    simp only [Analysis.addIssue, h, Bool.or_eq_false_iff, decide_true, Bool.true_and,
      decide_eq_false_iff_not] at hmuted
    omega
  exact ⟨issue, by simp [Analysis.addIssue, hroom], h⟩

theorem Analysis.HeardUpTo.addIssue {a : Analysis} {issue : Issue}
    (h : a.HeardUpTo (issue.status = .resourceLimit ∨ pending)) :
    (a.addIssue issue).HeardUpTo pending := by
  by_cases hlimit : issue.status = .resourceLimit
  · obtain ⟨hstatus, hlisted⟩ := Analysis.heard_addIssue_limit (a := a) hlimit
    exact ⟨fun _ _ => .inl hstatus, fun _ _ hmuted => .inl (hlisted hmuted),
      fun _ => h.dropped (.inr (.inr (.inr (.inl hlimit))))⟩
  · have hext := (a.extends_addIssue issue).effects
    have hmuted : (a.addIssue issue).muted = a.muted := by simp [Analysis.addIssue, hlimit]
    refine ⟨fun hd hs => ?_, fun hd hs hm => ?_, fun hd => ?_⟩
    · obtain hstatus | hlimit' | hp := h.status hd hs
      · exact .inl (by simp [Analysis.addIssue, hlimit, hstatus])
      · exact absurd hlimit' hlimit
      · exact .inr hp
    · obtain ⟨i, hi, hstatus⟩ | hlimit' | hp := h.listed hd hs (hmuted ▸ hm)
      · exact .inl ⟨i, hext.subset hi, hstatus⟩
      · exact absurd hlimit' hlimit
      · exact .inr hp
    · refine h.dropped ?_
      obtain hs | hm | ⟨i, hi, hstatus⟩ | hp := hd
      · exact .inl hs
      · exact .inr (.inl (hmuted ▸ hm))
      · refine .inr (.inr (.inl ⟨i, ?_, hstatus⟩))
        simp only [Analysis.addIssue] at hi
        split at hi
        · obtain hi | rfl : i ∈ a.unresolvedEffects ∨ i = issue := by simpa using hi
          · exact hi
          · exact absurd hstatus hlimit
        · exact hi
      · exact .inr (.inr (.inr (.inr hp)))

theorem Analysis.HeardUpTo.report {a : Analysis} (h : a.HeardUpTo pending) (issue : Issue) :
    (a.report issue).HeardUpTo pending := by
  refine Analysis.HeardUpTo.addIssue (a := { a with
    dropped := a.dropped || issue.status = .resourceLimit })
    ⟨fun hd hs => ?_, fun hd hs hm => ?_, fun hd => ?_⟩
  · obtain hd | hlimit : a.dropped = true ∨ issue.status = .resourceLimit := by simpa using hd
    · exact (h.status hd hs).imp_right .inr
    · exact .inr (.inl hlimit)
  · obtain hd | hlimit : a.dropped = true ∨ issue.status = .resourceLimit := by simpa using hd
    · exact (h.listed hd hs hm).imp_right .inr
    · exact .inr (.inl hlimit)
  · simp only [Bool.or_eq_true, decide_eq_true_eq]
    obtain hs | hm | hl | hlimit | hp := hd
    · exact .inl (h.dropped (.inl hs))
    · exact .inl (h.dropped (.inr (.inl hm)))
    · exact .inl (h.dropped (.inr (.inr (.inl hl))))
    · exact .inr hlimit
    · exact .inl (h.dropped (.inr (.inr (.inr hp))))

/-- A limit is heard where it is reached. -/
theorem Analysis.HeardUpTo.limit {a : Analysis} (h : a.HeardUpTo pending) (reason : String)
    (span : Span) : (a.limit reason span).HeardUpTo pending :=
  h.report _

theorem Analysis.HeardUpTo.pushFile {a : Analysis} (h : a.HeardUpTo pending)
    (op : FileOperation) : (a.pushFile op).HeardUpTo pending :=
  ⟨h.status, h.listed, h.dropped⟩

theorem Analysis.HeardUpTo.fileIn {a : Analysis} (h : a.HeardUpTo pending) (word : Word)
    (operation : String) (paths : List (List Char)) :
    (a.fileIn word operation paths).HeardUpTo pending := by
  induction paths generalizing a with
  | nil => exact h
  | cons path paths ih =>
    rw [Analysis.fileIn]
    split
    · exact h.limit _ _
    · exact ih (h.pushFile _)

theorem Analysis.HeardUpTo.file {a : Analysis} (h : a.HeardUpTo pending) (word : Word)
    (operation : String) (cwd : Cwd) : (a.file word operation cwd).HeardUpTo pending := by
  rw [Analysis.file]
  split
  · exact h.report _
  split
  · exact h.report _
  split
  · exact h.limit _ _
  split
  · exact h.pushFile _
  split
  · exact h.fileIn _ _ _
  · exact h.report _

theorem Analysis.HeardUpTo.descriptor {a : Analysis} (h : a.HeardUpTo pending)
    (op : DescriptorOperation) : (a.descriptor op).HeardUpTo pending := by
  rw [Analysis.descriptor]
  split
  · exact h.limit _ _
  · exact ⟨h.status, h.listed, h.dropped⟩

theorem Analysis.HeardUpTo.mergeFiles {a : Analysis} (h : a.HeardUpTo pending) (span : Span)
    (ops : List FileOperation) : (a.mergeFiles span ops).HeardUpTo pending := by
  induction ops generalizing a with
  | nil => exact h
  | cons op ops ih =>
    rw [Analysis.mergeFiles]
    split
    · exact ih (h.pushFile _)
    · exact h.limit _ _

theorem Analysis.HeardUpTo.foldl_addIssue {a : Analysis} {issues : List Issue}
    (h : a.HeardUpTo (ReportsLimit issues)) : (issues.foldl Analysis.addIssue a).Heard := by
  induction issues generalizing a with
  | nil =>
    have hnot : ReportsLimit [] ↔ False := by simp [ReportsLimit]
    rwa [propext hnot] at h
  | cons issue issues ih =>
    have hcons : ReportsLimit (issue :: issues) ↔
        issue.status = .resourceLimit ∨ ReportsLimit issues := by simp [ReportsLimit]
    rw [propext hcons] at h
    exact ih h.addIssue

/-- The merge with a nested program hears what the nested program could list. -/
theorem Analysis.Heard.merge {a nested : Analysis} (h : a.Heard) (h' : nested.Heard)
    (input span : Span) : (a.merge nested input span).Heard := by
  have hmap : ReportsLimit (nested.unresolvedEffects.map fun e => { e with span := input }) ↔
      ReportsLimit nested.unresolvedEffects := by
    simp [ReportsLimit]
  have hstart : Analysis.HeardUpTo
      (ReportsLimit (nested.unresolvedEffects.map fun e => { e with span := input }))
      { a with
        dropped := a.dropped || nested.dropped
        swallowed := a.swallowed || nested.swallowed || nested.muted } := by
    rw [propext hmap]
    refine ⟨fun hd hs => ?_, fun hd hs hm => ?_, fun hd => ?_⟩
    · obtain ⟨⟨hs, hs'⟩, hm'⟩ : (a.swallowed = false ∧ nested.swallowed = false) ∧
          nested.muted = false := by simpa using hs
      obtain hd | hd : a.dropped = true ∨ nested.dropped = true := by simpa using hd
      · exact .inl ((h.status hd hs).resolve_right id)
      · exact .inr ((h'.listed hd hs' hm').resolve_right id)
    · obtain ⟨⟨hs, hs'⟩, hm'⟩ : (a.swallowed = false ∧ nested.swallowed = false) ∧
          nested.muted = false := by simpa using hs
      obtain hd | hd : a.dropped = true ∨ nested.dropped = true := by simpa using hd
      · exact .inl ((h.listed hd hs hm).resolve_right id)
      · exact .inr ((h'.listed hd hs' hm').resolve_right id)
    · simp only [Bool.or_eq_true] at hd ⊢
      obtain ((hs | hs') | hm') | hm | hl | hl' := hd
      · exact .inl (h.dropped (.inl hs))
      · exact .inr (h'.dropped (.inl hs'))
      · exact .inr (h'.dropped (.inr (.inl hm')))
      · exact .inl (h.dropped (.inr (.inl hm)))
      · exact .inl (h.dropped (.inr (.inr (.inl hl))))
      · exact .inr (h'.dropped (.inr (.inr (.inl hl'))))
  rw [Analysis.merge]
  refine Analysis.HeardUpTo.foldl_addIssue ?_
  have hfiles := hstart.mergeFiles span
    (nested.fileOperations.map fun op => { op with sourceSpan := input })
  split
  · have hlimit := hfiles.limit "nested descriptor operation limit" span
    exact ⟨hlimit.status, hlimit.listed, hlimit.dropped⟩
  · exact ⟨hfiles.status, hfiles.listed, hfiles.dropped⟩

theorem Analysis.Heard.perform {a : Analysis} (h : a.Heard)
    (hnested : ∀ input shell cwd, (analyzeNested input shell cwd).Heard) (effect : Effect) :
    (a.perform analyzeNested effect).Heard := by
  cases effect with
  | issue issue => exact h.report issue
  | file word operation cwd => exact h.file word operation cwd
  | descriptor op => exact h.descriptor op
  | nested input shell cwd span => exact h.merge (hnested input.value shell cwd) _ _

theorem Analysis.Heard.foldl_perform {a : Analysis} (h : a.Heard)
    (hnested : ∀ input shell cwd, (analyzeNested input shell cwd).Heard) (effects : List Effect) :
    (effects.foldl (Analysis.perform analyzeNested) a).Heard := by
  induction effects generalizing a with
  | nil => exact h
  | cons effect effects ih => exact ih (h.perform hnested effect)

/-- Every analysis hears the limits, at every nesting depth. -/
theorem Analysis.Heard.analyzeInto {a : Analysis} (h : a.Heard) (room : ℕ)
    (command : List Char) (shell : String) (cwd : Cwd) :
    (analyzeInto rx room command shell cwd a).Heard := by
  induction room generalizing a command shell cwd with
  | zero => exact h.limit _ _
  | succ room ih =>
    simp only [Shell.analyzeInto]
    split
    · exact h.limit _ _
    split
    · exact h.report _
    split
    · exact h.report _
    split
    · exact h.report _
    · exact h.foldl_perform (fun input shell cwd => ih Analysis.heard_empty input shell cwd) _

/-- A supported program was parsed, keeps the redirections of its tokens and is visited. -/
theorem exists_parse {room : ℕ} {command : List Char} {cwd : Cwd}
    (h : (analyzeInto rx (room + 1) command shell cwd {}).parseStatus = .supported) :
    ∃ tokens ast, lex command = .ok tokens ∧ parseProgram command = .ok ast ∧
      ast.redirects = redirectTokens tokens ∧
      analyzeInto rx (room + 1) command shell cwd {} = (visit rx shell ast cwd).1.foldl
        (Analysis.perform fun input shell cwd => analyzeInto rx room input shell cwd {}) {} := by
  have hparse := parseProgram_yields command
  have hreport (e : Issue) (h : (({} : Analysis).report e).parseStatus = .supported) :
      e.status = .supported := by
    simpa [Analysis.report, Analysis.addIssue] using h
  simp only [analyzeInto] at h ⊢
  -- a text that is refused has a verdict of its own
  by_cases hbytes : Text.byteLength command > MAX_COMMAND_BYTES
  · rw [if_pos hbytes] at h
    cases hreport _ h
  by_cases hshell : shell ∉ ["bash", "sh", "zsh"]
  · rw [if_neg hbytes, if_pos hshell] at h
    cases hreport _ h
  by_cases hnul : '\x00' ∈ command
  · rw [if_neg hbytes, if_neg hshell, if_pos hnul] at h
    cases hreport _ h
  rw [if_neg hbytes, if_neg hshell, if_neg hnul] at h ⊢
  cases hast : parseProgram command with
  | error e =>
    rw [hast] at hparse h
    exact absurd (hreport e h) hparse
  | ok ast =>
    rw [hast] at hparse
    obtain ⟨tokens, hlex, hredirects⟩ := hparse
    exact ⟨tokens, ast, hlex, rfl, hredirects, rfl⟩

/-- The analysis of a text whose calls are known. -/
theorem analyzeInto_of_visit {room : ℕ} {command : List Char} {cwd : Cwd} {effects : List Effect}
    (hbytes : Text.byteLength command ≤ MAX_COMMAND_BYTES) (hshell : shell ∈ ["bash", "sh", "zsh"])
    (hnul : '\x00' ∉ command)
    (heffects : (parseProgram command).toOption.map (fun ast => (visit rx shell ast cwd).1) =
      some effects) :
    analyzeInto rx (room + 1) command shell cwd a = effects.foldl
      (Analysis.perform fun input shell cwd => analyzeInto rx room input shell cwd {}) a := by
  obtain ⟨ast, hast, rfl⟩ := Option.map_eq_some_iff.1 heffects
  have hparse : parseProgram command = .ok ast := by
    cases h : parseProgram command with
    | error e => simp [h, Except.toOption] at hast
    | ok ast' => simpa [h, Except.toOption] using hast
  rw [analyzeInto, if_neg (Nat.not_lt.2 hbytes), if_neg (not_not_intro hshell), if_neg hnul,
    hparse]

/-- Recognizers that find nothing. -/
def blind : Recognizers :=
  ⟨fun _ => [], fun _ => [], fun _ => [], fun _ => [], fun _ => [], fun _ => [], fun _ => [],
    fun _ => []⟩

/-- The directory of the examples. -/
def repo : Cwd := ⟨some ["/repo".toList]⟩

/-- A text with one subshell too many. -/
def deepProgram : List Char := List.replicate 33 '('

/-- `deepProgram` as a word of `crowdedProgram`. -/
def deepWord : Word := ⟨deepProgram, false, false, true, false, ⟨8, 43⟩⟩

/-- A text that hands `deepProgram` and 64 executed arguments to a shell. -/
def crowdedProgram : List Char :=
  "bash -c \"".toList ++ deepProgram ++ "\"".toList ++
    (List.replicate 64 " $()".toList).flatten

/-- `crowdedProgram` as a word of `swallowingCommand`. -/
def crowdedWord : Word := ⟨crowdedProgram, false, false, true, false, ⟨8, 309⟩⟩

/-- The issues about the executed arguments. -/
def executedArguments : List Issue :=
  (List.range 64).map fun i =>
    ⟨.supported, "executable argument expansion", ⟨44 + 4 * i, 47 + 4 * i⟩⟩

/-- A text that hands `crowdedProgram` to a shell. -/
def swallowingCommand : List Char := "bash -c '".toList ++ crowdedProgram ++ "'".toList

theorem analyzeInto_deepProgram :
    analyzeInto blind 31 deepProgram "bash" repo {} =
      ({} : Analysis).limit "shell nesting limit" ⟨0, 0⟩ := by
  decide +kernel

theorem visit_crowdedProgram :
    (parseProgram crowdedProgram).toOption.map (fun ast => (visit blind "bash" ast repo).1) =
      some (executedArguments.map .issue ++ [.nested deepWord "bash" repo ⟨0, 4⟩]) := by
  decide +kernel

/-- The verdict on `crowdedProgram` is its only trace of the limit. -/
theorem analyzeInto_crowdedProgram :
    analyzeInto blind 32 crowdedProgram "bash" repo {} =
      { parseStatus := .resourceLimit, unresolvedEffects := executedArguments, dropped := true,
        muted := true } := by
  rw [analyzeInto_of_visit (by decide +kernel) (by decide) (by decide +kernel)
    visit_crowdedProgram, foldl_append, foldl_cons, foldl_nil, Analysis.perform,
    deepWord, analyzeInto_deepProgram]
  decide +kernel

theorem visit_swallowingCommand :
    (parseProgram swallowingCommand).toOption.map (fun ast => (visit blind "bash" ast repo).1) =
      some [.nested crowdedWord "bash" repo ⟨0, 4⟩] := by
  decide +kernel

end Shell

end OpenBitFun
