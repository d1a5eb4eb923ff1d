import OpenBitFun.ShellDirectory

/-!
# The files a command names

A file named relative to the directory of a command is noted under that directory, or something is
reported as unresolved. `git -C` resolves its operands in a directory of its own. The same holds of
the programs handed to another shell, whose analysis is merged.
-/

namespace OpenBitFun

open List

namespace Shell

variable {a b : Analysis} {cwd start : Cwd} {d : List Char} {rx : Recognizers} {shell : String}
  {words : List Word} {rs : List Redirect} {effects effects' : List Effect}

/-! ## The directories of the calls -/

/-- A call names files relative to some directories, and nested programs start in others. -/
def Effect.Within (cwd start : Cwd) : Effect → Prop
  | .file _ _ cwd' => cwd' = cwd
  | .nested _ _ cwd' _ => cwd' = start
  | _ => True

/-- All calls do. -/
def AllWithin (cwd start : Cwd) (effects : List Effect) : Prop :=
  ∀ e ∈ effects, e.Within cwd start

@[simp] theorem allWithin_nil : AllWithin cwd start [] := by
  simp [AllWithin]

@[simp] theorem allWithin_cons {e : Effect} :
    AllWithin cwd start (e :: effects) ↔ e.Within cwd start ∧ AllWithin cwd start effects := by
  simp [AllWithin]

@[simp] theorem allWithin_append :
    AllWithin cwd start (effects ++ effects') ↔
      AllWithin cwd start effects ∧ AllWithin cwd start effects' := by
  simp [AllWithin, or_imp, forall_and]

@[simp] theorem within_issue (issue : Issue) : (Effect.issue issue).Within cwd start := trivial

@[simp] theorem within_say (reason : String) (span : Span) :
    (say reason span).Within cwd start := trivial

@[simp] theorem within_file (w : Word) (operation : String) :
    (Effect.file w operation cwd).Within cwd start := rfl

@[simp] theorem within_nested (w : Word) (sh : String) (span : Span) :
    (Effect.nested w sh start span).Within cwd start := rfl

@[simp] theorem allWithin_ite {p : Prop} [Decidable p] :
    AllWithin cwd start (if p then effects else effects') ↔
      (p → AllWithin cwd start effects) ∧ (¬p → AllWithin cwd start effects') := by
  split <;> simp [*]

/-- A report that depends on a condition. -/
theorem allWithin_say {p : Prop} [Decidable p] (reason : String) (span : Span) :
    AllWithin cwd start (if p then [say reason span] else []) := by
  split
  · exact allWithin_cons.2 ⟨trivial, allWithin_nil⟩
  · exact allWithin_nil

theorem allWithin_map {α : Type} (f : α → Effect) (l : List α) (h : ∀ x, (f x).Within cwd start) :
    AllWithin cwd start (l.map f) := by
  simpa [AllWithin] using fun x _ => h x

theorem redirectsEffects_within (rs : List Redirect) (cwd : Cwd) (shell : String) :
    AllWithin cwd start (redirectsEffects rs cwd shell) := by
  intro e he
  obtain ⟨r, -, he⟩ := mem_flatMap.1 he
  have hdescriptor : (descriptorRedirect r cwd shell).Within cwd start := by
    rw [descriptorRedirect]
    split
    · trivial
    · lift_lets
      intro v number
      split
      · trivial
      split
      · rfl
      · trivial
  have hall : AllWithin cwd start (redirectEffects r cwd shell) := by
    rw [redirectEffects]
    refine allWithin_append.2 ⟨by simp, ?_⟩
    split
    · simp
    · rw [redirectOperation]
      split <;> simp [hdescriptor]
  exact hall e he

theorem programSource_within (name : String) (isShell : Bool) (args : List Word) :
    AllWithin cwd start (programSource name isShell args).1 := by
  fun_induction programSource name isShell args <;> simp_all

theorem interpreter_within (name : String) (args : List Word) (rs : List Redirect) (cwd : Cwd)
    (span : Span) : AllWithin cwd cwd (interpreter rx name args rs cwd span) := by
  have hforeign (input : Word) : AllWithin cwd cwd (foreignProgram rx name input cwd) := by
    simp only [foreignProgram]
    refine allWithin_append.2 ⟨allWithin_map _ _ fun _ => rfl, ?_⟩
    split <;> simp
  simp only [interpreter]
  refine allWithin_append.2 ⟨programSource_within _ _ _, ?_⟩
  split
  · simp
  · split
    · simp
    · split_ifs
      · simp
      · simp
      · exact hforeign _

theorem operands_within (name : String) (flags : Bool) (args : List Word) :
    AllWithin cwd start (operands name flags args).1 := by
  match args with
  | [] =>
    rw [operands]
    exact allWithin_nil
  | a :: args =>
    rw [operands.eq_def]
    dsimp only
    split
    · exact operands_within name false args
    split
    · split
      · cases args with
        | nil => exact allWithin_nil
        | cons _ args => exact operands_within name flags args
      · exact allWithin_append.2 ⟨allWithin_append.2 ⟨allWithin_say _ _, allWithin_say _ _⟩,
          operands_within name flags args⟩
    · exact operands_within name flags args

theorem moveEffects_within (cwd : Cwd) (paths : List Word) :
    AllWithin cwd start (moveEffects cwd paths) := by
  fun_induction moveEffects cwd paths <;> simp_all

theorem last_within (paths : List Word) (cwd : Cwd) : AllWithin cwd start
    (match paths.getLast? with
    | some p => [.file p "write" cwd]
    | none => []) := by
  split <;> simp

theorem mutationEffects_within (name : String) (args : List Word) (cwd : Cwd) (span : Span) :
    AllWithin cwd start (mutationEffects name args cwd span) := by
  simp only [mutationEffects]
  refine allWithin_append.2 ⟨allWithin_append.2 ⟨operands_within _ _ _, allWithin_say _ _⟩, ?_⟩
  split
  · exact last_within _ _
  · exact last_within _ _
  · exact last_within _ _
  · exact last_within _ _
  · exact moveEffects_within _ _
  · exact allWithin_map _ _ fun _ => within_file _ _

theorem ddEffects_within (args : List Word) (cwd : Cwd) :
    AllWithin cwd start (ddEffects args cwd) := by
  intro e he
  obtain ⟨a, -, ha⟩ := mem_filterMap.1 he
  split at ha
  · cases ha
    rfl
  · cases ha

theorem editedFiles_within (cwd : Cwd) (script : Bool) (args : List Word) :
    AllWithin cwd start (editedFiles cwd script args).1 := by
  match args with
  | [] =>
    rw [editedFiles]
    exact allWithin_nil
  | a :: args =>
    rw [editedFiles.eq_def]
    dsimp only
    split
    · cases args with
      | nil => exact allWithin_nil
      | cons _ args => exact editedFiles_within cwd true args
    split
    · cases args with
      | nil => simp
      | cons _ args => simp [editedFiles_within cwd script args]
    split
    · exact editedFiles_within cwd _ args
    split
    · exact editedFiles_within cwd true args
    · simp [editedFiles_within cwd script args]

theorem editEffects_within (name : String) (args : List Word) (cwd : Cwd) (span : Span) :
    AllWithin cwd start (editEffects name args cwd span) := by
  have hedited : AllWithin cwd start (editedFiles cwd false args).1 := editedFiles_within _ _ _
  rw [editEffects]
  refine allWithin_append.2 ⟨?_, allWithin_say _ _⟩
  split
  · exact allWithin_append.2 ⟨hedited, allWithin_say _ _⟩
  · exact allWithin_nil

/-- The operands of the options `-C` of `git`. -/
def gitDirectories : List Word → List Word
  | a :: dir :: args => if a.value = "-C".toList then dir :: gitDirectories args else []
  | _ => []

theorem gitOptions_spec (base : Cwd) (args : List Word) :
    match gitOptions base args with
    | .inl effects => ∀ cwd start, AllWithin cwd start effects
    | .inr (base', _) => base' = (gitDirectories args).foldl Cwd.change base := by
  match args with
  | [] => rfl
  | [a] =>
    rw [gitOptions.eq_def]
    dsimp only
    split_ifs
    · exact fun cwd start => allWithin_cons.2 ⟨trivial, allWithin_nil⟩
    · exact fun cwd start => allWithin_cons.2 ⟨trivial, allWithin_nil⟩
    · rfl
  | a :: dir :: args =>
    rw [gitOptions.eq_def, gitDirectories]
    dsimp only
    by_cases hdir : a.value = "-C".toList
    · rw [if_pos hdir, if_pos hdir]
      exact gitOptions_spec (base.change dir) args
    · rw [if_neg hdir, if_neg hdir]
      split_ifs
      · exact fun cwd start => allWithin_cons.2 ⟨trivial, allWithin_nil⟩
      · rfl

theorem gitSubcommand_within (sub : Word) (rest : List Word) (base : Cwd) (span : Span) :
    AllWithin base start (gitSubcommand sub rest base span) := by
  rw [gitSubcommand]
  split
  · exact allWithin_append.2 ⟨operands_within _ _ _, allWithin_map _ _ fun _ => within_file _ _⟩
  · exact allWithin_append.2 ⟨operands_within _ _ _, moveEffects_within _ _⟩
  · exact allWithin_append.2 ⟨allWithin_append.2 ⟨operands_within _ _ _, allWithin_say _ _⟩,
      allWithin_map _ _ fun _ => within_file _ _⟩
  · split
    · exact allWithin_map _ _ fun _ => within_file _ _
    · exact allWithin_cons.2 ⟨trivial, allWithin_nil⟩
  all_goals first
    | exact allWithin_cons.2 ⟨trivial, allWithin_nil⟩
    | exact allWithin_nil

theorem gitEffects_within (args : List Word) (cwd : Cwd) (span : Span) :
    AllWithin ((gitDirectories args).foldl Cwd.change cwd) start (gitEffects args cwd span) := by
  have hspec := gitOptions_spec cwd args
  rw [gitEffects]
  cases hoptions : gitOptions cwd args with
  | inl effects =>
    rw [hoptions] at hspec
    exact hspec _ _
  | inr rest =>
    obtain ⟨base, rest⟩ := rest
    rw [hoptions] at hspec
    obtain rfl : base = (gitDirectories args).foldl Cwd.change cwd := hspec
    cases rest with
    | nil => exact allWithin_nil
    | cons sub rest =>
      dsimp only
      split
      · exact allWithin_cons.2 ⟨trivial, allWithin_nil⟩
      · exact gitSubcommand_within sub rest _ span

theorem programWarnings_within (name : String) (args : List Word) (span : Span) :
    AllWithin cwd start (programWarnings name args span) := by
  simp only [programWarnings, allWithin_append]
  exact ⟨⟨⟨allWithin_say _ _, allWithin_say _ _⟩, allWithin_say _ _⟩, allWithin_say _ _⟩

/-- The programs other than `git` name their files in the directory they run in. -/
theorem programEffects_within {name : String} (args : List Word) (cwd : Cwd) (span : Span)
    (hname : name ≠ "git") : AllWithin cwd start (programEffects name args cwd span) := by
  unfold programEffects
  split
  all_goals first
    | exact mutationEffects_within _ _ _ _
    | exact ddEffects_within _ _
    | exact editEffects_within _ _ _ _
    | exact absurd rfl hname
    | exact allWithin_nil

/-- The words that lead a program to the directory of its operands. -/
def operandDirectories (words : List Word) : List Word :=
  match unwrap false (words.dropWhile (·.assignment)) with
  | .program w args => if basename w.value = "git" then gitDirectories args else []
  | _ => []

/-- **A program names its files in the directory of its operands.** -/
theorem started_within (words : List Word) (rs : List Redirect) (cwd : Cwd) :
    AllWithin ((operandDirectories words).foldl Cwd.change cwd) cwd
      ((Ast.command words rs).started rx cwd) := by
  rw [Ast.started, operandDirectories]
  cases unwrap false (words.dropWhile (·.assignment)) with
  | nothing => exact allWithin_nil
  | unresolved => exact allWithin_cons.2 ⟨trivial, allWithin_nil⟩
  | program w args =>
    dsimp only [unwrapped, program]
    by_cases hgit : basename w.value = "git"
    · have hcompound : "git" ∉ compoundNames := by decide
      rw [if_pos hgit, hgit, if_neg hcompound, if_neg (by decide), if_neg (by decide),
        if_neg (by decide)]
      exact allWithin_append.2 ⟨programWarnings_within _ _ _, gitEffects_within _ _ _⟩
    · rw [if_neg hgit, foldl_nil]
      split_ifs
      · exact allWithin_cons.2 ⟨trivial, allWithin_nil⟩
      · exact allWithin_nil
      · exact allWithin_cons.2 ⟨trivial, allWithin_nil⟩
      · exact interpreter_within _ _ _ _ _
      · exact allWithin_append.2 ⟨programWarnings_within _ _ _,
          programEffects_within _ _ _ hgit⟩

/-! ## What is noted -/

/-- There is such a file operation, or something is reported as unresolved. -/
def Analysis.Notes (a : Analysis) (Q : FileOperation → Prop) : Prop :=
  (∃ op ∈ a.fileOperations, Q op) ∨ a.unresolvedEffects ≠ []

variable {Q Q' : FileOperation → Prop}

theorem Analysis.Notes.mono (h : a.Notes Q) (hext : a.Extends b) : b.Notes Q := by
  obtain ⟨op, hmem, hq⟩ | hne := h
  · exact .inl ⟨op, hext.files.subset hmem, hq⟩
  · refine .inr fun hnil => hne ?_
    exact prefix_nil.1 (hnil ▸ hext.effects)

theorem Analysis.Notes.imp (h : a.Notes Q) (himp : ∀ op, Q op → Q' op) : a.Notes Q' :=
  h.imp_left fun ⟨op, hmem, hq⟩ => ⟨op, hmem, himp op hq⟩

theorem Analysis.addIssue_ne_nil (a : Analysis) (issue : Issue) :
    (a.addIssue issue).unresolvedEffects ≠ [] := by
  simp only [Analysis.addIssue]
  split
  · exact append_ne_nil_of_right_ne_nil _ (cons_ne_nil _ _)
  · next hfull =>
    rintro hnil
    rw [hnil] at hfull
    exact hfull (by decide)

theorem Analysis.notes_report (a : Analysis) (issue : Issue) : (a.report issue).Notes Q :=
  .inr (a.addIssue_ne_nil issue)

theorem Analysis.notes_pushFile (a : Analysis) (op : FileOperation) :
    (a.pushFile op).Notes (· = op) :=
  .inl ⟨op, by simp [Analysis.pushFile], rfl⟩

/-- What `Analysis::file` records about a word in a directory. -/
def IsFile (operation : String) (word : Word) (d : List Char) (op : FileOperation) : Prop :=
  op.operation = operation ∧ op.path = joinPath d word.value ∧ op.sourceSpan = word.span

theorem Analysis.notes_fileIn (a : Analysis) (word : Word) (operation : String)
    {paths : List (List Char)} (h : d ∈ paths) :
    (a.fileIn word operation paths).Notes (IsFile operation word d) := by
  induction paths generalizing a with
  | nil => cases h
  | cons path paths ih =>
    rw [Analysis.fileIn]
    split
    · exact a.notes_report _
    obtain rfl | h := mem_cons.1 h
    · refine ((a.notes_pushFile _).mono (Analysis.extends_fileIn _ _ _ _)).imp ?_
      rintro op rfl
      exact ⟨rfl, rfl, rfl⟩
    · exact ih _ h

/-- A file is noted under each directory it may be relative to. -/
theorem Analysis.notes_file (a : Analysis) (word : Word) (operation : String)
    (h : cwd.Member d) : (a.file word operation cwd).Notes (IsFile operation word d) := by
  rw [Analysis.file]
  split
  · exact a.notes_report _
  split
  · exact a.notes_report _
  split
  · exact a.notes_report _
  split
  · next habs =>
    refine (a.notes_pushFile _).imp ?_
    rintro op rfl
    exact ⟨rfl, by simp [joinPath, habs], rfl⟩
  split
  · next paths hpaths => exact a.notes_fileIn word operation (h paths hpaths)
  · exact a.notes_report _

variable {analyzeNested : List Char → String → Cwd → Analysis}

theorem Analysis.notes_foldl_perform {e : Effect} (hmem : e ∈ effects)
    (h : ∀ a : Analysis, (a.perform analyzeNested e).Notes Q) (a : Analysis) :
    (effects.foldl (Analysis.perform analyzeNested) a).Notes Q := by
  induction effects generalizing a with
  | nil => cases hmem
  | cons e' effects ih =>
    obtain rfl | hmem := mem_cons.1 hmem
    · exact (h a).mono (Analysis.extends_foldl_perform _ _)
    · exact ih hmem _

/-! ## Nested programs -/

theorem Analysis.notes_mergeFiles (a : Analysis) (span : Span) {ops : List FileOperation}
    {op : FileOperation} (h : op ∈ ops) : (a.mergeFiles span ops).Notes (· = op) := by
  induction ops generalizing a with
  | nil => cases h
  | cons op' ops ih =>
    rw [Analysis.mergeFiles]
    split
    · obtain rfl | h := mem_cons.1 h
      · exact (a.notes_pushFile op).mono (Analysis.extends_mergeFiles _ _ _)
      · exact ih _ h
    · exact a.notes_report _

/-- The merge with a nested program keeps what the nested program noted, at another span. -/
theorem Analysis.Notes.merge {nested : Analysis} (h : nested.Notes Q)
    (hspan : ∀ op span, Q op → Q { op with sourceSpan := span }) (a : Analysis)
    (input span : Span) : (a.merge nested input span).Notes Q := by
  rw [Analysis.merge]
  obtain ⟨op, hmem, hq⟩ | hne := h
  · -- the operation is merged, and nothing is taken back after that
    refine Analysis.Notes.mono ?_ (Analysis.extends_foldl_addIssue _ _)
    have hfiles := Analysis.notes_mergeFiles { a with
      dropped := a.dropped || nested.dropped
      swallowed := a.swallowed || nested.swallowed || nested.muted } span
      (mem_map_of_mem (f := fun op : FileOperation => { op with sourceSpan := input }) hmem)
    have hfiles := hfiles.imp fun op' (h : op' = _) => h ▸ hspan op input hq
    split
    · exact hfiles.mono ((Analysis.extends_limit _ _ _).trans
        ⟨prefix_rfl, prefix_append _ _, prefix_rfl⟩)
    · exact hfiles.mono ⟨prefix_rfl, prefix_append _ _, prefix_rfl⟩
  · obtain ⟨issue, issues, hcons⟩ := exists_cons_of_ne_nil hne
    rw [hcons, map_cons, foldl_cons]
    refine Analysis.Notes.mono ?_ (Analysis.extends_foldl_addIssue _ _)
    exact .inr (Analysis.addIssue_ne_nil _ _)

/-- A text is parsed and visited. -/
structure Visits (text : List Char) (shell : String) (ast : Ast) : Prop where
  /-- It is not too long. -/
  bytes : Text.byteLength text ≤ MAX_COMMAND_BYTES
  /-- The shell is supported. -/
  shell : shell ∈ ["bash", "sh", "zsh"]
  /-- It has no NUL. -/
  nul : '\x00' ∉ text
  /-- It parses. -/
  parse : parseProgram text = .ok ast

theorem Visits.analyzeInto {text : List Char} {ast : Ast} (h : Visits text shell ast) (room : ℕ)
    (cwd : Cwd) :
    Shell.analyzeInto rx (room + 1) text shell cwd {} = (visit rx shell ast cwd).1.foldl
      (Analysis.perform fun input shell cwd => Shell.analyzeInto rx room input shell cwd {}) {} :=
  analyzeInto_of_visit h.bytes h.shell h.nul (by simp [h.parse, Except.toOption])

/-- `Reached rx command kind workdir room text shell cwd d`: in a run of the command, and of the
programs it hands to other shells, `text` is run in `d` and analyzed with the directories `cwd` and
the nesting depth `MAX_DEPTH + 1 - room`. The analyzer's own `cd` is the shell's all along. -/
inductive Reached (rx : Recognizers) (command : List Char) (shellKind : String)
    (workdir : List Char) : ℕ → List Char → String → Cwd → List Char → Prop
  | command (h : workdir.head? = some '/') :
    Reached rx command shellKind workdir (MAX_DEPTH + 1) command shellKind ⟨some [workdir]⟩ workdir
  | nested {room text shell cwd d ast events ok d' e cwd' input sh cwd'' span}
    (h : Reached rx command shellKind workdir (room + 1) text shell cwd d)
    (hvisit : Visits text shell ast) (hrun : Runs ast d events ok d')
    (hfollow : ∀ e ∈ events, e.FollowsShell) (he : e ∈ events)
    (hcwd : cwdAt rx shell ast cwd e.path = some cwd')
    (hnested : .nested input sh cwd'' span ∈ e.node.started rx cwd') :
    Reached rx command shellKind workdir room input.value sh cwd'' e.directory

/-- A nested program starts in the directory of its command. -/
theorem nested_started {node : Ast} {input : Word} {sh : String} {cwd' : Cwd} {span : Span}
    (h : .nested input sh cwd' span ∈ node.started rx cwd) : cwd' = cwd := by
  cases node with
  | command words rs => exact started_within words rs cwd _ h
  | _ => cases h

/-- A text is run in a directory that it is analyzed with. -/
theorem Reached.member {command text : List Char} {shellKind shell : String} {workdir d : List Char}
    {room : ℕ} {cwd : Cwd} (h : Reached rx command shellKind workdir room text shell cwd d) :
    cwd.Member d := by
  induction h with
  | command => exact Cwd.member_some (mem_singleton_self _)
  | nested h hvisit hrun hfollow he hcwd hnested ih =>
    obtain ⟨cwd', hcwd', hmem, -⟩ := (Runs.sound rx _ _ hrun ih hfollow).2 _ he
    rw [hcwd'] at hcwd
    obtain rfl := Option.some.inj hcwd
    rw [nested_started hnested]
    exact hmem

/-- What the analysis of a text notes is noted by the analysis of the command. -/
theorem Reached.notes {command text : List Char} {shellKind shell : String}
    {workdir d : List Char} {room : ℕ} {cwd : Cwd}
    (h : Reached rx command shellKind workdir room text shell cwd d)
    (hspan : ∀ op span, Q op → Q { op with sourceSpan := span })
    (hnotes : (analyzeInto rx room text shell cwd {}).Notes Q) :
    (analyze rx command shellKind workdir).Notes Q := by
  induction h with
  | command h =>
    rw [analyze, if_neg (not_not_intro h)]
    exact hnotes
  | nested h hvisit hrun hfollow he hcwd hnested ih =>
    obtain ⟨cwd', hcwd', -, -, hsub⟩ := (Runs.sound rx _ _ hrun h.member hfollow).2 _ he
    rw [hcwd'] at hcwd
    obtain rfl := Option.some.inj hcwd
    refine ih ?_
    rw [hvisit.analyzeInto]
    refine Analysis.notes_foldl_perform (hsub hnested) (fun a => ?_) {}
    rw [Analysis.perform]
    exact hnotes.merge hspan a _ _

/-- The directory in which the program of a command resolves its operands. -/
def Event.operandDirectory (e : Event) : List Char :=
  match e.node with
  | .command words _ =>
    (operandDirectories words).foldl (fun d word => joinPath d word.value) e.directory
  | _ => e.directory

theorem Cwd.Member.foldl_change (h : cwd.Member d) (dirs : List Word) :
    (dirs.foldl Cwd.change cwd).Member (dirs.foldl (fun d word => joinPath d word.value) d) := by
  induction dirs generalizing cwd d with
  | nil => exact h
  | cons dir dirs ih => exact ih (h.change dir)

/-- A file among the calls of a tracked command is noted under its directory. -/
theorem noted_of_mem {calls : List Effect} (hsub : calls ⊆ effects)
    (hcwd : cwd.Member d) (hwithin : AllWithin cwd start calls) {word : Word} {operation : String}
    {cwd' : Cwd} (hfile : .file word operation cwd' ∈ calls) :
    (effects.foldl (Analysis.perform analyzeNested) {}).Notes (IsFile operation word d) := by
  obtain rfl : cwd' = cwd := hwithin _ hfile
  exact Analysis.notes_foldl_perform (hsub hfile) (fun a => a.notes_file word operation hcwd) {}

/-- **The directories of the analyzer are sound.** For every command, every text that a run of the
command reaches and every run of the text: if every `cd` that the analyzer follows is the shell's
own, every command that starts and every redirection that is opened in the run is in a directory
that `visit` passes on for it, or these are unknown; and the analyses of the text and of the command
note its files under that directory, or report something as unresolved. -/
theorem analyze_directories {rx : Recognizers} {command text : List Char}
    {shellKind shell : String} {workdir d d' : List Char} {room : ℕ} {cwd : Cwd} {ast : Ast}
    {events : List Event} {ok : Bool}
    (hreached : Reached rx command shellKind workdir (room + 1) text shell cwd d)
    (hvisit : Visits text shell ast) (hrun : Runs ast d events ok d')
    (hfollow : ∀ e ∈ events, e.FollowsShell) :
    ∀ e ∈ events, ∃ cwd', cwdAt rx shell ast cwd e.path = some cwd' ∧ cwd'.Member e.directory ∧
      (∀ word operation cwd'', .file word operation cwd'' ∈ e.node.opened shell cwd' →
        (analyzeInto rx (room + 1) text shell cwd {}).Notes (IsFile operation word e.directory) ∧
        (analyze rx command shellKind workdir).Notes fun op =>
          op.operation = operation ∧ op.path = joinPath e.directory word.value) ∧
      ∀ word operation cwd'', .file word operation cwd'' ∈ e.node.started rx cwd' →
        (analyzeInto rx (room + 1) text shell cwd {}).Notes
          (IsFile operation word e.operandDirectory) ∧
        (analyze rx command shellKind workdir).Notes fun op =>
          op.operation = operation ∧ op.path = joinPath e.operandDirectory word.value := by
  intro e he
  obtain ⟨cwd', hcwd', hmem, hopened, hstarted⟩ :=
    (Runs.sound rx shell ast hrun hreached.member hfollow).2 e he
  -- what the text notes goes up to the command
  have hup (operation : String) (word : Word) (d : List Char)
      (h : (analyzeInto rx (room + 1) text shell cwd {}).Notes (IsFile operation word d)) :
      (analyze rx command shellKind workdir).Notes fun op =>
        op.operation = operation ∧ op.path = joinPath d word.value :=
    hreached.notes (fun op span hop => hop) (h.imp fun op hop => ⟨hop.1, hop.2.1⟩)
  refine ⟨cwd', hcwd', hmem, fun word operation cwd'' hfile => ?_,
    fun word operation cwd'' hfile => ?_⟩
  · have hwithin : AllWithin cwd' cwd' (e.node.opened shell cwd') := by
      cases hnode : e.node with
      | command words rs => exact redirectsEffects_within rs cwd' shell
      | group a rs => exact redirectsEffects_within rs cwd' shell
      | _ => exact allWithin_nil
    have hnotes : (analyzeInto rx (room + 1) text shell cwd {}).Notes
        (IsFile operation word e.directory) := by
      rw [hvisit.analyzeInto]
      exact noted_of_mem hopened hmem hwithin hfile
    exact ⟨hnotes, hup _ _ _ hnotes⟩
  · have hnotes : (analyzeInto rx (room + 1) text shell cwd {}).Notes
        (IsFile operation word e.operandDirectory) := by
      rw [hvisit.analyzeInto]
      cases hnode : e.node with
      | command words rs =>
        rw [hnode] at hstarted hfile
        rw [Event.operandDirectory, hnode]
        exact noted_of_mem hstarted (hmem.foldl_change _) (started_within words rs cwd') hfile
      | _ =>
        rw [hnode] at hfile
        cases hfile
    exact ⟨hnotes, hup _ _ _ hnotes⟩

/-! ## A `cd` that is not the shell's -/

theorem parseProgram_of_same {text : List Char} {ast : Ast}
    (h : (parseProgram text).toOption.any (·.same ast) = true) : parseProgram text = .ok ast := by
  cases hparse : parseProgram text with
  | error e => simp [hparse, Except.toOption] at h
  | ok ast' =>
    rw [hparse] at h
    rw [Ast.eq_of_same ast' ast h]

/-- A word without quotes and expansions. -/
def plainWord (value : String) (start stop : ℕ) : Word :=
  ⟨value.toList, false, false, false, false, ⟨start, stop⟩⟩

/-- The shell runs `cd` itself. -/
def ownCd : List Char := "cd /scratch && rm f".toList

/-- The words of its first command. -/
def ownCdWords : List Word := [plainWord "cd" 0 2, plainWord "/scratch" 3 11]

/-- The words of its second command. -/
def ownRmWords : List Word := [plainWord "rm" 15 17, plainWord "f" 18 19]

/-- Its parse. -/
def ownCdAst : Ast := .sequence [.and (.command ownCdWords []) (.command ownRmWords [])]

theorem followsShell_of_unwrap (w : Word) (args : List Word)
    (hunwrap : unwrap false (words.dropWhile (·.assignment)) = .program w args)
    (hcd : basename w.value ≠ "cd" ∨ shellAction (words.dropWhile (·.assignment)) = .cd args)
    (hoptions : OptionsLiteral (words.dropWhile (·.assignment))) : FollowsShell words := by
  refine ⟨fun w' args' hunwrap' hname _ => ?_, hoptions⟩
  rw [hunwrap] at hunwrap'
  cases hunwrap'
  exact hcd.resolve_left (not_not_intro hname)

/-- Behind the shell's `cd`, `rm` is analyzed in the directory it runs in. -/
theorem analyze_directories_ownCd :
    ∃ cwd, cwdAt blind "bash" ownCdAst repo [0, 1] = some cwd ∧ cwd.Member "/scratch".toList := by
  have hcd : Moves ownCdWords "/repo".toList true "/scratch".toList := by
    have haction : shellAction (ownCdWords.dropWhile (·.assignment)) =
        .cd [plainWord "/scratch" 3 11] := by decide
    rw [Moves, haction]
    have htarget : literalTarget [plainWord "/scratch" 3 11] = some "/scratch".toList := by decide
    simp [htarget]
  have hrm : Moves ownRmWords "/scratch".toList true "/scratch".toList := by
    have haction : shellAction (ownRmWords.dropWhile (·.assignment)) = .stays := by decide
    rw [Moves, haction]
  have hrun : Runs ownCdAst "/repo".toList
      [⟨[0, 0], .command ownCdWords [], "/repo".toList⟩,
        ⟨[0, 1], .command ownRmWords [], "/scratch".toList⟩] true "/scratch".toList :=
    .sequence (.cons (.and (.command hcd) (.command hrm)) .nil)
  have hvisit : Visits ownCd "bash" ownCdAst :=
    ⟨by decide +kernel, by decide, by decide +kernel, parseProgram_of_same (by decide +kernel)⟩
  obtain ⟨cwd, hcwd, hmem, -⟩ := analyze_directories (.command (by decide)) hvisit hrun
    (by
      simp only [forall_mem_cons, not_mem_nil, false_imp_iff, implies_true, and_true]
      refine ⟨?_, ?_⟩
      · exact followsShell_of_unwrap (plainWord "cd" 0 2) [plainWord "/scratch" 3 11] (by decide)
          (.inr (by decide)) ⟨by decide, fun h => absurd h (by decide)⟩
      · exact followsShell_of_unwrap (plainWord "rm" 15 17) [plainWord "f" 18 19] (by decide)
          (.inl (by decide)) ⟨by decide, fun h => absurd h (by decide)⟩)
    _ (.tail _ (.head _))
  exact ⟨cwd, hcwd, hmem⟩

/-- `env` runs `cd` in a process of its own. -/
def wrappedCd : List Char := "env cd /scratch && rm f".toList

/-- The words of its first command. -/
def wrappedCdWords : List Word :=
  [plainWord "env" 0 3, plainWord "cd" 4 6, plainWord "/scratch" 7 15]

/-- The words of its second command. -/
def wrappedRmWords : List Word := [plainWord "rm" 19 21, plainWord "f" 22 23]

/-- Its parse. -/
def wrappedCdAst : Ast :=
  .sequence [.and (.command wrappedCdWords []) (.command wrappedRmWords [])]

/-- **A file is noted under a directory that its command does not run in.** -/
theorem analyze_wrappedCd :
    Visits wrappedCd "bash" wrappedCdAst ∧
    (∃ events ok d, Runs wrappedCdAst "/repo".toList events ok d ∧
      ⟨[0, 1], .command wrappedRmWords [], "/repo".toList⟩ ∈ events) ∧
    cwdAt blind "bash" wrappedCdAst repo [0, 1] = some ⟨some ["/scratch".toList]⟩ ∧
    analyze blind wrappedCd "bash" "/repo".toList =
      { fileOperations := [⟨"delete", "/scratch/f".toList, "/scratch".toList, ⟨22, 23⟩⟩] } := by
  have hcd : Moves wrappedCdWords "/repo".toList true "/repo".toList := by
    have haction : shellAction (wrappedCdWords.dropWhile (·.assignment)) = .stays := by decide
    rw [Moves, haction]
  have hrm : Moves wrappedRmWords "/repo".toList true "/repo".toList := by
    have haction : shellAction (wrappedRmWords.dropWhile (·.assignment)) = .stays := by decide
    rw [Moves, haction]
  refine ⟨⟨by decide +kernel, by decide, by decide +kernel,
    parseProgram_of_same (by decide +kernel)⟩, ?_, by decide +kernel, by decide +kernel⟩
  exact ⟨_, _, _, .sequence (.cons (.and (.command hcd) (.command hrm)) .nil),
    .tail _ (.head _)⟩

end Shell

end OpenBitFun
