import OpenBitFun.ShellExecution
import OpenBitFun.ShellRedirections

/-!
# The directories of the analyzer

The analyzer follows the directory of a shell by a set of directories (`Cwd`). If each `cd` that it
follows is run by the shell itself, the shell is in a directory of the set, at every command and
every redirection of every run and in the nested programs, and the files of a command are noted
under the directory it runs in.
-/

namespace OpenBitFun

open List

namespace Shell

variable {a b : Analysis} {cwd : Cwd} {d d' : List Char} {rx : Recognizers} {shell : String}
  {words : List Word} {rs : List Redirect} {ok : Bool}

/-! ## Sets of directories -/

/-- A directory is among the directories, or they are unknown. -/
def Cwd.Member (cwd : Cwd) (d : List Char) : Prop := ∀ paths, cwd.paths = some paths → d ∈ paths

theorem Cwd.member_none : (⟨none⟩ : Cwd).Member d := by
  intro paths h
  cases h

theorem Cwd.member_some {paths : List (List Char)} (h : d ∈ paths) :
    (⟨some paths⟩ : Cwd).Member d := by
  rintro paths' h'
  cases h'
  exact h

/-- The union of two lists of directories has both. -/
theorem mem_foldl_insert {ps r : List (List Char)} (h : d ∈ ps) :
    d ∈ ps.foldl (fun r p => if p ∈ r then r else r ++ [p]) r := by
  induction ps generalizing r with
  | nil => cases h
  | cons p ps ih =>
    rw [foldl_cons]
    obtain rfl | h := mem_cons.1 h
    · refine (subset_foldl_insert _ ps).subset ?_
      split
      · assumption
      · exact mem_append_right _ (mem_singleton_self d)
    · exact ih h

theorem Cwd.Member.union {x y : Cwd} (h : x.Member d ∨ y.Member d) : (x.union y).Member d := by
  obtain ⟨_ | paths⟩ := x
  · exact Cwd.member_none
  obtain ⟨_ | paths'⟩ := y
  · exact Cwd.member_none
  simp only [Cwd.union]
  split
  · exact Cwd.member_none
  · refine Cwd.member_some ?_
    obtain h | h := h
    · exact (subset_foldl_insert paths paths').subset (h paths rfl)
    · exact mem_foldl_insert (h paths' rfl)

/-- A directory word is resolved in each directory. -/
theorem Cwd.Member.change (h : cwd.Member d) (word : Word) :
    (cwd.change word).Member (joinPath d word.value) := by
  rw [Cwd.change]
  split
  · exact Cwd.member_none
  split
  · next habs => exact Cwd.member_some (by simp [joinPath, habs])
  · rintro paths hpaths
    obtain ⟨ps, hps, rfl⟩ := Option.map_eq_some_iff.1 hpaths
    exact mem_map_of_mem (h ps hps)

/-- The directories after a command with a given success. -/
def Flow.outcome (flow : Flow) (ok : Bool) : Cwd := if ok then flow.success else flow.failure

theorem Flow.outcome_same : (Flow.same cwd).outcome ok = cwd := by
  cases ok <;> rfl

theorem Flow.member_after {flow : Flow} (h : (flow.outcome ok).Member d) :
    flow.after.Member d := by
  cases ok with
  | false => exact Cwd.Member.union (.inr h)
  | true => exact Cwd.Member.union (.inl h)

/-! ## Simple commands -/

/-- A name without a path is its own base name. -/
theorem basename_ofList {value : List Char} (h : '/' ∉ value) :
    basename value = String.ofList value := by
  have hall : ∀ c ∈ value, decide (c ≠ '/') = true := by
    intro c hc
    simpa using fun heq : c = '/' => h (heq ▸ hc)
  rw [basename, rtakeWhile_eq_self_iff.2 hall]

/-- The wrapper `reason` and `span` of what cannot be looked through. -/
def Unwrapped.IsUnresolved (u : Unwrapped) : Prop := ∃ reason span, u = .unresolved reason span

theorem unwrap_dynamic {w : Word} (rest : List Word) (h : w.dynamic = true) :
    (unwrap false (w :: rest)).IsUnresolved := by
  refine ⟨"dynamic command name", w.span, ?_⟩
  rw [unwrap.eq_def]
  simp [h]

theorem unwrap_program {w : Word} (rest : List Word) (h : w.dynamic = false)
    (hname : basename w.value ∉ ["env", "command", "nohup", "exec", "timeout"]) :
    unwrap false (w :: rest) = .program w rest := by
  rw [unwrap.eq_def]
  simp only [mem_cons, not_mem_nil, or_false, not_or] at hname
  simp [h, hname]

theorem unwrap_command {w : Word} (o : Word) (rest : List Word) (h : w.dynamic = false)
    (hw : w.value = "command".toList) :
    unwrap false (w :: o :: rest) =
      if o.value = "-v".toList ∨ o.value = "-V".toList then .nothing
      else if o.value = "--".toList then
        if rest.head?.any (Text.startsWith ·.value "-") then
          .unresolved "unresolved execution wrapper options" w.span
        else unwrap false rest
      else if Text.startsWith o.value "-" then
        .unresolved "unresolved execution wrapper options" w.span
      else unwrap false (o :: rest) := by
  have hname : basename w.value = "command" := by
    rw [hw]
    decide
  rw [unwrap.eq_def]
  simp [h, hname]
  congr

/-- `unwrap` and the shell: they agree, or the shell stays where it is, or the analyzer takes the
directory to be unknown. -/
theorem shellAction_cases (ws : List Word) (h : OptionsLiteral ws) :
    shellAction ws = .stays ∨ (unwrap false ws).IsUnresolved ∨
      ∃ w args, unwrap false ws = .program w args ∧
        ((basename w.value = "cd" ∧ shellAction ws = .cd args) ∨
          basename w.value ∈ compoundNames ++ movingNames) := by
  fun_induction shellAction ws with
  | case1 => exact .inl rfl
  | case2 w rest hdyn => exact .inr (.inl (unwrap_dynamic rest hdyn))
  | case3 w rest hdyn hw ho =>
    -- the operand of `command` has an expansion
    obtain ⟨o, rest, rfl⟩ : ∃ o rest', rest = o :: rest' := by
      cases rest with
      | nil => cases ho
      | cons o rest => exact ⟨o, rest, rfl⟩
    have hnot := h.1 hw ho
    simp only [mem_cons, not_mem_nil, or_false, not_or] at hnot
    refine .inr (.inl ?_)
    have hv : ¬(o.value = "-v".toList ∨ o.value = "-V".toList) :=
      not_or.2 ⟨hnot.1, hnot.2.1⟩
    rw [unwrap_command o rest (by simpa using hdyn) hw, if_neg hv, if_neg hnot.2.2]
    split
    · exact ⟨_, _, rfl⟩
    · exact unwrap_dynamic rest ho
  | case4 => exact .inl rfl
  | case5 => exact .inl rfl
  | case6 w hdyn hw o rest ho hv hdash ih =>
    -- `command --`
    have hdash' : o.value = "--".toList := by simpa using hdash
    have hv : ¬(o.value = "-v".toList ∨ o.value = "-V".toList) := by simpa using hv
    rw [unwrap_command o rest (by simpa using hdyn) hw, if_neg hv, if_pos hdash']
    split
    · exact .inr (.inl ⟨_, _, rfl⟩)
    · refine ih ?_
      cases rest with
      | nil => trivial
      | cons o' rest => exact (h.2 (.inl hw)).2 (.inr hdash')
  | case7 w rest hdyn hw ho hv hdash hopt =>
    obtain ⟨o, rest, rfl⟩ : ∃ o rest', rest = o :: rest' := by
      cases rest with
      | nil => cases hopt
      | cons o rest => exact ⟨o, rest, rfl⟩
    have hdash : ¬o.value = "--".toList := by simpa using hdash
    have hv : ¬(o.value = "-v".toList ∨ o.value = "-V".toList) := by simpa using hv
    have hopt : Text.startsWith o.value "-" = true := hopt
    refine .inr (.inl ?_)
    rw [unwrap_command o rest (by simpa using hdyn) hw, if_neg hv, if_neg hdash, if_pos hopt]
    exact ⟨_, _, rfl⟩
  | case8 w rest hdyn hw ho hv hdash hopt ih =>
    cases rest with
    | nil => exact .inl (by simp [shellAction])
    | cons o rest =>
      have hdash : ¬o.value = "--".toList := by simpa using hdash
      have hv : ¬(o.value = "-v".toList ∨ o.value = "-V".toList) := by simpa using hv
      have hopt : ¬Text.startsWith o.value "-" = true := hopt
      rw [unwrap_command o rest (by simpa using hdyn) hw, if_neg hv, if_neg hdash, if_neg hopt]
      exact ih (h.2 (.inl hw))
  | case9 w rest hdyn hcommand hcd =>
    have hname : basename w.value = "cd" := by
      rw [hcd]
      decide
    refine .inr (.inr ⟨w, rest, unwrap_program rest (by simpa using hdyn) ?_, .inl ⟨hname, rfl⟩⟩)
    rw [hname]
    decide
  | case10 w rest hdyn hcommand hcd hmem =>
    have hname : basename w.value = String.ofList w.value := by
      refine basename_ofList ?_
      have hall : ∀ name ∈ compoundNames ++ movingNames, '/' ∉ name.toList := by decide
      simpa using hall _ hmem
    refine .inr (.inr ⟨w, rest, unwrap_program rest (by simpa using hdyn) ?_, .inr ?_⟩)
    · rw [hname]
      have hall : ∀ name ∈ compoundNames ++ movingNames,
          name ∉ ["env", "command", "nohup", "exec", "timeout"] := by decide
      exact hall _ hmem
    · rwa [hname]
  | case11 => exact .inl rfl

/-- The flow of `cd` is known to lead away only with a literal target. -/
theorem cdFlow_success (args : List Word) (cwd : Cwd) :
    (cdFlow args cwd).success = match literalTarget args with
      | some target => ⟨some [target]⟩
      | none => ⟨none⟩ := by
  match args with
  | [] => rfl
  | [arg] =>
    rw [cdFlow, literalTarget]
    by_cases habs : arg.value.head? ≠ some '/' ∨
        (arg.value.splitOn '/').any (· = "..".toList) = true
    · rw [if_pos habs, if_pos (.inr habs)]
    · rw [if_neg habs]
      by_cases hdyn : arg.dynamic = true
      · rw [if_pos (.inl hdyn)]
        simp [Cwd.change, hdyn]
      · have hhead : arg.value.head? = some '/' := by
          by_contra hne
          exact habs (.inl hne)
        rw [if_neg (not_or.2 ⟨hdyn, habs⟩)]
        simp [Cwd.change, hdyn, hhead]
  | _ :: _ :: _ => rfl

theorem cdFlow_failure (args : List Word) (cwd : Cwd) : (cdFlow args cwd).failure = cwd := by
  match args with
  | [] => rfl
  | [_] =>
    rw [cdFlow]
    split <;> rfl
  | _ :: _ :: _ => rfl

/-- A program that is no `cd` of the analyzer leaves the directory as it is, or unknown. -/
theorem program_flow (rx : Recognizers) {w : Word} (args : List Word) (rs : List Redirect)
    (cwd : Cwd) (hname : basename w.value ≠ "cd") :
    (program rx w args rs cwd).2 = Flow.same cwd ∨
      (program rx w args rs cwd).2 = Flow.same ⟨none⟩ := by
  rw [program]
  split_ifs
  · exact .inr rfl
  · exact .inr rfl
  · exact .inl rfl
  · exact .inl rfl

/-- The analyzer follows every program that moves the shell otherwise to nowhere. -/
theorem program_flow_moving {w : Word} (args : List Word)
    (hname : basename w.value ∈ compoundNames ++ movingNames) :
    (program rx w args rs cwd).2 = Flow.same ⟨none⟩ := by
  have hcd : basename w.value ≠ "cd" := by
    rintro heq
    rw [heq] at hname
    revert hname
    decide
  rw [program]
  obtain hname | hname := mem_append.1 hname
  · rw [if_pos hname]
  · split_ifs with hcompound
    · rfl
    · rfl
    · exact absurd hname ‹_›
    · exact absurd hname ‹_›

/-- `program` on the `cd` of the analyzer. -/
theorem program_cd {w : Word} (args : List Word) (hname : basename w.value = "cd") :
    (program rx w args rs cwd).2 = cdFlow args cwd := by
  have hcompound : "cd" ∉ compoundNames := by decide
  simp [program, hname, hcompound]

/-- **A simple command.** If the analyzer follows only the shell's own `cd`, the shell ends in a
directory of the flow. -/
theorem command_flow (hcwd : cwd.Member d) (hfollow : FollowsShell words)
    (hmoves : Moves words d ok d') :
    ((command rx words rs cwd shell).2.outcome ok).Member d' := by
  simp only [command]
  rw [Moves] at hmoves
  have hcases := shellAction_cases _ hfollow.options
  revert hcases hmoves
  have hcd := hfollow.cd
  revert hcd
  generalize words.dropWhile (·.assignment) = ws
  intro hcd hmoves hcases
  obtain hstays | ⟨reason, span, hunwrap⟩ | ⟨w, args, hunwrap, ⟨hname, haction⟩ | hname⟩ := hcases
  · rw [hstays] at hmoves
    obtain rfl : d' = d := hmoves
    cases hunwrap : unwrap false ws with
    | nothing => exact Flow.outcome_same ▸ hcwd
    | unresolved reason span => exact Flow.outcome_same ▸ Cwd.member_none
    | program w args =>
      rw [unwrapped]
      by_cases hname : basename w.value = "cd"
      · rw [program_cd args hname]
        cases ok with
        | false =>
          rw [Flow.outcome, if_neg (by decide), cdFlow_failure]
          exact hcwd
        | true =>
          -- a `cd` that the analyzer follows is the shell's
          have hnone : literalTarget args = none := by
            by_contra hsome
            have haction := hcd w args hunwrap hname (Option.isSome_iff_ne_none.2 hsome)
            rw [hstays] at haction
            cases haction
          rw [Flow.outcome, if_pos rfl, cdFlow_success, hnone]
          exact Cwd.member_none
      · obtain hflow | hflow := program_flow rx args rs cwd hname
        · rw [hflow, Flow.outcome_same]
          exact hcwd
        · rw [hflow, Flow.outcome_same]
          exact Cwd.member_none
  · rw [hunwrap, unwrapped, Flow.outcome_same]
    exact Cwd.member_none
  · rw [haction] at hmoves
    rw [hunwrap, unwrapped, program_cd args hname]
    cases ok with
    | false =>
      obtain rfl : d' = d := hmoves
      rw [Flow.outcome, if_neg (by decide), cdFlow_failure]
      exact hcwd
    | true =>
      rw [Flow.outcome, if_pos rfl, cdFlow_success]
      cases htarget : literalTarget args with
      | none => exact Cwd.member_none
      | some target =>
        obtain rfl : d' = target := hmoves target htarget
        exact Cwd.member_some (mem_singleton_self d')
  · rw [hunwrap, unwrapped, program_flow_moving args hname, Flow.outcome_same]
    exact Cwd.member_none

/-! ## The directories that `visit` passes on -/

/-- The calls for the redirections of a command. -/
def Ast.opened (shell : String) : Ast → Cwd → List Effect
  | .command _ rs, cwd => redirectsEffects rs cwd shell
  | .group _ rs, cwd => redirectsEffects rs cwd shell
  | _, _ => []

/-- The calls for the program of a simple command. -/
def Ast.started (rx : Recognizers) : Ast → Cwd → List Effect
  | .command words rs, cwd =>
    (unwrapped rx rs cwd (unwrap false (words.dropWhile (·.assignment)))).1
  | _, _ => []

mutual

/-- The directories that `visit` passes to the part of a program at the end of a way. -/
def cwdAt (rx : Recognizers) (shell : String) : Ast → Cwd → List ℕ → Option Cwd
  | _, cwd, [] => some cwd
  | .group a _, cwd, 0 :: path => cwdAt rx shell a cwd path
  | .sequence list, cwd, i :: path => cwdInSequence rx shell list (Flow.same cwd) i path
  | .and a _, cwd, 0 :: path => cwdAt rx shell a cwd path
  | .and a b, cwd, 1 :: path => cwdAt rx shell b (visit rx shell a cwd).2.success path
  | .or a _, cwd, 0 :: path => cwdAt rx shell a cwd path
  | .or a b, cwd, 1 :: path => cwdAt rx shell b (visit rx shell a cwd).2.failure path
  | .pipe list, cwd, i :: path => cwdInMembers rx shell list cwd i path
  | _, _, _ => none

/-- The same for the loop over a sequence. -/
def cwdInSequence (rx : Recognizers) (shell : String) :
    List Ast → Flow → ℕ → List ℕ → Option Cwd
  | [], _, _, _ => none
  | a :: _, flow, 0, path => cwdAt rx shell a flow.after path
  | a :: list, flow, i + 1, path =>
    cwdInSequence rx shell list (visit rx shell a flow.after).2 i path

/-- The same for the loop over a pipeline. -/
def cwdInMembers (rx : Recognizers) (shell : String) : List Ast → Cwd → ℕ → List ℕ → Option Cwd
  | [], _, _, _ => none
  | a :: _, cwd, 0, path => cwdAt rx shell a cwd path
  | _ :: list, cwd, i + 1, path => cwdInMembers rx shell list cwd i path

end

/-- The shell is in a directory that `visit` passes to the command of an event, and `visit` makes
the calls of the command. -/
def Event.Tracked (e : Event) (rx : Recognizers) (shell : String) (cwds : List ℕ → Option Cwd)
    (effects : List Effect) : Prop :=
  ∃ cwd, cwds e.path = some cwd ∧ cwd.Member e.directory ∧
    e.node.opened shell cwd ⊆ effects ∧ e.node.started rx cwd ⊆ effects

/-- The same for a list, along the first step of the way. -/
def Event.TrackedIn (e : Event) (rx : Recognizers) (shell : String)
    (cwds : ℕ → List ℕ → Option Cwd) (effects : List Effect) : Prop :=
  ∃ i path, e.path = i :: path ∧
    Event.Tracked { e with path := path } rx shell (cwds i) effects

variable {e : Event} {cwds cwds' : List ℕ → Option Cwd} {effects effects' : List Effect}

theorem Event.Tracked.under (h : e.Tracked rx shell cwds effects) (i : ℕ)
    (hcwds : ∀ path, cwds' (i :: path) = cwds path) (hsub : effects ⊆ effects') :
    (e.under i).Tracked rx shell cwds' effects' := by
  obtain ⟨cwd, hcwd, hmem, hopened, hstarted⟩ := h
  refine ⟨cwd, ?_, hmem, List.Subset.trans hopened hsub, List.Subset.trans hstarted hsub⟩
  exact (hcwds e.path).trans hcwd

@[simp] theorem Event.followsShell_under (e : Event) (i : ℕ) :
    (e.under i).FollowsShell ↔ e.FollowsShell := Iff.rfl

@[simp] theorem Event.followsShell_next (e : Event) : e.next.FollowsShell ↔ e.FollowsShell :=
  Iff.rfl

/-- All events of a part are tracked in the program. -/
theorem Event.Tracked.map_under {events : List Event}
    (h : ∀ e ∈ events, e.Tracked rx shell cwds effects) (i : ℕ)
    (hcwds : ∀ path, cwds' (i :: path) = cwds path) (hsub : effects ⊆ effects') :
    ∀ e ∈ events.map (·.under i), e.Tracked rx shell cwds' effects' := by
  intro e' he'
  obtain ⟨e, he, rfl⟩ := mem_map.1 he'
  exact (h e he).under i hcwds hsub

/-- All events of the first part and of the rest are tracked in the list. -/
theorem Event.TrackedIn.cons {cwdsIn cwdsIn' : ℕ → List ℕ → Option Cwd}
    {events events' : List Event} {all : List Effect}
    (h : ∀ e ∈ events, e.Tracked rx shell cwds effects)
    (h' : ∀ e ∈ events', e.TrackedIn rx shell cwdsIn effects')
    (hfirst : cwdsIn' 0 = cwds) (hcwds : ∀ i, cwdsIn' (i + 1) = cwdsIn i)
    (hsub : effects ⊆ all) (hsub' : effects' ⊆ all) :
    ∀ e ∈ events.map (·.under 0) ++ events'.map (·.next), e.TrackedIn rx shell cwdsIn' all := by
  intro e' he'
  obtain he' | he' := mem_append.1 he'
  · obtain ⟨e, he, rfl⟩ := mem_map.1 he'
    obtain ⟨cwd, hcwd, hmem, hopened, hstarted⟩ := h e he
    exact ⟨0, e.path, rfl, cwd, hfirst ▸ hcwd, hmem, List.Subset.trans hopened hsub,
      List.Subset.trans hstarted hsub⟩
  · obtain ⟨e, he, rfl⟩ := mem_map.1 he'
    obtain ⟨i, path, hpath, cwd, hcwd, hmem, hopened, hstarted⟩ := h' e he
    refine ⟨i + 1, path, by simp [Event.next, hpath], cwd, ?_, hmem,
      List.Subset.trans hopened hsub', List.Subset.trans hstarted hsub'⟩
    rw [hcwds]
    exact hcwd

/-- The events of a list are tracked in the program made of it. -/
theorem Event.TrackedIn.tracked {cwdsIn : ℕ → List ℕ → Option Cwd} {events : List Event}
    (h : ∀ e ∈ events, e.TrackedIn rx shell cwdsIn effects)
    (hcwds : ∀ i path, cwds (i :: path) = cwdsIn i path) :
    ∀ e ∈ events, e.Tracked rx shell cwds effects := by
  intro e he
  obtain ⟨i, path, hpath, cwd, hcwd, hrest⟩ := h e he
  refine ⟨cwd, ?_, hrest⟩
  rw [hpath, hcwds]
  exact hcwd

/-- What holds of the events of two parts holds of their events. -/
theorem followsShell_append {events events' : List Event} {f g : Event → Event}
    (hf : ∀ e, (f e).FollowsShell ↔ e.FollowsShell) (hg : ∀ e, (g e).FollowsShell ↔ e.FollowsShell)
    (h : ∀ e ∈ events.map f ++ events'.map g, e.FollowsShell) :
    (∀ e ∈ events, e.FollowsShell) ∧ ∀ e ∈ events', e.FollowsShell :=
  ⟨fun e he => (hf e).1 (h _ (mem_append_left _ (mem_map_of_mem he))),
    fun e he => (hg e).1 (h _ (mem_append_right _ (mem_map_of_mem he)))⟩

theorem followsShell_under {events : List Event} {i : ℕ}
    (h : ∀ e ∈ events.map (·.under i), e.FollowsShell) : ∀ e ∈ events, e.FollowsShell :=
  fun e he => h (e.under i) (mem_map_of_mem he)

mutual

/-- **The directories are sound.** In a run from a directory of the set, every command is tracked
and the shell ends in a directory of the flow. -/
theorem Runs.sound (rx : Recognizers) (shell : String) (a : Ast) {cwd : Cwd}
    {d d' : List Char} {events : List Event} {ok : Bool}
    (h : Runs a d events ok d') (hcwd : cwd.Member d) (hfollow : ∀ e ∈ events, e.FollowsShell) :
    ((visit rx shell a cwd).2.outcome ok).Member d' ∧
      ∀ e ∈ events, e.Tracked rx shell (cwdAt rx shell a cwd) (visit rx shell a cwd).1 := by
  cases a with
  | command words rs =>
    obtain ⟨hmoves⟩ := h
    refine ⟨command_flow hcwd (hfollow _ (mem_singleton_self _)) hmoves, ?_⟩
    simp only [forall_mem_singleton]
    refine ⟨cwd, by simp [cwdAt], hcwd, fun e he => ?_, fun e he => ?_⟩
    · simp only [visit, command, mem_append]
      exact .inl (.inl he)
    · simp only [visit, command, mem_append]
      exact .inr he
  | group a rs =>
    have hself : Event.Tracked ⟨[], .group a rs, d⟩ rx shell (cwdAt rx shell (.group a rs) cwd)
        (visit rx shell (.group a rs) cwd).1 := by
      refine ⟨cwd, by simp [cwdAt], hcwd, fun e he => ?_, by simp [Ast.started]⟩
      simp only [visit, mem_append]
      exact .inl he
    cases h with
    | group h =>
      rw [forall_mem_cons] at hfollow
      obtain ⟨-, ha⟩ := Runs.sound rx shell a h hcwd (followsShell_under hfollow.2)
      refine ⟨?_, forall_mem_cons.2 ⟨hself, ?_⟩⟩
      · rw [visit, Flow.outcome_same]
        exact hcwd
      · refine Event.Tracked.map_under ha 0 (fun path => by simp [cwdAt]) fun e he => ?_
        simp only [visit, mem_append]
        exact .inr he
    | refused =>
      refine ⟨?_, by simpa using hself⟩
      rw [visit, Flow.outcome_same]
      exact hcwd
  | sequence list =>
    obtain ⟨⟩ | ⟨⟩ | ⟨⟩ | ⟨h⟩ := h
    have hsame : ((Flow.same cwd).outcome true).Member d := Flow.outcome_same ▸ hcwd
    obtain ⟨hflow, hlist⟩ := RunsSequence.sound rx shell list h hsame hfollow
    rw [visit]
    exact ⟨hflow, Event.TrackedIn.tracked hlist fun i path => by simp [cwdAt]⟩
  | and a b =>
    cases h with
    | and h h' =>
      obtain ⟨hf, hf'⟩ := followsShell_append (Event.followsShell_under · 0)
        (Event.followsShell_under · 1) hfollow
      obtain ⟨hflow, ha⟩ := Runs.sound rx shell a h hcwd hf
      obtain ⟨hflow', hb⟩ := Runs.sound rx shell b h' hflow hf'
      refine ⟨?_, forall_mem_append.2 ⟨?_, ?_⟩⟩
      · rw [visit]
        cases ok with
        | false => exact Cwd.Member.union (.inr hflow')
        | true => exact hflow'
      · refine Event.Tracked.map_under ha 0 (fun path => by simp [cwdAt]) fun e he => ?_
        simp [visit, he]
      · refine Event.Tracked.map_under hb 1 (fun path => by simp [cwdAt, Flow.outcome])
          fun e he => ?_
        simp only [visit, mem_append]
        exact .inr he
    | andFails h =>
      obtain ⟨hflow, ha⟩ := Runs.sound rx shell a h hcwd (followsShell_under hfollow)
      refine ⟨?_, Event.Tracked.map_under ha 0 (fun path => by simp [cwdAt]) fun e he => ?_⟩
      · rw [visit]
        exact Cwd.Member.union (.inl hflow)
      · simp [visit, he]
  | or a b =>
    cases h with
    | or h h' =>
      obtain ⟨hf, hf'⟩ := followsShell_append (Event.followsShell_under · 0)
        (Event.followsShell_under · 1) hfollow
      obtain ⟨hflow, ha⟩ := Runs.sound rx shell a h hcwd hf
      obtain ⟨hflow', hb⟩ := Runs.sound rx shell b h' hflow hf'
      refine ⟨?_, forall_mem_append.2 ⟨?_, ?_⟩⟩
      · rw [visit]
        cases ok with
        | false => exact hflow'
        | true => exact Cwd.Member.union (.inr hflow')
      · refine Event.Tracked.map_under ha 0 (fun path => by simp [cwdAt]) fun e he => ?_
        simp [visit, he]
      · refine Event.Tracked.map_under hb 1 (fun path => by simp [cwdAt, Flow.outcome])
          fun e he => ?_
        simp only [visit, mem_append]
        exact .inr he
    | orSucceeds h =>
      obtain ⟨hflow, ha⟩ := Runs.sound rx shell a h hcwd (followsShell_under hfollow)
      refine ⟨?_, Event.Tracked.map_under ha 0 (fun path => by simp [cwdAt]) fun e he => ?_⟩
      · rw [visit]
        exact Cwd.Member.union (.inl hflow)
      · simp [visit, he]
  | pipe list =>
    cases h with
    | pipe h =>
      refine ⟨?_, ?_⟩
      · rw [visit, Flow.outcome_same]
        exact hcwd
      · rw [visit]
        exact Event.TrackedIn.tracked (RunsMembers.sound rx shell list h hcwd hfollow)
          fun i path => by simp [cwdAt]

theorem RunsSequence.sound (rx : Recognizers) (shell : String) (list : List Ast) {flow : Flow}
    {d d' : List Char} {events : List Event} {ok ok' : Bool} (h : RunsSequence list d ok events ok' d')
    (hflow : (flow.outcome ok).Member d) (hfollow : ∀ e ∈ events, e.FollowsShell) :
    ((visitSequence rx shell list flow).2.outcome ok').Member d' ∧
      ∀ e ∈ events, e.TrackedIn rx shell (cwdInSequence rx shell list flow)
        (visitSequence rx shell list flow).1 := by
  cases list with
  | nil =>
    cases h
    exact ⟨hflow, by simp⟩
  | cons a list =>
    cases h with
    | cons h h' =>
      obtain ⟨hf, hf'⟩ := followsShell_append (Event.followsShell_under · 0)
        Event.followsShell_next hfollow
      obtain ⟨hflow', ha⟩ := Runs.sound rx shell a h (Flow.member_after hflow) hf
      obtain ⟨hflow'', hlist⟩ := RunsSequence.sound rx shell list h' hflow' hf'
      refine ⟨hflow'', Event.TrackedIn.cons ha hlist rfl (fun _ => rfl) ?_ ?_⟩
      · intro e he
        simp [visitSequence, he]
      · intro e he
        simp only [visitSequence, mem_append]
        exact .inr he

/-- The same for the members of a pipeline. -/
theorem RunsMembers.sound (rx : Recognizers) (shell : String) (list : List Ast) {cwd : Cwd}
    {d : List Char} {events : List Event}
    (h : RunsMembers list d events) (hcwd : cwd.Member d)
    (hfollow : ∀ e ∈ events, e.FollowsShell) :
    ∀ e ∈ events, e.TrackedIn rx shell (cwdInMembers rx shell list cwd)
      (visitMembers rx shell list cwd) := by
  cases list with
  | nil =>
    cases h
    simp
  | cons a list =>
    cases h with
    | cons h h' =>
      obtain ⟨hf, hf'⟩ := followsShell_append (Event.followsShell_under · 0)
        Event.followsShell_next hfollow
      obtain ⟨-, ha⟩ := Runs.sound rx shell a h hcwd hf
      have hlist := RunsMembers.sound rx shell list h' hcwd hf'
      refine Event.TrackedIn.cons ha hlist rfl (fun _ => rfl) ?_ ?_
      · intro e he
        simp [visitMembers, he]
      · intro e he
        simp [visitMembers, he]

end

end Shell

end OpenBitFun
