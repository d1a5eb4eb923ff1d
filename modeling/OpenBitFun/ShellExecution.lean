import OpenBitFun.ShellAnalysis

/-!
# Where a shell is

What a shell does with its directory while it runs a program, for every choice of success and
failure of the simple commands. `Runs` relates a program and the directory it starts in to the
directories in which its commands start and its redirections are opened, and to the outcome.

Only the shell itself can move: a program it starts, also through `env`, `nohup` or `timeout`, has a
directory of its own. A subshell and the members of a pipeline are child shells.
-/

namespace OpenBitFun

namespace Shell

/-! ## Simple commands -/

/-- What a simple command does with the directory of the shell that runs it. -/
inductive ShellAction where
  /-- Nothing. -/
  | stays
  /-- It may leave it anywhere. -/
  | moves
  /-- It runs the shell's `cd`. -/
  | cd (args : List Word)
  deriving DecidableEq, Repr

/-- The shell's commands other than `cd` that move it. -/
def movingNames : List String := ["pushd", "popd", "source", "."]

/-- What the words of a simple command after its assignments do. -/
def shellAction : List Word → ShellAction
  | [] => .stays
  | w :: rest =>
    -- an expansion may name any command
    if w.dynamic then .moves
    else if w.value = "command".toList then
      if rest.head?.any (·.dynamic) then .moves
      else if rest.head?.any fun a => a.value = "-v".toList || a.value = "-V".toList then .stays
      else if rest.head?.any (·.value = "--".toList) then
        match rest with
        | [] => .stays
        | _ :: rest => shellAction rest
      else if rest.head?.any (Text.startsWith ·.value "-") then .moves
      else shellAction rest
    else if w.value = "cd".toList then .cd rest
    else if String.ofList w.value ∈ compoundNames ++ movingNames then .moves
    else .stays

/-- The directory of `cd` with one literal absolute operand without `..`. -/
def literalTarget : List Word → Option (List Char)
  | [arg] =>
    if arg.dynamic ∨ arg.value.head? ≠ some '/' ∨
        (arg.value.splitOn '/').any (· = "..".toList) then none
    else some arg.value
  | _ => none

/-- A simple command in a directory may end in another, with the given success. -/
def Moves (words : List Word) (directory : List Char) (ok : Bool) (after : List Char) : Prop :=
  match shellAction (words.dropWhile (·.assignment)) with
  | .stays => after = directory
  | .moves => True
  | .cd args =>
    if ok then ∀ target, literalTarget args = some target → after = target
    else after = directory

/-! ## Programs -/

/-- A command starts, or the redirections of a subshell are opened. -/
structure Event where
  /-- The way to the command in the program. -/
  path : List ℕ
  /-- The command. -/
  node : Ast
  /-- The directory. -/
  directory : List Char

/-- The event in a part of a program is one of the program. -/
def Event.under (e : Event) (i : ℕ) : Event := { e with path := i :: e.path }

/-- The event in the rest of a list is one of the list. -/
def Event.next (e : Event) : Event :=
  { e with path := match e.path with
      | [] => []
      | i :: path => (i + 1) :: path }

mutual

/-- `Runs a d events ok d'`: the program started in `d` may have these events, succeed or not, and
leave its shell in `d'`. -/
inductive Runs : Ast → List Char → List Event → Bool → List Char → Prop
  | command {words rs d ok d'} (h : Moves words d ok d') :
    Runs (.command words rs) d [⟨[], .command words rs, d⟩] ok d'
  | group {a rs d events ok d'} (h : Runs a d events ok d') :
    Runs (.group a rs) d (⟨[], .group a rs, d⟩ :: events.map (·.under 0)) ok d
  /-- A redirection fails. -/
  | refused {a rs d} : Runs (.group a rs) d [⟨[], .group a rs, d⟩] false d
  | sequence {list d events ok d'} (h : RunsSequence list d true events ok d') :
    Runs (.sequence list) d events ok d'
  | and {a b d events d' events' ok d''} (h : Runs a d events true d')
    (h' : Runs b d' events' ok d'') :
    Runs (.and a b) d (events.map (·.under 0) ++ events'.map (·.under 1)) ok d''
  | andFails {a b d events d'} (h : Runs a d events false d') :
    Runs (.and a b) d (events.map (·.under 0)) false d'
  | or {a b d events d' events' ok d''} (h : Runs a d events false d')
    (h' : Runs b d' events' ok d'') :
    Runs (.or a b) d (events.map (·.under 0) ++ events'.map (·.under 1)) ok d''
  | orSucceeds {a b d events d'} (h : Runs a d events true d') :
    Runs (.or a b) d (events.map (·.under 0)) true d'
  | pipe {list d events ok} (h : RunsMembers list d events) : Runs (.pipe list) d events ok d

/-- `RunsSequence list d ok events ok' d'`: the same for a list of programs, after the success
`ok`. -/
inductive RunsSequence : List Ast → List Char → Bool → List Event → Bool → List Char → Prop
  | nil {d ok} : RunsSequence [] d ok [] ok d
  | cons {a list d ok events ok' d' events' ok'' d''} (h : Runs a d events ok' d')
    (h' : RunsSequence list d' ok' events' ok'' d'') :
    RunsSequence (a :: list) d ok (events.map (·.under 0) ++ events'.map (·.next)) ok'' d''

/-- `RunsMembers list d events`: the members of a pipeline, each in a shell of its own. -/
inductive RunsMembers : List Ast → List Char → List Event → Prop
  | nil {d} : RunsMembers [] d []
  | cons {a list d events ok d' events'} (h : Runs a d events ok d')
    (h' : RunsMembers list d events') :
    RunsMembers (a :: list) d (events.map (·.under 0) ++ events'.map (·.next))

end

/-! ## Programs whose directory can be followed -/

/-- Behind `command` no word with an expansion looks like one of the options that are skipped. -/
def OptionsLiteral : List Word → Prop
  | w :: o :: rest =>
    (w.value = "command".toList → o.dynamic = true →
      o.value ∉ ["-v".toList, "-V".toList, "--".toList]) ∧
    (w.value = "command".toList ∨ w.value = "--".toList → OptionsLiteral (o :: rest))
  | _ => True

/-- A `cd` behind the wrappers of a simple command, with one literal absolute operand without `..`,
is run by the shell itself. -/
structure FollowsShell (words : List Word) : Prop where
  /-- The `cd` is the shell's. -/
  cd : ∀ w args, unwrap false (words.dropWhile (·.assignment)) = .program w args →
    basename w.value = "cd" → (literalTarget args).isSome →
    shellAction (words.dropWhile (·.assignment)) = .cd args
  /-- The options of `command` are literal. -/
  options : OptionsLiteral (words.dropWhile (·.assignment))

/-- The same for the command of an event. -/
def Event.FollowsShell (e : Event) : Prop :=
  match e.node with
  | .command words _ => Shell.FollowsShell words
  | _ => True

end Shell

end OpenBitFun
