import OpenBitFun.ShellParser

/-!
# The shell analyzer

`analyze` says which files and descriptors a command text operates on, as far as its syntax tells,
and records what it cannot tell. Directories are followed through `cd` by `Flow`: the directories a
command may leave behind when it succeeds and when it fails.

A function of the analyzer that writes to `result: &mut Analysis` never reads it back. It is
modelled by the list of the calls it makes on `result`, in their order (`Effect`), and
`Analysis.perform` performs them.
-/

namespace OpenBitFun

namespace Shell

/-- `MAX_FACTS`. -/
def MAX_FACTS : ℕ := 4096

/-- How many unresolved effects an analysis lists. -/
def MAX_EFFECTS : ℕ := 64

/-! ## Directories -/

/-- `join`. -/
def joinPath (cwd path : List Char) : List Char :=
  if path.head? = some '/' then path else cwd.rdropWhile (· = '/') ++ '/' :: path

/-- `Cwd`: the directories the shell may be in; `none` when they are unknown. -/
structure Cwd where
  /-- The directories. -/
  paths : Option (List (List Char))
  deriving DecidableEq, Repr

/-- `Cwd::label`. -/
def Cwd.label (cwd : Cwd) : List Char :=
  match cwd.paths with
  | some [path] => path
  | _ => "<uncertain>".toList

/-- `Cwd::union`. -/
def Cwd.union (cwd other : Cwd) : Cwd :=
  match cwd.paths, other.paths with
  | some a, some b =>
    let r := b.foldl (fun r p => if p ∈ r then r else r ++ [p]) a
    if r.length > 8 then ⟨none⟩ else ⟨some r⟩
  | _, _ => ⟨none⟩

/-- `Cwd::change`. -/
def Cwd.change (cwd : Cwd) (word : Word) : Cwd :=
  if word.dynamic then ⟨none⟩
  else if word.value.head? = some '/' then ⟨some [word.value]⟩
  else ⟨cwd.paths.map fun v => v.map fun p => joinPath p word.value⟩

/-- `Flow`: the directories after a command. -/
structure Flow where
  /-- After its success. -/
  success : Cwd
  /-- After its failure. -/
  failure : Cwd
  deriving DecidableEq, Repr

/-- `Flow::same`. -/
def Flow.same (cwd : Cwd) : Flow := ⟨cwd, cwd⟩

/-- `Flow::after`. -/
def Flow.after (flow : Flow) : Cwd := flow.success.union flow.failure

/-! ## The analysis -/

/-- `FileOperation`. -/
structure FileOperation where
  /-- What is done to the file. -/
  operation : String
  /-- The file. -/
  path : List Char
  /-- The directory it is relative to. -/
  cwd : List Char
  /-- Where the command names it. -/
  sourceSpan : Span
  deriving DecidableEq, Repr

/-- `DescriptorOperation`. -/
structure DescriptorOperation where
  /-- What is done to the descriptor. -/
  operation : String
  /-- The descriptor. -/
  fd : List Char
  /-- The other descriptor. -/
  targetFd : Option (List Char)
  /-- Where the command says so. -/
  sourceSpan : Span
  deriving DecidableEq, Repr

/-- `Analysis`. The last three fields are not in the source: they remember what reached a limit. -/
structure Analysis where
  /-- The verdict. -/
  parseStatus : AnalysisStatus := .supported
  /-- The file operations. -/
  fileOperations : List FileOperation := []
  /-- The descriptor operations. -/
  descriptorOperations : List DescriptorOperation := []
  /-- What could not be told. -/
  unresolvedEffects : List Issue := []
  /-- A fact or a part of the program was left out at a limit, here or in a nested program. -/
  dropped : Bool := false
  /-- A limit was reported to this analysis when its list of effects was full. -/
  muted : Bool := false
  /-- The same happened to the analysis of a nested program. -/
  swallowed : Bool := false
  deriving DecidableEq, Repr

/-- `Analysis::add_issue`. -/
def Analysis.addIssue (a : Analysis) (issue : Issue) : Analysis :=
  { a with
    unresolvedEffects :=
      if a.unresolvedEffects.length < MAX_EFFECTS then a.unresolvedEffects ++ [issue]
      else a.unresolvedEffects
    parseStatus :=
      if issue.status = .resourceLimit ∨ a.parseStatus = .supported then issue.status
      else a.parseStatus
    muted := a.muted ||
      (issue.status = .resourceLimit && MAX_EFFECTS ≤ a.unresolvedEffects.length) }

/-- `Analysis::add_issue` where the issue arises: a limit leaves something out. -/
def Analysis.report (a : Analysis) (issue : Issue) : Analysis :=
  { a.addIssue issue with dropped := a.dropped || issue.status = .resourceLimit }

/-- A limit is reached. -/
def Analysis.limit (a : Analysis) (reason : String) (span : Span) : Analysis :=
  a.report ⟨.resourceLimit, reason, span⟩

/-- `Analysis::issue`. -/
def Analysis.issue (a : Analysis) (reason : String) (span : Span) : Analysis :=
  a.report ⟨.supported, reason, span⟩

/-- One more file operation. -/
def Analysis.pushFile (a : Analysis) (op : FileOperation) : Analysis :=
  { a with fileOperations := a.fileOperations ++ [op] }

/-- The loop of `Analysis::file` over the directories. -/
def Analysis.fileIn (a : Analysis) (word : Word) (operation : String) :
    List (List Char) → Analysis
  | [] => a
  | path :: paths =>
    if a.fileOperations.length ≥ MAX_FACTS then a.limit "file operation limit" word.span
    else (a.pushFile ⟨operation, joinPath path word.value, path, word.span⟩).fileIn word operation
      paths

/-- `Analysis::file`. -/
def Analysis.file (a : Analysis) (word : Word) (operation : String) (cwd : Cwd) : Analysis :=
  if word.dynamic then a.issue "dynamic file target" word.span
  else if word.value.isEmpty then a.issue "empty file target" word.span
  else if a.fileOperations.length ≥ MAX_FACTS then a.limit "file operation limit" word.span
  else if word.value.head? = some '/' then
    a.pushFile ⟨operation, word.value, cwd.label, word.span⟩
  else match cwd.paths with
    | some paths => a.fileIn word operation paths
    | none => a.issue "relative target after uncertain directory change" word.span

/-- A descriptor operation of `redirects`. -/
def Analysis.descriptor (a : Analysis) (op : DescriptorOperation) : Analysis :=
  if a.descriptorOperations.length ≥ MAX_FACTS then
    a.limit "descriptor operation limit" op.sourceSpan
  else { a with descriptorOperations := a.descriptorOperations ++ [op] }

/-- The loop of `interpreter` over the file operations of a nested program. -/
def Analysis.mergeFiles (a : Analysis) (span : Span) : List FileOperation → Analysis
  | [] => a
  | op :: ops =>
    if a.fileOperations.length < MAX_FACTS then (a.pushFile op).mergeFiles span ops
    else a.limit "nested file operation limit" span

/-- The end of `interpreter`: the facts about a nested program, at the span of its text. -/
def Analysis.merge (a nested : Analysis) (input span : Span) : Analysis :=
  let a := { a with
    dropped := a.dropped || nested.dropped
    swallowed := a.swallowed || nested.swallowed || nested.muted }
  let a := a.mergeFiles span (nested.fileOperations.map fun op => { op with sourceSpan := input })
  let a := if a.descriptorOperations.length + nested.descriptorOperations.length > MAX_FACTS then
      a.limit "nested descriptor operation limit" span
    else a
  let descriptors := nested.descriptorOperations.map fun op => { op with sourceSpan := input }
  let room := MAX_FACTS - a.descriptorOperations.length
  let a := { a with descriptorOperations := a.descriptorOperations ++ descriptors.take room }
  (nested.unresolvedEffects.map fun e => { e with span := input }).foldl Analysis.addIssue a

/-! ## Effects -/

/-- A call on the analysis. -/
inductive Effect where
  | issue (issue : Issue)
  | file (word : Word) (operation : String) (cwd : Cwd)
  | descriptor (op : DescriptorOperation)
  | nested (input : Word) (shell : String) (cwd : Cwd) (span : Span)
  deriving DecidableEq, Repr

/-- `result.issue`. -/
def say (reason : String) (span : Span) : Effect := .issue ⟨.supported, reason, span⟩

/-- Performs a call; `analyzeNested` analyzes a nested program from nothing. -/
def Analysis.perform (analyzeNested : List Char → String → Cwd → Analysis) (a : Analysis) :
    Effect → Analysis
  | .issue issue => a.report issue
  | .file word operation cwd => a.file word operation cwd
  | .descriptor op => a.descriptor op
  | .nested input shell cwd span =>
    a.merge (analyzeNested input.value shell cwd) input.span span

/-! ## Redirections -/

/-- The operand of `>&` or `<&` names a descriptor: `-`, a number, or a number and `-`. -/
def isDescriptor (v : List Char) : Bool :=
  let number := v.rdropWhile (· = '-')
  v = ['-'] || (!number.isEmpty && number.all Char.isDigit && (v = number || v = number ++ ['-']))

/-- The arm of `redirects` for `>&` and `<&`. -/
def descriptorRedirect (r : Redirect) (cwd : Cwd) (shell : String) : Effect :=
  if r.word.dynamic then say "dynamic descriptor or file target" r.span
  else
    let v := r.word.value
    let number := v.rdropWhile (· = '-')
    if isDescriptor v then
      .descriptor
        { operation :=
            if v = ['-'] then "close" else if v.getLast? = some '-' then "move" else "copy"
          fd := r.fd.getD (if r.op = ">&" then ['1'] else ['0'])
          targetFd := if v = ['-'] then none else some number
          sourceSpan := r.span }
    else if r.fd = none ∧ r.op = ">&" ∧ shell ≠ "sh" then .file r.word "write" cwd
    else .issue ⟨.invalid, "non-numeric descriptor operand", r.span⟩

/-- The `match` of `redirects`. -/
def redirectOperation (r : Redirect) (cwd : Cwd) (shell : String) : List Effect :=
  match r.op with
  | ">" | ">|" | "&>" => [.file r.word "write" cwd]
  | ">>" | "&>>" => [.file r.word "append" cwd]
  | "<>" => [.file r.word "read_write_open" cwd]
  | ">&" | "<&" => [descriptorRedirect r cwd shell]
  | "<" | "<<" | "<<-" | "<<<" => []
  | _ => [.issue ⟨.unsupported, "unsupported redirect", r.span⟩]

/-- One redirection in `redirects`. -/
def redirectEffects (r : Redirect) (cwd : Cwd) (shell : String) : List Effect :=
  (if r.word.executes ∨ r.body.any (·.executes) then
    [say "executable expansion in redirection input" r.span] else []) ++
  if shell = "sh" ∧ (r.op = "&>" ∨ r.op = "&>>" ∨ r.op = "<<<") then
    [.issue ⟨.unsupported, "redirection outside supported sh subset", r.span⟩]
  else redirectOperation r cwd shell

/-- `redirects`. -/
def redirectsEffects (rs : List Redirect) (cwd : Cwd) (shell : String) : List Effect :=
  rs.flatMap fun r => redirectEffects r cwd shell

/-! ## Interpreters -/

/-- `ShellMutationOperation`. -/
inductive MutationOperation where
  | write
  | delete
  deriving DecidableEq, Repr

/-- The operation as it is recorded. -/
def MutationOperation.render : MutationOperation → String
  | .write => "write"
  | .delete => "delete"

/-- `ShellMutationTarget`. -/
structure MutationTarget where
  /-- The file. -/
  path : List Char
  /-- What is done to it. -/
  operation : MutationOperation
  deriving DecidableEq, Repr

/-- The same operation on some files. -/
def targetsOf (operation : MutationOperation) (paths : List (List Char)) : List MutationTarget :=
  paths.map fun path => ⟨path, operation⟩

/-- Files that are moved. -/
def movesOf (paths : List (List Char × List Char)) : List MutationTarget :=
  paths.flatMap fun (source, target) => [⟨source, .delete⟩, ⟨target, .write⟩]

/-- The regular expressions of the program recognizers, each as the captures it finds in a text. -/
structure Recognizers where
  /-- `open("..", "w..")` in Python. -/
  openForWrite : List Char → List (List Char)
  /-- `Path("..").write_text(` in Python. -/
  pathWrite : List Char → List (List Char)
  /-- `Path("..").unlink(` in Python. -/
  pathDelete : List Char → List (List Char)
  /-- `Path("..").rename("..")` in Python. -/
  pathMove : List Char → List (List Char × List Char)
  /-- `writeFileSync("..")` in Node. -/
  singlePathWrite : List Char → List (List Char)
  /-- `unlinkSync("..")` in Node. -/
  singlePathDelete : List Char → List (List Char)
  /-- `copyFileSync("..", "..")` in Node. -/
  twoPathCopy : List Char → List (List Char × List Char)
  /-- `renameSync("..", "..")` in Node. -/
  twoPathMove : List Char → List (List Char × List Char)

/-- `push_bash_target`. -/
def pushTarget (targets : List MutationTarget) (target : MutationTarget) : List MutationTarget :=
  let path := Text.trimMatches target.path fun c => c = '\'' || c = '"' || c = ','
  if path.isEmpty || targets.any (· = ⟨path, target.operation⟩) then targets
  else targets ++ [⟨path, target.operation⟩]

/-- `push_python_mutation_targets` on nothing. -/
def Recognizers.python (rx : Recognizers) (segment : List Char) : List MutationTarget :=
  (targetsOf .write (rx.openForWrite segment) ++ targetsOf .write (rx.pathWrite segment) ++
    targetsOf .delete (rx.pathDelete segment) ++ movesOf (rx.pathMove segment)).foldl pushTarget []

/-- `push_node_mutation_targets` on nothing. -/
def Recognizers.node (rx : Recognizers) (segment : List Char) : List MutationTarget :=
  (targetsOf .write (rx.singlePathWrite segment) ++
    targetsOf .delete (rx.singlePathDelete segment) ++
    targetsOf .write ((rx.twoPathCopy segment).map (·.2)) ++
    movesOf (rx.twoPathMove segment)).foldl pushTarget []

/-- A text contains one of some strings. -/
def containsAny (text : List Char) (patterns : List String) : Bool :=
  patterns.any fun p => Text.contains text p.toList

/-- `python_segment_may_mutate`. -/
def pythonMayMutate (segment : List Char) : Bool :=
  containsAny segment ["write_text", "write_bytes", ".unlink(", ".rename(", ".replace("] ||
    (Text.contains segment "open(".toList &&
      containsAny segment ["'w'", "\"w\"", "'a'", "\"a\"", "'x'", "\"x\""])

/-- `node_segment_may_mutate`. -/
def nodeMayMutate (segment : List Char) : Bool :=
  containsAny segment ["writefile", "appendfile", "unlink", "rmsync", "rename", "copyfile"]

/-- Where an interpreter takes its program from. -/
inductive ProgramSource where
  /-- A file, which is not available. -/
  | external
  /-- The word after the flag for code. -/
  | code (input : Word)
  /-- Nothing on the command line: standard input. -/
  | input
  deriving DecidableEq, Repr

/-- The option that an interpreter's program follows. -/
def isCodeFlag (name : String) (shell : Bool) (a : Word) : Bool :=
  if shell then
    Text.startsWith a.value "-" && !Text.startsWith a.value "--" && a.value.contains 'c'
  else if name = "node" then
    a.value ∈ ["-e".toList, "--eval".toList, "-p".toList, "--print".toList]
  else a.value = "-c".toList

/-- The loop of `interpreter` over its arguments. -/
def programSource (name : String) (shell : Bool) : List Word → List Effect × ProgramSource
  | [] => ([], .input)
  | a :: args =>
    if isCodeFlag name shell a then
      match args with
      | input :: _ => ([], .code input)
      | [] => ([say "missing interpreter program" a.span], .input)
    else if a.value = "--".toList then ([], if args.isEmpty then .input else .external)
    else if !Text.startsWith a.value "-" then ([], .external)
    else
      let (effects, source) := programSource name shell args
      if a.value ∈ ["-".toList, "-s".toList, "-l".toList, "-u".toList, "-B".toList, "-I".toList,
          "-S".toList, "--noprofile".toList, "--norc".toList] then (effects, source)
      else (say "unresolved interpreter options" a.span :: effects, source)

/-- The redirections that give an interpreter its standard input: the last one counts. -/
def standardInput (rs : List Redirect) : Option Word :=
  rs.foldl (fun input r =>
    if r.fd.isNone || r.fd = some ['0'] then
      match r.op with
      | "<<" | "<<-" => r.body
      | "<<<" => some r.word
      | "<" | "<&" => none
      | _ => input
    else input) none

/-- The rest of `interpreter`, about a literal program that is no shell program. -/
def foreignProgram (rx : Recognizers) (name : String) (input : Word) (cwd : Cwd) : List Effect :=
  let targets := if name = "node" then rx.node input.value else rx.python input.value
  let lower := Text.toAsciiLowercase input.value
  targets.map (fun target =>
    .file ⟨target.path, false, false, true, false, input.span⟩ target.operation.render cwd) ++
  if (name = "node" && nodeMayMutate lower) || (name ≠ "node" && pythonMayMutate lower) ||
      containsAny lower ["exec(", "eval(", "system(", "subprocess", "child_process", "shutil.",
        "os.remove", "os.chdir"] then
    [say "interpreter effects cannot be fully resolved" input.span]
  else []

/-- `interpreter`. -/
def interpreter (rx : Recognizers) (name : String) (args : List Word) (rs : List Redirect)
    (cwd : Cwd) (span : Span) : List Effect :=
  let shell := name ∈ ["bash", "sh", "zsh", "fish", "ksh"]
  let (effects, source) := programSource name shell args
  effects ++
    match source with
    | .external => [say "external interpreter program is not statically available" span]
    | source =>
      let input := match source with
        | .code input => some input
        | _ => standardInput rs
      match input with
      | none => [say "interpreter consumes unverified input" span]
      | some input =>
        if input.dynamic then [say "expanded interpreter program" input.span]
        else if shell then [.nested input name cwd span]
        else foreignProgram rx name input cwd

/-! ## Simple commands -/

/-- `basename`. -/
def basename (s : List Char) : String := String.ofList (s.rtakeWhile (· ≠ '/'))

/-- What the wrappers in front of a program leave. -/
inductive Unwrapped where
  /-- No program runs. -/
  | nothing
  /-- A wrapper could not be looked through. -/
  | unresolved (reason : String) (span : Span)
  /-- The program and its arguments. -/
  | program (w : Word) (args : List Word)
  deriving DecidableEq, Repr

/-- The loop of `command` over the wrappers in front of a program. `inEnv` says that the operands
of `env` are being read. -/
def unwrap : Bool → List Word → Unwrapped
  | _, [] => .nothing
  | inEnv, w :: rest =>
    if inEnv && w.assignment then unwrap true rest
    else if inEnv && w.value = "--".toList then unwrap false rest
    else if inEnv && Text.startsWith w.value "-" then
      .unresolved "unresolved env wrapper options" w.span
    else if w.dynamic then .unresolved "dynamic command name" w.span
    else
      let name := basename w.value
      if name = "env" then unwrap true rest
      else if name = "command" ∧
          rest.head?.any (fun a => a.value = "-v".toList || a.value = "-V".toList) then .nothing
      else if name = "command" ∨ name = "nohup" ∨ name = "exec" then
        if rest.head?.any (·.value = "--".toList) then
          match rest with
          | [] => .nothing
          | _ :: rest =>
            if rest.head?.any (Text.startsWith ·.value "-") then
              .unresolved "unresolved execution wrapper options" w.span
            else unwrap false rest
        else if rest.head?.any (Text.startsWith ·.value "-") then
          .unresolved "unresolved execution wrapper options" w.span
        else unwrap false rest
      else if name = "timeout" then
        match rest with
        | [] => .unresolved "unresolved timeout wrapper" w.span
        | a :: rest =>
          if a.dynamic || Text.startsWith a.value "-" then
            .unresolved "unresolved timeout wrapper" w.span
          else unwrap false rest
      else .program w rest

/-- The flow of `cd`: only an absolute operand without parent traversal is followed. -/
def cdFlow (args : List Word) (cwd : Cwd) : Flow :=
  match args with
  | [arg] =>
    if arg.value.head? ≠ some '/' ∨ (arg.value.splitOn '/').any (· = "..".toList) then
      ⟨⟨none⟩, cwd⟩
    else ⟨cwd.change arg, cwd⟩
  | _ => ⟨⟨none⟩, cwd⟩

/-- The options of `operands` that take the next argument. -/
def takesArgument (name : String) (option : List Char) : Bool :=
  let options := match name with
    | "truncate" => ["-s", "--size", "-r", "--reference"]
    | "touch" => ["-r", "--reference", "-d", "--date", "-t"]
    | "mkdir" => ["-m", "--mode"]
    | _ => []
  options.any (·.toList = option)

/-- `operands`: the operands of a program that changes files, and what its options leave open.
`flags` says that no `--` was read. -/
def operands (name : String) : Bool → List Word → List Effect × List Word
  | _, [] => ([], [])
  | flags, a :: args =>
    if flags && a.value = "--".toList then operands name false args
    else if flags && Text.startsWith a.value "-" then
      if takesArgument name a.value then
        match args with
        | [] => ([], [])
        | _ :: args => operands name flags args
      else
        let (effects, paths) := operands name flags args
        ((if ["cp", "mv", "install", "ln", "rsync"].contains name &&
            !(["-f", "-r", "-R", "-a", "-p", "-v", "-n", "--force", "--recursive"].any
              (·.toList = a.value)) then [say "unresolved mutation options" a.span] else []) ++
          (if a.dynamic then [say "dynamic mutation options" a.span] else []) ++ effects, paths)
    else
      let (effects, paths) := operands name flags args
      (effects, a :: paths)

/-- Moved files: the last path is written, the others are deleted. -/
def moveEffects (cwd : Cwd) : List Word → List Effect
  | [] => []
  | [p] => [.file p "write" cwd]
  | p :: paths => .file p "delete" cwd :: moveEffects cwd paths

/-- The programs of `command` that change the files they are given. -/
def mutationEffects (name : String) (args : List Word) (cwd : Cwd) (span : Span) : List Effect :=
  let (effects, paths) := operands name true args
  effects ++
  (if paths.isEmpty && name ≠ "tee" then [say "missing or implicit mutation target" span]
    else []) ++
  match name with
  | "cp" | "install" | "ln" | "rsync" =>
    match paths.getLast? with
    | some p => [.file p "write" cwd]
    | none => []
  | "mv" => moveEffects cwd paths
  | _ => paths.map fun p =>
    .file p (if name ∈ ["rm", "rmdir", "unlink"] then "delete" else "write") cwd

/-- The operands of `dd` that name its output. -/
def ddEffects (args : List Word) (cwd : Cwd) : List Effect :=
  args.filterMap fun a =>
    if Text.startsWith a.value "of=" then
      some (.file { a with value := a.value.drop 3 } "write" cwd)
    else none

/-- The loop over the arguments of `sed` or `perl` that edit in place: what it records, and the
number of files. `script` says that the program was read. -/
def editedFiles (cwd : Cwd) : Bool → List Word → List Effect × ℕ
  | _, [] => ([], 0)
  | script, a :: args =>
    if a.value = "-e".toList || a.value = "--expression".toList then
      match args with
      | [] => ([], 0)
      | _ :: args => editedFiles cwd true args
    else if a.value = "-f".toList || a.value = "--file".toList then
      match args with
      | [] => ([say "unresolved editing program file" a.span], 0)
      | _ :: args =>
        let (effects, files) := editedFiles cwd script args
        (say "unresolved editing program file" a.span :: effects, files)
    else if Text.startsWith a.value "-" then
      editedFiles cwd (script || Text.startsWith a.value "-e" ||
        Text.startsWith a.value "--expression=") args
    else if !script then editedFiles cwd true args
    else
      let (effects, files) := editedFiles cwd script args
      (.file a "write" cwd :: effects, files + 1)

/-- `sed` and `perl`. -/
def editEffects (name : String) (args : List Word) (cwd : Cwd) (span : Span) : List Effect :=
  (if args.any fun a => a.value = "--in-place".toList || Text.startsWith a.value "--in-place=" ||
      (Text.startsWith a.value "-" && !Text.startsWith a.value "--" && a.value.contains 'i') then
    let (effects, files) := editedFiles cwd false args
    effects ++ (if files = 0 then [say "unresolved in-place file operands" span] else [])
  else []) ++
  (if name = "perl" || args.any fun a => Text.contains a.value ";w ".toList ||
      Text.startsWith a.value "w " || Text.endsWith a.value "/e" then
    [say "unresolved editing program effects" span]
  else [])

/-- The global options of `git`: its directory and its arguments, unless they are unresolved. -/
def gitOptions : Cwd → List Word → List Effect ⊕ (Cwd × List Word)
  | base, [] => .inr (base, [])
  | base, a :: args =>
    if a.value = "-C".toList then
      match args with
      | dir :: args => gitOptions (base.change dir) args
      | [] => .inl [say "unresolved git global options" a.span]
    else if Text.startsWith a.value "-" then .inl [say "unresolved git global options" a.span]
    else .inr (base, a :: args)

/-- The subcommands of `git`. -/
def gitSubcommand (sub : Word) (rest : List Word) (base : Cwd) (span : Span) : List Effect :=
  match String.ofList sub.value with
  | "rm" =>
    let (effects, paths) := operands "rm" true rest
    effects ++ paths.map fun p => .file p "delete" base
  | "mv" =>
    let (effects, paths) := operands "mv" true rest
    effects ++ moveEffects base paths
  | "restore" =>
    let (effects, paths) := operands "restore" true rest
    effects ++ (if paths.isEmpty then [say "implicit git worktree targets" span] else []) ++
      paths.map fun p => .file p "write" base
  | "checkout" =>
    if rest.any (·.value = "--".toList) then
      ((rest.dropWhile (·.value ≠ "--".toList)).drop 1).map fun p => .file p "write" base
    else [say "implicit git checkout targets" span]
  | "switch" | "pull" | "merge" | "rebase" | "reset" | "stash" | "clean" | "cherry-pick"
  | "apply" | "am" => [say "implicit git worktree targets" span]
  | _ => []

/-- `git`. -/
def gitEffects (args : List Word) (cwd : Cwd) (span : Span) : List Effect :=
  match gitOptions cwd args with
  | .inl effects => effects
  | .inr (_, []) => []
  | .inr (base, sub :: rest) =>
    if sub.dynamic then [say "dynamic git operation" sub.span]
    else gitSubcommand sub rest base span

/-- The reserved words and compound commands outside the supported programs. -/
def compoundNames : List String :=
  ["if", "then", "else", "fi", "for", "while", "until", "do", "done", "case", "esac", "function",
    "\x7b", "\x7d", "!", "[[", "(("]

/-- The programs that run others, which are not looked into. -/
def executorNames : List String :=
  ["eval", "xargs", "patch", "apply_patch", "ruby", "php", "powershell", "pwsh", "cmd", "sudo"]

/-- The warnings of `command` about a program's other effects. -/
def programWarnings (name : String) (args : List Word) (span : Span) : List Effect :=
  (if name ∈ executorNames then [say "unresolved executable program" span] else []) ++
  (if name = "find" && args.any fun a =>
      ["-delete", "-exec", "-execdir", "-ok", "-okdir"].any (·.toList = a.value) then
    [say "unresolved find effects" span] else []) ++
  (if (name = "tar" && !args.any fun a => a.value = "--list".toList ||
        (Text.startsWith a.value "-" && a.value.contains 't')) ||
      (name = "unzip" && !args.any fun a => a.value = "-l".toList || a.value = "-v".toList) then
    [say "unresolved archive effects" span] else []) ++
  (if name = "awk" && args.any fun a => Text.contains a.value "system(".toList ||
      a.value.contains '>' || Text.contains a.value "inplace".toList then
    [say "unresolved awk program" span] else [])

/-- The effects of a program whose arguments name files. -/
def programEffects (name : String) (args : List Word) (cwd : Cwd) (span : Span) : List Effect :=
  match name with
  | "tee" | "touch" | "truncate" | "mkdir" | "rm" | "rmdir" | "unlink" | "mv" | "cp" | "install"
  | "ln" | "rsync" => mutationEffects name args cwd span
  | "dd" => ddEffects args cwd
  | "sed" | "perl" => editEffects name args cwd span
  | "git" => gitEffects args cwd span
  | _ => []

/-- The end of `command`: the program `w` with its arguments. -/
def program (rx : Recognizers) (w : Word) (args : List Word) (rs : List Redirect) (cwd : Cwd) :
    List Effect × Flow :=
  let name := basename w.value
  if name ∈ compoundNames then
    ([.issue ⟨.unsupported, "unsupported compound shell program", w.span⟩], Flow.same ⟨none⟩)
  else if name = "cd" then ([], cdFlow args cwd)
  else if name ∈ ["pushd", "popd", "source", "."] then
    ([say "unresolved shell state change" w.span], Flow.same ⟨none⟩)
  else if name ∈ ["bash", "sh", "zsh", "fish", "ksh", "python", "python3", "node"] then
    (interpreter rx name args rs cwd w.span, Flow.same cwd)
  else (programWarnings name args w.span ++ programEffects name args cwd w.span, Flow.same cwd)

/-- The part of `command` after its wrappers. -/
def unwrapped (rx : Recognizers) (rs : List Redirect) (cwd : Cwd) :
    Unwrapped → List Effect × Flow
  | .nothing => ([], Flow.same cwd)
  | .unresolved reason span => ([say reason span], Flow.same ⟨none⟩)
  | .program w args => program rx w args rs cwd

/-- `command`. -/
def command (rx : Recognizers) (words : List Word) (rs : List Redirect) (cwd : Cwd)
    (shell : String) : List Effect × Flow :=
  let executed := words.filterMap fun w =>
    if w.executes then some (say "executable argument expansion" w.span) else none
  let run := unwrapped rx rs cwd (unwrap false (words.dropWhile (·.assignment)))
  (redirectsEffects rs cwd shell ++ executed ++ run.1, run.2)

/-! ## Programs -/

mutual

/-- `visit`. -/
def visit (rx : Recognizers) (shell : String) : Ast → Cwd → List Effect × Flow
  | .command words rs, cwd => command rx words rs cwd shell
  | .group a rs, cwd => (redirectsEffects rs cwd shell ++ (visit rx shell a cwd).1, Flow.same cwd)
  | .sequence list, cwd => visitSequence rx shell list (Flow.same cwd)
  | .and a b, cwd =>
    let (effects, left) := visit rx shell a cwd
    let (effects', right) := visit rx shell b left.success
    (effects ++ effects', ⟨right.success, left.failure.union right.failure⟩)
  | .or a b, cwd =>
    let (effects, left) := visit rx shell a cwd
    let (effects', right) := visit rx shell b left.failure
    (effects ++ effects', ⟨left.success.union right.success, right.failure⟩)
  | .pipe list, cwd => (visitMembers rx shell list cwd, Flow.same cwd)

/-- The loop of `visit` over a sequence. -/
def visitSequence (rx : Recognizers) (shell : String) : List Ast → Flow → List Effect × Flow
  | [], flow => ([], flow)
  | a :: list, flow =>
    let (effects, flow) := visit rx shell a flow.after
    let (effects', flow) := visitSequence rx shell list flow
    (effects ++ effects', flow)

/-- The loop of `visit` over the members of a pipeline. -/
def visitMembers (rx : Recognizers) (shell : String) : List Ast → Cwd → List Effect
  | [], _ => []
  | a :: list, cwd => (visit rx shell a cwd).1 ++ visitMembers rx shell list cwd

end

/-- `analyze_into`, at the nesting depth `MAX_DEPTH + 1 - room`. -/
def analyzeInto (rx : Recognizers) :
    (room : ℕ) → List Char → String → Cwd → Analysis → Analysis
  | 0, command, _, _, a => a.limit "shell input or nesting limit" ⟨0, Text.byteLength command⟩
  | room + 1, command, shell, cwd, a =>
    let span : Span := ⟨0, Text.byteLength command⟩
    if Text.byteLength command > MAX_COMMAND_BYTES then a.limit "shell input or nesting limit" span
    else if shell ∉ ["bash", "sh", "zsh"] then
      a.report ⟨.unsupported, "unsupported shell dialect", span⟩
    else if '\x00' ∈ command then a.report ⟨.invalid, "NUL in shell source", span⟩
    else match parseProgram command with
      | .error e => a.report e
      | .ok ast =>
        (visit rx shell ast cwd).1.foldl
          (Analysis.perform fun input shell cwd => analyzeInto rx room input shell cwd {}) a

/-- `analyze`. -/
def analyze (rx : Recognizers) (command : List Char) (shellKind : String) (workdir : List Char) :
    Analysis :=
  if workdir.head? ≠ some '/' then
    ({} : Analysis).report
      ⟨.unsupported, "non-POSIX working directory requires a shell path adapter", ⟨0, 0⟩⟩
  else analyzeInto rx (MAX_DEPTH + 1) command shellKind ⟨some [workdir]⟩ {}

end Shell

end OpenBitFun
