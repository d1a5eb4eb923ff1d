import OpenBitFun.Loop
import OpenBitFun.Text

/-!
# The lexer of the shell analyzer

A command text becomes words, redirections and operators. A word keeps what its quotes and
escapes decode to, whether the shell expands something in it (`dynamic`) and whether an expansion
runs a program (`executes`); a redirection keeps its operator, its descriptor, its word and the
body of its here-document. Spans are half-open byte ranges of the command.
-/

namespace OpenBitFun

namespace Shell

/-- `MAX_COMMAND_BYTES`. -/
def MAX_COMMAND_BYTES : ℕ := 1024 * 1024

/-- `MAX_DEPTH`. -/
def MAX_DEPTH : ℕ := 32

/-- `MAX_NODES`. -/
def MAX_NODES : ℕ := 32768

/-- `AnalysisStatus`. -/
inductive AnalysisStatus where
  | supported
  | unsupported
  | invalid
  | resourceLimit
  deriving DecidableEq, Repr

/-- `Span`: a half-open byte range. -/
structure Span where
  /-- The first byte. -/
  start : ℕ
  /-- The byte after the last one. -/
  stop : ℕ
  deriving DecidableEq, Repr

/-- `Issue`. -/
structure Issue where
  /-- What it means for the whole analysis. -/
  status : AnalysisStatus
  /-- Its text. -/
  reason : String
  /-- Where it is. -/
  span : Span
  deriving DecidableEq, Repr

/-- `Word`. -/
structure Word where
  /-- What the quotes and escapes decode to. -/
  value : List Char
  /-- The shell expands something in it. -/
  dynamic : Bool
  /-- An expansion runs a program. -/
  executes : Bool
  /-- It has a quote or an escape. -/
  quoted : Bool
  /-- It starts with a name and `=`. -/
  assignment : Bool
  /-- Where it is. -/
  span : Span
  deriving DecidableEq, Repr

/-- `Redirect`. -/
structure Redirect where
  /-- The operator. -/
  op : String
  /-- The number in front of it. -/
  fd : Option (List Char)
  /-- The target, or the delimiter of a here-document. -/
  word : Word
  /-- The here-document. -/
  body : Option Word
  /-- Where it is. -/
  span : Span
  deriving DecidableEq, Repr

/-- `Token`. -/
inductive Token where
  | word (w : Word)
  | redirect (r : Redirect)
  | op (op : String) (span : Span)
  deriving DecidableEq, Repr

/-- `Token::span`. -/
def Token.span : Token → Span
  | .word w => w.span
  | .redirect r => r.span
  | .op _ s => s

/-- `Lexer`: the position in bytes and the text from there on. -/
structure Lexer where
  /-- The byte position. -/
  pos : ℕ
  /-- The text that is left. -/
  rest : List Char
  deriving DecidableEq, Repr

/-- An invalid command, at a position. -/
def issueAt (reason : String) (pos : ℕ) : Issue := ⟨.invalid, reason, ⟨pos, pos⟩⟩

/-- `Lexer::issue`. -/
def Lexer.issue (l : Lexer) (reason : String) : Issue := issueAt reason l.pos

/-- `Lexer::bump`. -/
def Lexer.bump (l : Lexer) : Lexer :=
  match l.rest with
  | [] => l
  | c :: rest => ⟨l.pos + c.utf8Size, rest⟩

/-- Moves past `n` ASCII characters that are there. -/
def Lexer.skip (l : Lexer) (n : ℕ) : Lexer := ⟨l.pos + n, l.rest.drop n⟩

/-- `starts_with` on the rest. -/
def Lexer.startsWith (l : Lexer) (text : String) : Bool := text.toList.isPrefixOf l.rest

/-! ## Words -/

/-- `skip_substitution`: the end of a substitution whose parenthesis is open `depth` times. -/
def skipSubstitution (depth : ℕ) (quote : Option Char) (pos : ℕ) :
    List Char → Except Issue Lexer
  | [] => .error (issueAt "unterminated substitution" pos)
  | c :: rest =>
    let pos := pos + c.utf8Size
    if c = '\\' then
      match rest with
      | [] => .error (issueAt "unterminated substitution" pos)
      | d :: rest => skipSubstitution depth quote (pos + d.utf8Size) rest
    else match quote with
      | some q => skipSubstitution depth (if c = q then none else quote) pos rest
      | none =>
        if c = '\'' ∨ c = '"' ∨ c = '\x60' then skipSubstitution depth (some c) pos rest
        else if c = '(' then
          if depth + 1 > MAX_DEPTH then
            .error ⟨.resourceLimit, "shell nesting limit", ⟨pos, pos⟩⟩
          else skipSubstitution (depth + 1) none pos rest
        else if c = ')' then
          if depth - 1 = 0 then .ok ⟨pos, rest⟩ else skipSubstitution (depth - 1) none pos rest
        else skipSubstitution depth none pos rest

/-- The end of a substitution in backquotes. -/
def skipBackquotes (pos : ℕ) : List Char → Except Issue Lexer
  | [] => .error (issueAt "unterminated command substitution" pos)
  | c :: rest =>
    let pos := pos + c.utf8Size
    if c = '\x60' then .ok ⟨pos, rest⟩
    else if c = '\\' then
      match rest with
      | [] => .error (issueAt "unterminated command substitution" pos)
      | d :: rest => skipBackquotes (pos + d.utf8Size) rest
    else skipBackquotes pos rest

/-- The variables of `Lexer::word`. -/
structure WordState where
  /-- The lexer. -/
  lexer : Lexer
  /-- The decoded characters so far. -/
  value : List Char := []
  /-- A quote or an escape was read. -/
  quoted : Bool := false
  /-- An expansion was read. -/
  dynamic : Bool := false
  /-- A substitution was read. -/
  executes : Bool := false
  /-- The quote that is open. -/
  quote : Option Char := none

/-- The second half of an iteration in `Lexer::word`, after quotes and escapes: substitutions, the
end of the word, and a character that stands for itself or an expansion. -/
def WordState.plain (s : WordState) (start : ℕ) (delimiter : Bool) (c : Char) :
    Except Issue (WordState ⊕ WordState) := do
  if !delimiter && (s.lexer.startsWith "$(" ||
      (s.quote.isNone && (s.lexer.startsWith "<(" || s.lexer.startsWith ">("))) then
    let lexer := s.lexer.skip 2
    let lexer ← skipSubstitution 1 none lexer.pos lexer.rest
    .ok (.inl { s with lexer, dynamic := true, executes := true })
  else if !delimiter && c == '\x60' then
    let lexer ← skipBackquotes s.lexer.bump.pos s.lexer.bump.rest
    .ok (.inl { s with lexer, dynamic := true, executes := true })
  else if s.quote.isNone && (Text.isWhitespace c || c ∈ ['<', '>', '|', '&', ';', '(', ')']) then
    .ok (.inr s)
  else
    let expands := !delimiter && (c == '$' || (s.quote.isNone &&
      (c ∈ ['*', '?', '[', '{', '}'] || (c == '~' && s.lexer.pos == start))))
    .ok (.inl { s with
      lexer := s.lexer.bump
      dynamic := s.dynamic || expands
      value := s.value ++ s.lexer.rest.take 1 })

/-- The arm of `Lexer::word` for a backslash, which was read. -/
def WordState.escape (s : WordState) (start : ℕ) (delimiter : Bool) :
    Except Issue (WordState ⊕ WordState) :=
  match s.lexer.rest with
  | [] => .error (s.lexer.issue "trailing escape")
  | next :: _ =>
    if next = '\n' then .ok (.inl { s with lexer := s.lexer.bump })
    else if s.quote = some '"' ∧ next ∉ ['$', '\x60', '"', '\\'] then
      -- the backslash stands for itself, and the iteration goes on with `next`
      { s with value := s.value ++ ['\\'] }.plain start delimiter '\\'
    else .ok (.inl { s with lexer := s.lexer.bump, value := s.value ++ [next] })

/-- One iteration in `Lexer::word`. -/
def WordState.step (start : ℕ) (delimiter : Bool) (s : WordState) :
    Except Issue (WordState ⊕ WordState) :=
  match s.lexer.rest with
  | [] => .ok (.inr s)
  | c :: _ =>
    if s.quote = some '\'' then
      .ok (.inl { s with
        lexer := s.lexer.bump
        quote := if c = '\'' then none else s.quote
        value := if c = '\'' then s.value else s.value ++ [c] })
    else if c = '\\' then
      { s with quoted := true, lexer := s.lexer.bump }.escape start delimiter
    else if c = '\'' ∧ s.quote = none then
      .ok (.inl { s with quoted := true, quote := some '\'', lexer := s.lexer.bump })
    else if c = '"' then
      .ok (.inl { s with
        quoted := true
        quote := if s.quote.isNone then some '"' else none
        lexer := s.lexer.bump })
    else s.plain start delimiter c

/-- A word is an assignment: a name and `=` at its start, as it is written. -/
def isAssignment (raw : List Char) : Bool :=
  let name := raw.takeWhile (· ≠ '=')
  '=' ∈ raw && !name.isEmpty && name.zipIdx.all fun (c, i) =>
    c == '_' || c.isAlpha || (i > 0 && c.isDigit)

/-- The end of `Lexer::word`, from `l` on. -/
def WordState.finish (s : WordState) (l : Lexer) : Except Issue (Word × Lexer) :=
  let raw := l.rest.take (l.rest.length - s.lexer.rest.length)
  if s.quote.isSome then .error (s.lexer.issue "unterminated quote")
  else if s.lexer.pos = l.pos then
    .error (s.lexer.issue "missing redirection operand or word")
  else
    .ok (⟨s.value, s.dynamic, s.executes, s.quoted, isAssignment raw, ⟨l.pos, s.lexer.pos⟩⟩,
      s.lexer)

/-- `Lexer::word`. -/
def Lexer.word (l : Lexer) (delimiter : Bool) : Except Issue (Word × Lexer) := do
  let s ← ((loop (WordState.step l.pos delimiter) (l.rest.length + 1) { lexer := l }).getD
    (.error (l.issue "unreachable")))
  s.finish l

/-! ## Here-documents -/

/-- `has_unescaped_expansion`. -/
def hasUnescapedExpansion : List Char → Bool
  | [] => false
  | c :: rest =>
    if c = '\\' then
      match rest with
      | [] => false
      | _ :: rest => hasUnescapedExpansion rest
    else c = '$' || c = '\x60' || hasUnescapedExpansion rest

/-- `has_executable_expansion`. -/
def hasExecutableExpansion : List Char → Bool
  | [] => false
  | c :: rest =>
    if c = '\\' then
      match rest with
      | [] => false
      | _ :: rest => hasExecutableExpansion rest
    else c = '\x60' || (c = '$' && rest.head? = some '(') || hasExecutableExpansion rest

/-- One line of a here-document: the body goes on, or ends at its delimiter. -/
def hereDocLine (delimiter : List Char) (strip : Bool) (s : Lexer × List Char) :
    Except Issue ((Lexer × List Char) ⊕ (Lexer × List Char)) :=
  let (l, body) := s
  if l.rest = [] then .error (l.issue "unterminated here-doc")
  else
    let line := l.rest.takeWhile (· ≠ '\n')
    let after := l.rest.dropWhile (· ≠ '\n')
    let newline := after.take 1
    let l : Lexer := ⟨l.pos + Text.byteLength line + newline.length, after.drop 1⟩
    let line := if strip then line.dropWhile (· = '\t') else line
    if line = delimiter then .ok (.inr (l, body)) else .ok (.inl (l, body ++ line ++ newline))

/-- One here-document of `Lexer::heredocs`: what it adds to its redirection. -/
def hereDoc (l : Lexer) (r : Redirect) : Except Issue (Redirect × Lexer) := do
  let (l', body) ← ((loop (hereDocLine r.word.value (r.op = "<<-")) (l.rest.length + 1)
    (l, [])).getD (.error (l.issue "unreachable")))
  let quoted := r.word.quoted
  let body : Word :=
    { value := body
      dynamic := !quoted && hasUnescapedExpansion body
      executes := !quoted && hasExecutableExpansion body
      quoted
      assignment := false
      span := ⟨l.pos, l'.pos⟩ }
  .ok ({ r with body := some body }, l')

/-- `Lexer::heredocs`: the bodies of the pending redirections. -/
def hereDocs (l : Lexer) (tokens : List Token) : List ℕ → Except Issue (List Token × Lexer)
  | [] => .ok (tokens, l)
  | index :: pending =>
    match tokens[index]? with
    | some (.redirect r) => do
      let (r, l) ← hereDoc l r
      hereDocs l (tokens.set index (.redirect r)) pending
    | _ => .error (l.issue "unreachable")

/-! ## Tokens -/

/-- The variables of `Lexer::run`. -/
structure RunState where
  /-- The lexer. -/
  lexer : Lexer
  /-- The tokens so far. -/
  tokens : List Token := []
  /-- The redirections that wait for their here-documents. -/
  pending : List ℕ := []

/-- The redirection operators, longest first. -/
def redirectOperators : List String :=
  ["&>>", "<<<", "<<-", ">>", ">|", "<>", ">&", "<&", "<<", "&>", ">", "<"]

/-- The control operators, longest first. -/
def controlOperators : List String :=
  ["&&", "||", "|&", ";;&", ";;", ";&", ";", "|", "&", "(", ")"]

/-- Moves past escaped line ends. -/
def skipContinuations (pos : ℕ) : List Char → Lexer
  | '\\' :: '\n' :: rest => skipContinuations (pos + 2) rest
  | rest => ⟨pos, rest⟩

/-- Moves past the characters that satisfy a test. -/
def Lexer.skipWhile (l : Lexer) (test : Char → Bool) : Lexer :=
  ⟨l.pos + Text.byteLength (l.rest.takeWhile test), l.rest.dropWhile test⟩

/-- A redirection of `Lexer::run`, after its descriptor and operator were found. -/
def RunState.redirect (s : RunState) (digits : ℕ) (op : String) : Except Issue RunState := do
  let fd := if digits > 0 then some (s.lexer.rest.take digits) else none
  let l := s.lexer.skip (digits + op.length)
  let l := skipContinuations l.pos l.rest
  let joined := (op = ">" || op = "<") && l.rest.head? = some '&'
  let operator := if joined then op ++ "&" else op
  let l := if joined then l.bump else l
  let l := l.skipWhile fun c => c = ' ' || c = '\t'
  let pending := operator = "<<" || operator = "<<-"
  let (word, l) ← l.word pending
  .ok { s with
    lexer := l
    pending := if pending then s.pending ++ [s.tokens.length] else s.pending
    tokens := s.tokens ++ [.redirect ⟨operator, fd, word, none, ⟨s.lexer.pos, l.pos⟩⟩] }

/-- One iteration in `Lexer::run`. -/
def RunState.step (s : RunState) : Except Issue (RunState ⊕ List Token) :=
  match s.lexer.rest with
  | [] =>
    if s.pending.isEmpty then .ok (.inr s.tokens)
    else .error (s.lexer.issue "unterminated here-doc")
  | c :: rest =>
    let l := s.lexer
    if s.tokens.length ≥ MAX_NODES then
      .error ⟨.resourceLimit, "shell token limit", ⟨l.pos, l.pos⟩⟩
    else if c = ' ' ∨ c = '\t' ∨ c = '\r' then .ok (.inl { s with lexer := l.bump })
    else if c = '\n' then do
      let tokens := s.tokens ++ [.op "\n" ⟨l.pos, l.bump.pos⟩]
      let (tokens, l) ← hereDocs l.bump tokens s.pending
      .ok (.inl { s with lexer := l, tokens, pending := [] })
    else if c = '#' then .ok (.inl { s with lexer := l.skipWhile (· ≠ '\n') })
    else if c = '\\' ∧ rest.head? = some '\n' then .ok (.inl { s with lexer := l.skip 2 })
    else
      let digits := (l.rest.takeWhile Char.isDigit).length
      let tail := l.skip digits
      let redir := (redirectOperators.find? fun op => tail.startsWith op).filter fun _ =>
        !tail.startsWith "<(" && !tail.startsWith ">("
      match redir with
      | some op => do
        let s ← s.redirect digits op
        .ok (.inl s)
      | none =>
        match controlOperators.find? fun op => l.startsWith op with
        | some op =>
          let l' := l.skip op.length
          .ok (.inl { s with lexer := l', tokens := s.tokens ++ [.op op ⟨l.pos, l'.pos⟩] })
        | none => do
          let (word, l) ← l.word false
          .ok (.inl { s with lexer := l, tokens := s.tokens ++ [.word word] })

/-- `lex`. -/
def lex (source : List Char) : Except Issue (List Token) :=
  (loop RunState.step (source.length + 1) { lexer := ⟨0, source⟩ }).getD
    (.error (issueAt "unreachable" 0))

end Shell

end OpenBitFun
