import OpenBitFun.ShellLexer

/-!
# The parser of the shell analyzer

Sequences of and/or lists of pipelines of simple commands and subshells. The parser's state is the
list of the tokens that are left; the nesting depth bounds the recursion.
-/

namespace OpenBitFun

namespace Shell

/-- `Ast`. -/
inductive Ast where
  | command (words : List Word) (redirects : List Redirect)
  | group (body : Ast) (redirects : List Redirect)
  | and (left right : Ast)
  | or (left right : Ast)
  | pipe (members : List Ast)
  | sequence (list : List Ast)

mutual

/-- The redirections of a program. -/
def Ast.redirects : Ast → List Redirect
  | .command _ rs => rs
  | .group a rs => a.redirects ++ rs
  | .and a b => a.redirects ++ b.redirects
  | .or a b => a.redirects ++ b.redirects
  | .pipe list => redirectsOf list
  | .sequence list => redirectsOf list

/-- The redirections of several programs. -/
def redirectsOf : List Ast → List Redirect
  | [] => []
  | a :: list => a.redirects ++ redirectsOf list

end

mutual

/-- Two programs are the same. -/
def Ast.same : Ast → Ast → Bool
  | .command words rs, .command words' rs' => words = words' && rs = rs'
  | .group a rs, .group b rs' => a.same b && rs = rs'
  | .and a b, .and a' b' => a.same a' && b.same b'
  | .or a b, .or a' b' => a.same a' && b.same b'
  | .pipe list, .pipe list' => sameList list list'
  | .sequence list, .sequence list' => sameList list list'
  | _, _ => false

/-- Two lists of programs are the same. -/
def sameList : List Ast → List Ast → Bool
  | [], [] => true
  | a :: list, b :: list' => a.same b && sameList list list'
  | _, _ => false

end

mutual

theorem Ast.eq_of_same (a b : Ast) (h : a.same b = true) : a = b := by
  match a, b with
  | .command words rs, .command words' rs' => simp_all [Ast.same]
  | .group a rs, .group b rs' =>
    obtain ⟨ha, rfl⟩ : a.same b = true ∧ rs = rs' := by simpa [Ast.same] using h
    rw [Ast.eq_of_same a b ha]
  | .and a b, .and a' b' =>
    obtain ⟨ha, hb⟩ : a.same a' = true ∧ b.same b' = true := by simpa [Ast.same] using h
    rw [Ast.eq_of_same a a' ha, Ast.eq_of_same b b' hb]
  | .or a b, .or a' b' =>
    obtain ⟨ha, hb⟩ : a.same a' = true ∧ b.same b' = true := by simpa [Ast.same] using h
    rw [Ast.eq_of_same a a' ha, Ast.eq_of_same b b' hb]
  | .pipe list, .pipe list' => rw [eq_of_sameList list list' h]
  | .sequence list, .sequence list' => rw [eq_of_sameList list list' h]

theorem eq_of_sameList (list list' : List Ast) (h : sameList list list' = true) :
    list = list' := by
  match list, list' with
  | [], [] => rfl
  | a :: list, b :: list' =>
    obtain ⟨ha, hlist⟩ : a.same b = true ∧ sameList list list' = true := by
      simpa [sameList] using h
    rw [Ast.eq_of_same a b ha, eq_of_sameList list list' hlist]

end

/-- `Parser::op`: the operator at the head. -/
def headOp : List Token → Option String
  | .op op _ :: _ => some op
  | _ => none

/-- The span of the token at the head. -/
def headSpan (tokens : List Token) : Span := (tokens.head?.map Token.span).getD ⟨0, 0⟩

/-- `Parser::error`. -/
def parseError (reason : String) (tokens : List Token) : Issue :=
  ⟨.unsupported, reason, headSpan tokens⟩

/-- A parsing function: what it read, and the tokens that are left. -/
abbrev Parse (α : Type) := List Token → Except Issue (α × List Token)

/-- Past the line ends. -/
def skipNewlines (tokens : List Token) : List Token :=
  tokens.dropWhile fun t => headOp [t] = some "\n"

/-- The words and redirections of a simple command. -/
def simpleCommand : List Token → List Word × List Redirect × List Token
  | .word w :: tokens =>
    let (words, redirects, tokens) := simpleCommand tokens
    (w :: words, redirects, tokens)
  | .redirect r :: tokens =>
    let (words, redirects, tokens) := simpleCommand tokens
    (words, r :: redirects, tokens)
  | tokens => ([], [], tokens)

/-- The redirections after a subshell. -/
def trailingRedirects : List Token → List Redirect × List Token
  | .redirect r :: tokens =>
    let (redirects, tokens) := trailingRedirects tokens
    (r :: redirects, tokens)
  | tokens => ([], tokens)

/-- A sequence without commands. -/
def Ast.isEmptySequence : Ast → Bool
  | .sequence [] => true
  | _ => false

section

variable (sub : Parse Ast)

/-- `Parser::command`; `sub` is the sequence of one level deeper. -/
def parseCommand : Parse Ast := fun tokens =>
  if headOp tokens = some "(" then do
    let (a, tokens) ← sub tokens.tail
    if a.isEmptySequence then .error (parseError "empty subshell" tokens)
    else if headOp tokens ≠ some ")" then .error (parseError "unclosed subshell" tokens)
    else
      let (redirects, tokens) := trailingRedirects tokens.tail
      .ok (.group a redirects, tokens)
  else
    let (words, redirects, rest) := simpleCommand tokens
    if words.isEmpty ∧ redirects.isEmpty then .error (parseError "missing command" rest)
    else .ok (.command words redirects, rest)

/-- One iteration in `Parser::pipeline`: another member, or the end. -/
def pipelineStep (s : List Ast × List Token) :
    Except Issue ((List Ast × List Token) ⊕ (List Ast × List Token)) :=
  let (members, tokens) := s
  if headOp tokens = some "|" ∨ headOp tokens = some "|&" then do
    let (a, tokens) ← parseCommand sub (skipNewlines tokens.tail)
    .ok (.inl (members ++ [a], tokens))
  else .ok (.inr (members, tokens))

/-- `Parser::pipeline`. -/
def parsePipeline : Parse Ast := fun tokens => do
  let (a, tokens) ← parseCommand sub tokens
  let (members, tokens) ← ((loop (pipelineStep sub) (tokens.length + 1) ([a], tokens)).getD
    (.error (parseError "unreachable" tokens)))
  match members with
  | [a] => .ok (a, tokens)
  | members => .ok (.pipe members, tokens)

/-- The rest of `Parser::and_or` after `a`, with `room` more operators. -/
def andOrRest : ℕ → Ast → Parse Ast
  | room, a, tokens =>
    if headOp tokens = some "&&" ∨ headOp tokens = some "||" then
      match room with
      | 0 => .error ⟨.resourceLimit, "shell control nesting limit", headSpan tokens⟩
      | room + 1 => do
        let isAnd := headOp tokens = some "&&"
        let (b, tokens) ← parsePipeline sub (skipNewlines tokens.tail)
        andOrRest room (if isAnd then .and a b else .or a b) tokens
    else .ok (a, tokens)

/-- `Parser::and_or`. -/
def parseAndOr : Parse Ast := fun tokens => do
  let (a, tokens) ← parsePipeline sub tokens
  andOrRest sub MAX_DEPTH a tokens

/-- One iteration in `Parser::sequence`. -/
def sequenceStep (s : List Ast × List Token) :
    Except Issue ((List Ast × List Token) ⊕ (List Ast × List Token)) :=
  let (list, tokens) := s
  if tokens.isEmpty ∨ headOp tokens = some ")" then .ok (.inr (list, tokens))
  else if headOp tokens = some "\n" then .ok (.inl (list, tokens.tail))
  else do
    let (a, tokens) ← parseAndOr sub tokens
    let list := list ++ [a]
    if headOp tokens = some ";" ∨ headOp tokens = some "\n" then .ok (.inl (list, tokens.tail))
    else if headOp tokens = some ")" ∨ headOp tokens = none then .ok (.inr (list, tokens))
    else .error (parseError "unsupported shell control operator" tokens)

end

/-- `Parser::sequence`, at the nesting depth `MAX_DEPTH + 1 - room`. -/
def parseSequence : ℕ → Parse Ast
  | 0, _ => .error ⟨.resourceLimit, "shell nesting limit", ⟨0, 0⟩⟩
  | room + 1, tokens => do
    let (list, tokens) ← ((loop (sequenceStep (parseSequence room)) (tokens.length + 1)
      ([], tokens)).getD (.error (parseError "unreachable" tokens)))
    .ok (.sequence list, tokens)

/-- The parse of a whole command: a sequence that leaves no token. -/
def parse (tokens : List Token) : Except Issue Ast := do
  let (ast, rest) ← parseSequence (MAX_DEPTH + 1) tokens
  if rest.isEmpty then .ok ast else .error (parseError "unexpected shell delimiter" rest)

/-- The program that `analyze_into` visits. -/
def parseProgram (command : List Char) : Except Issue Ast := do parse (← lex command)

end Shell

end OpenBitFun
