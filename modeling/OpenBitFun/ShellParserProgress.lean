import OpenBitFun.ShellParser

/-!
# The lexer and the parser always end

The loops of the lexer and of the parser run within their fuel: every iteration reads at least one
character or one token. A command that cannot be read is refused: the error is never of the status
`supported`.
-/

namespace OpenBitFun

open List

namespace Shell

/-- An error that makes the analysis something else than supported. -/
def Refusal (e : Issue) : Prop := e.status ≠ .supported

theorem refusal_issueAt (reason : String) (pos : ℕ) : Refusal (issueAt reason pos) := by
  simp [Refusal, issueAt]

/-! ## Words -/

@[simp] theorem Lexer.length_bump (l : Lexer) : l.bump.rest.length = l.rest.length - 1 := by
  rw [Lexer.bump]
  split
  · next h => simp [h]
  · next h => simp [h]

@[simp] theorem Lexer.length_skip (l : Lexer) (n : ℕ) :
    (l.skip n).rest.length = l.rest.length - n := by
  simp [Lexer.skip]

theorem skipSubstitution_yields (depth : ℕ) (quote : Option Char) (pos : ℕ) (s : List Char) :
    Yields Refusal (fun l : Lexer => l.rest.length < s.length)
      (skipSubstitution depth quote pos s) := by
  fun_induction skipSubstitution depth quote pos s
  case case1 | case2 => exact refusal_issueAt _ _
  case case6 => simp [Yields, Refusal]
  case case8 => simp [Yields]
  all_goals
    next ih =>
      refine Yields.mono ih fun l hl => ?_
      simp only [length_cons]
      omega

theorem skipBackquotes_yields (pos : ℕ) (s : List Char) :
    Yields Refusal (fun l : Lexer => l.rest.length < s.length) (skipBackquotes pos s) := by
  fun_induction skipBackquotes pos s
  case case1 | case3 => exact refusal_issueAt _ _
  case case2 => simp [Yields]
  all_goals
    next ih =>
      refine Yields.mono ih fun l hl => ?_
      simp only [length_cons]
      omega

theorem WordState.plain_yields (s : WordState) (start : ℕ) (delimiter : Bool) (c : Char)
    (hs : s.lexer.rest ≠ []) :
    Yields Refusal (fun next => next = .inr s ∨ ∃ s', next = .inl s' ∧
      s'.lexer.rest.length < s.lexer.rest.length) (s.plain start delimiter c) := by
  have hpos := length_pos_iff.2 hs
  rw [WordState.plain]
  split
  · refine (skipSubstitution_yields _ _ _ _).bind fun l hl => .inr ⟨_, rfl, ?_⟩
    simp only [Lexer.length_skip] at hl
    simp only
    omega
  split
  · refine (skipBackquotes_yields _ _).bind fun l hl => .inr ⟨_, rfl, ?_⟩
    simp only [Lexer.length_bump] at hl
    simp only
    omega
  split
  · exact .inl rfl
  · refine .inr ⟨_, rfl, ?_⟩
    simp only [Lexer.length_bump]
    omega

theorem WordState.escape_yields (s : WordState) (start : ℕ) (delimiter : Bool) :
    Yields Refusal (fun next => ∃ s', (next = .inl s' ∨ next = .inr s') ∧
      s'.lexer.rest.length ≤ s.lexer.rest.length) (s.escape start delimiter) := by
  rw [WordState.escape]
  split
  · exact refusal_issueAt _ _
  · next next rest hrest =>
    split
    · refine ⟨_, .inl rfl, ?_⟩
      simp only [Lexer.length_bump]
      omega
    split
    · refine (WordState.plain_yields _ start delimiter _ (by simp [hrest])).mono ?_
      rintro _ (rfl | ⟨s', rfl, hlt⟩)
      · exact ⟨_, .inr rfl, le_refl _⟩
      · exact ⟨s', .inl rfl, hlt.le⟩
    · refine ⟨_, .inl rfl, ?_⟩
      simp only [Lexer.length_bump]
      omega

/-- A word that is read from `l` on has read nothing yet, or something. -/
def WordState.From (l : Lexer) (s : WordState) : Prop :=
  s.lexer = l ∨ s.lexer.rest.length < l.rest.length

theorem WordState.From.of_lt {l : Lexer} {s s' : WordState} (h : s.From l)
    (hlt : s'.lexer.rest.length < s.lexer.rest.length) : s'.From l := by
  obtain h | h := h
  · exact .inr (h ▸ hlt)
  · exact .inr (hlt.trans h)

theorem WordState.step_yields (l : Lexer) (delimiter : Bool) (s : WordState) (hs : s.From l) :
    Yields Refusal (Progress (WordState.From l) (·.lexer.rest.length) (WordState.From l) s)
      (s.step l.pos delimiter) := by
  have hread (s' : WordState) (hlt : s'.lexer.rest.length < s.lexer.rest.length) :
      Progress (WordState.From l) (·.lexer.rest.length) (WordState.From l) s (.inl s') :=
    ⟨hs.of_lt hlt, hlt⟩
  rw [WordState.step]
  split
  · exact hs
  · next c rest hrest =>
    have hbump : s.lexer.bump.rest.length < s.lexer.rest.length := by
      simp [hrest]
    split
    · exact hread _ hbump
    split
    · refine (WordState.escape_yields _ _ _).mono ?_
      rintro _ ⟨s', rfl | rfl, hle⟩
      · exact hread s' (lt_of_le_of_lt hle hbump)
      · exact hs.of_lt (lt_of_le_of_lt hle hbump)
    split
    · exact hread _ hbump
    split
    · exact hread _ hbump
    · refine (WordState.plain_yields s l.pos delimiter c (by simp [hrest])).mono ?_
      rintro _ (rfl | ⟨s', rfl, hlt⟩)
      · exact hs
      · exact hread s' hlt

theorem Lexer.word_loop (l : Lexer) (delimiter : Bool) :
    ∃ x, loop (WordState.step l.pos delimiter) (l.rest.length + 1) { lexer := l } = some x ∧
      Yields Refusal (WordState.From l) x :=
  loop_yields (WordState.From l) (·.lexer.rest.length) (WordState.step_yields l delimiter)
    (.inl rfl) (Nat.lt_succ_self _)

theorem Lexer.word_yields (l : Lexer) (delimiter : Bool) :
    Yields Refusal (fun r : Word × Lexer => r.2.rest.length < l.rest.length)
      (l.word delimiter) := by
  obtain ⟨x, hx, hyields⟩ := l.word_loop delimiter
  rw [Lexer.word, hx]
  refine Yields.bind hyields fun s hs => ?_
  rw [WordState.finish]
  split
  · exact refusal_issueAt _ _
  split
  · exact refusal_issueAt _ _
  · next hpos =>
    obtain h | h := hs
    · exact absurd (congrArg Lexer.pos h) hpos
    · exact h

/-! ## Here-documents -/

theorem length_dropWhile_le {α : Type} (test : α → Bool) (s : List α) :
    (s.dropWhile test).length ≤ s.length :=
  (dropWhile_suffix test).length_le

theorem hereDocLine_yields (delimiter : List Char) (strip : Bool) (n : ℕ)
    (s : Lexer × List Char) (hs : s.1.rest.length ≤ n) :
    Yields Refusal (Progress (·.1.rest.length ≤ n) (·.1.rest.length) (·.1.rest.length ≤ n) s)
      (hereDocLine delimiter strip s) := by
  obtain ⟨l, body⟩ := s
  rw [hereDocLine]
  split
  · exact refusal_issueAt _ _
  · next hne =>
    have hlt : ((l.rest.dropWhile (· ≠ '\n')).drop 1).length < l.rest.length := by
      have hle := length_dropWhile_le (· ≠ '\n') l.rest
      have hpos := length_pos_iff.2 hne
      rw [length_drop]
      omega
    lift_lets
    intro line after newline l' line'
    by_cases hline : line' = delimiter
    · rw [if_pos hline]
      exact hlt.le.trans hs
    · rw [if_neg hline]
      exact ⟨hlt.le.trans hs, hlt⟩

theorem hereDoc_loop (l : Lexer) (delimiter : List Char) (strip : Bool) :
    ∃ x, loop (hereDocLine delimiter strip) (l.rest.length + 1) (l, []) = some x ∧
      Yields Refusal (·.1.rest.length ≤ l.rest.length) x :=
  loop_yields (·.1.rest.length ≤ l.rest.length) (·.1.rest.length)
    (hereDocLine_yields delimiter strip l.rest.length) (le_refl _) (Nat.lt_succ_self _)

theorem hereDoc_yields (l : Lexer) (r : Redirect) :
    Yields Refusal (fun x : Redirect × Lexer => x.2.rest.length ≤ l.rest.length)
      (hereDoc l r) := by
  obtain ⟨x, hx, hyields⟩ := hereDoc_loop l r.word.value (r.op = "<<-")
  rw [hereDoc, hx]
  exact Yields.bind hyields fun s hs => hs

theorem hereDocs_yields (l : Lexer) (tokens : List Token) (pending : List ℕ) :
    Yields Refusal (fun x : List Token × Lexer => x.2.rest.length ≤ l.rest.length)
      (hereDocs l tokens pending) := by
  induction pending generalizing l tokens with
  | nil => exact le_refl _
  | cons index pending ih =>
    rw [hereDocs]
    split
    · exact (hereDoc_yields l _).bind fun x hx => (ih _ _).mono fun y hy => hy.trans hx
    · exact refusal_issueAt _ _

/-! ## Tokens -/

theorem length_skipContinuations (pos : ℕ) (s : List Char) :
    (skipContinuations pos s).rest.length ≤ s.length := by
  fun_induction skipContinuations pos s with
  | case1 pos rest ih =>
    simp only [length_cons]
    omega
  | case2 => exact le_refl _

theorem Lexer.length_skipWhile (l : Lexer) (test : Char → Bool) :
    (l.skipWhile test).rest.length ≤ l.rest.length :=
  length_dropWhile_le test l.rest

theorem RunState.redirect_yields (s : RunState) (digits : ℕ) (op : String) :
    Yields Refusal (fun s' : RunState => s'.lexer.rest.length < s.lexer.rest.length)
      (s.redirect digits op) := by
  rw [RunState.redirect]
  refine (Lexer.word_yields _ _).bind fun x hx => ?_
  refine hx.trans_le ((Lexer.length_skipWhile _ _).trans ?_)
  have hskip := length_skipContinuations (s.lexer.skip (digits + op.length)).pos
    (s.lexer.skip (digits + op.length)).rest
  rw [Lexer.length_skip] at hskip
  split
  · rw [Lexer.length_bump]
    omega
  · omega

/-- Every iteration of the lexer reads something, or the lexer is done. -/
theorem RunState.step_yields (s : RunState) :
    Yields Refusal (Progress (fun _ => True) (·.lexer.rest.length) (fun _ => True) s) s.step := by
  have hread (s' : RunState) (hlt : s'.lexer.rest.length < s.lexer.rest.length) :
      Progress (fun _ => True) (·.lexer.rest.length) (fun _ : List Token => True) s (.inl s') :=
    ⟨trivial, hlt⟩
  have hword : Yields Refusal
      (Progress (fun _ => True) (·.lexer.rest.length) (fun _ : List Token => True) s)
      (s.lexer.word false >>= fun x =>
        .ok (.inl { s with lexer := x.2, tokens := s.tokens ++ [.word x.1] })) :=
    (Lexer.word_yields _ _).bind fun x hx => hread _ hx
  rw [RunState.step]
  split
  · split
    · trivial
    · exact refusal_issueAt _ _
  · next c rest hrest =>
    have hbump : s.lexer.bump.rest.length < s.lexer.rest.length := by simp [hrest]
    have hskip (n : ℕ) (hn : 0 < n) : (s.lexer.skip n).rest.length < s.lexer.rest.length := by
      simp only [Lexer.length_skip, hrest, length_cons]
      omega
    dsimp only
    split
    · simp [Yields, Refusal]
    split
    · exact hread _ hbump
    split
    · exact (hereDocs_yields _ _ _).bind fun x hx => hread _ (lt_of_le_of_lt hx hbump)
    split
    · next hc =>
      refine hread _ ?_
      have htail := length_dropWhile_le (· ≠ '\n') rest
      simp only [Lexer.skipWhile, hrest, dropWhile_cons, hc, length_cons]
      simpa using Nat.lt_succ_of_le htail
    split
    · exact hread _ (hskip 2 (by decide))
    split
    · exact (RunState.redirect_yields s _ _).bind fun x hx => hread x hx
    · split
      · next op hop =>
        have hlength : ∀ op ∈ controlOperators, 0 < op.length := by decide
        exact hread _ (hskip _ (hlength op (mem_of_find?_eq_some hop)))
      · exact hword

/-- **The lexer ends**: the fuel never runs out, and what it refuses is not supported. -/
theorem lex_yields (source : List Char) :
    loop RunState.step (source.length + 1) { lexer := ⟨0, source⟩ } = some (lex source) ∧
      Yields Refusal (fun _ => True) (lex source) := by
  obtain ⟨x, hx, hyields⟩ := loop_yields (fun _ => True) (·.lexer.rest.length)
    (fun s _ => RunState.step_yields s) trivial
    (Nat.lt_succ_self ({ lexer := ⟨0, source⟩ } : RunState).lexer.rest.length)
  have hlex : lex source = x := by
    rw [lex, hx]
    rfl
  rw [hlex]
  exact ⟨hx, hyields⟩

/-! ## Parsing -/

/-- The redirections among some tokens. -/
def redirectTokens (tokens : List Token) : List Redirect :=
  tokens.filterMap fun
    | .redirect r => some r
    | _ => none

/-- What a parsing function reads: some tokens, whose redirections it returns. -/
structure Reads (redirects : List Redirect) (tokens rest : List Token) : Prop where
  /-- The tokens get fewer. -/
  length_lt : rest.length < tokens.length
  /-- No redirection is lost. -/
  redirects_eq : redirectTokens tokens = redirects ++ redirectTokens rest

/-- The same, if it reads anything. -/
structure MayRead (redirects : List Redirect) (tokens rest : List Token) : Prop where
  /-- The tokens do not get more. -/
  length_le : rest.length ≤ tokens.length
  /-- No redirection is lost. -/
  redirects_eq : redirectTokens tokens = redirects ++ redirectTokens rest

variable {rs rs' : List Redirect} {tokens tokens' rest : List Token}

theorem MayRead.refl (tokens : List Token) : MayRead [] tokens tokens := ⟨le_refl _, rfl⟩

theorem Reads.mayRead (h : Reads rs tokens rest) : MayRead rs tokens rest :=
  ⟨h.length_lt.le, h.redirects_eq⟩

theorem MayRead.trans (h : MayRead rs tokens tokens') (h' : MayRead rs' tokens' rest) :
    MayRead (rs ++ rs') tokens rest :=
  ⟨h'.length_le.trans h.length_le, by rw [h.redirects_eq, h'.redirects_eq, append_assoc]⟩

theorem Reads.trans (h : Reads rs tokens tokens') (h' : MayRead rs' tokens' rest) :
    Reads (rs ++ rs') tokens rest :=
  ⟨lt_of_le_of_lt h'.length_le h.length_lt, (h.mayRead.trans h').redirects_eq⟩

theorem MayRead.trans_reads (h : MayRead rs tokens tokens') (h' : Reads rs' tokens' rest) :
    Reads (rs ++ rs') tokens rest :=
  ⟨lt_of_lt_of_le h'.length_lt h.length_le, (h.trans h'.mayRead).redirects_eq⟩

/-- An operator is read without a redirection. -/
theorem reads_tail {op : String} (h : headOp tokens = some op) : Reads [] tokens tokens.tail := by
  cases tokens with
  | nil => cases h
  | cons t tokens =>
    cases t with
    | op => exact ⟨Nat.lt_succ_self _, rfl⟩
    | word => cases h
    | redirect => cases h

theorem mayRead_skipNewlines (tokens : List Token) : MayRead [] tokens (skipNewlines tokens) := by
  induction tokens with
  | nil => exact .refl _
  | cons t tokens ih =>
    rw [skipNewlines, dropWhile_cons]
    split
    · next h =>
      have htail : headOp (t :: tokens) = some "\n" := by
        cases t with
        | op => simpa [headOp] using h
        | word => simp [headOp] at h
        | redirect => simp [headOp] at h
      exact (reads_tail htail).mayRead.trans ih
    · exact .refl _

theorem mayRead_simpleCommand (tokens : List Token) :
    MayRead (simpleCommand tokens).2.1 tokens (simpleCommand tokens).2.2 := by
  fun_induction simpleCommand tokens with
  | case1 w tokens words redirects rest h ih =>
    rw [h] at ih
    exact ⟨ih.length_le.trans (Nat.le_succ _), ih.redirects_eq⟩
  | case2 r tokens words redirects rest h ih =>
    rw [h] at ih
    refine ⟨ih.length_le.trans (Nat.le_succ _), ?_⟩
    rw [cons_append, ← ih.redirects_eq]
    rfl
  | case3 => exact .refl _

/-- A simple command that reads something has a word or a redirection. -/
theorem length_simpleCommand (tokens : List Token) :
    (simpleCommand tokens).1.length + (simpleCommand tokens).2.1.length +
      (simpleCommand tokens).2.2.length = tokens.length := by
  fun_induction simpleCommand tokens with
  | case1 w tokens words redirects rest h ih =>
    rw [h] at ih
    simp only [length_cons] at ih ⊢
    omega
  | case2 r tokens words redirects rest h ih =>
    rw [h] at ih
    simp only [length_cons] at ih ⊢
    omega
  | case3 => simp

theorem mayRead_trailingRedirects (tokens : List Token) :
    MayRead (trailingRedirects tokens).1 tokens (trailingRedirects tokens).2 := by
  fun_induction trailingRedirects tokens with
  | case1 r tokens redirects rest h ih =>
    rw [h] at ih
    refine ⟨ih.length_le.trans (Nat.le_succ _), ?_⟩
    rw [cons_append, ← ih.redirects_eq]
    rfl
  | case2 => exact .refl _

theorem refusal_parseError (reason : String) (tokens : List Token) :
    Refusal (parseError reason tokens) := by
  simp [Refusal, parseError]

section

variable {sub : Parse Ast}

/-- The parser one level deeper reads what it returns. -/
def SubReads (sub : Parse Ast) : Prop :=
  ∀ tokens, Yields Refusal (fun x => MayRead x.1.redirects tokens x.2) (sub tokens)

theorem parseCommand_yields (hsub : SubReads sub) (tokens : List Token) :
    Yields Refusal (fun x => Reads x.1.redirects tokens x.2) (parseCommand sub tokens) := by
  rw [parseCommand]
  split
  · next hopen =>
    refine (hsub tokens.tail).bind ?_
    rintro ⟨a, rest⟩ hx
    dsimp only
    split
    · exact refusal_parseError _ _
    split
    · exact refusal_parseError _ _
    · next hclose =>
      have hclose : headOp rest = some ")" := by simpa using hclose
      have hread := ((reads_tail hopen).trans hx).trans
        ((reads_tail hclose).mayRead.trans (mayRead_trailingRedirects rest.tail))
      exact ⟨hread.length_lt, hread.redirects_eq⟩
  · have hread := mayRead_simpleCommand tokens
    have hlength := length_simpleCommand tokens
    generalize simpleCommand tokens = x at hread hlength
    obtain ⟨words, redirects, rest⟩ := x
    dsimp only at hread hlength ⊢
    split
    · exact refusal_parseError _ _
    · next hne =>
      refine ⟨show rest.length < tokens.length from ?_, hread.redirects_eq⟩
      by_contra hle
      have hwords : words.length = 0 := by omega
      have hredirects : redirects.length = 0 := by omega
      simp [length_eq_zero_iff.1 hwords, length_eq_zero_iff.1 hredirects] at hne

@[simp] theorem redirectsOf_append (list list' : List Ast) :
    redirectsOf (list ++ list') = redirectsOf list ++ redirectsOf list' := by
  induction list with
  | nil => rfl
  | cons a list ih => simp [redirectsOf, ih]

@[simp] theorem redirectsOf_singleton (a : Ast) : redirectsOf [a] = a.redirects := by
  simp [redirectsOf]

/-- One iteration of a pipeline reads another member. -/
theorem pipelineStep_yields (hsub : SubReads sub) (tokens : List Token)
    (s : List Ast × List Token) (hs : Reads (redirectsOf s.1) tokens s.2) :
    Yields Refusal (Progress (fun s => Reads (redirectsOf s.1) tokens s.2) (·.2.length)
      (fun s => Reads (redirectsOf s.1) tokens s.2) s) (pipelineStep sub s) := by
  obtain ⟨members, rest⟩ := s
  rw [pipelineStep]
  split
  · next hop =>
    obtain ⟨op, hop⟩ : ∃ op, headOp rest = some op := by
      obtain hop | hop := hop
      · exact ⟨_, hop⟩
      · exact ⟨_, hop⟩
    refine (parseCommand_yields hsub _).bind ?_
    rintro ⟨a, rest'⟩ hx
    have hread : Reads a.redirects rest rest' :=
      ((reads_tail hop).trans (mayRead_skipNewlines _)).mayRead.trans_reads hx
    refine ⟨show Reads (redirectsOf (members ++ [a])) tokens rest' from ?_, hread.length_lt⟩
    rw [redirectsOf_append, redirectsOf_singleton]
    exact hs.trans hread.mayRead
  · exact hs

theorem pipeline_loop (hsub : SubReads sub) {a : Ast} (hread : Reads a.redirects tokens rest) :
    ∃ x, loop (pipelineStep sub) (rest.length + 1) ([a], rest) = some x ∧
      Yields Refusal (fun s => Reads (redirectsOf s.1) tokens s.2) x := by
  refine loop_yields (fun s => Reads (redirectsOf s.1) tokens s.2) (·.2.length)
    (pipelineStep_yields hsub tokens) ?_ (Nat.lt_succ_self _)
  rw [redirectsOf_singleton]
  exact hread

theorem parsePipeline_yields (hsub : SubReads sub) (tokens : List Token) :
    Yields Refusal (fun x => Reads x.1.redirects tokens x.2) (parsePipeline sub tokens) := by
  rw [parsePipeline]
  refine (parseCommand_yields hsub tokens).bind ?_
  rintro ⟨a, rest⟩ hread
  obtain ⟨x, hx, hyields⟩ := pipeline_loop hsub hread
  dsimp only
  rw [hx]
  refine Yields.bind hyields ?_
  rintro ⟨members, rest'⟩ hs
  dsimp only at hs ⊢
  split
  · rwa [redirectsOf_singleton] at hs
  · exact hs

theorem andOrRest_yields (hsub : SubReads sub) (room : ℕ) (a : Ast) (tokens : List Token) :
    Yields Refusal (fun x => ∃ rs, x.1.redirects = a.redirects ++ rs ∧ MayRead rs tokens x.2)
      (andOrRest sub room a tokens) := by
  induction room generalizing a tokens with
  | zero =>
    rw [andOrRest]
    split
    · simp [Yields, Refusal]
    · exact ⟨[], by simp, .refl _⟩
  | succ room ih =>
    rw [andOrRest]
    split
    · next hop =>
      obtain ⟨op, hop⟩ : ∃ op, headOp tokens = some op := by
        obtain hop | hop := hop
        · exact ⟨_, hop⟩
        · exact ⟨_, hop⟩
      refine (parsePipeline_yields hsub _).bind ?_
      rintro ⟨b, rest⟩ hx
      have hread : MayRead b.redirects tokens rest :=
        (((reads_tail hop).trans (mayRead_skipNewlines _)).mayRead.trans_reads hx).mayRead
      refine (ih _ rest).mono ?_
      rintro ⟨c, rest'⟩ ⟨rs, heq, hrest⟩
      refine ⟨b.redirects ++ rs, ?_, hread.trans hrest⟩
      rw [heq]
      split
      · simp [Ast.redirects]
      · simp [Ast.redirects]
    · exact ⟨[], by simp, .refl _⟩

theorem parseAndOr_yields (hsub : SubReads sub) (tokens : List Token) :
    Yields Refusal (fun x => Reads x.1.redirects tokens x.2) (parseAndOr sub tokens) := by
  rw [parseAndOr]
  refine (parsePipeline_yields hsub tokens).bind ?_
  rintro ⟨a, rest⟩ hread
  refine (andOrRest_yields hsub MAX_DEPTH a rest).mono ?_
  rintro ⟨b, rest'⟩ ⟨rs, heq, hrest⟩
  dsimp only at heq ⊢
  rw [heq]
  exact hread.trans hrest

/-- One iteration of a sequence reads a line end or an and/or list. -/
theorem sequenceStep_yields (hsub : SubReads sub) (tokens : List Token)
    (s : List Ast × List Token) (hs : MayRead (redirectsOf s.1) tokens s.2) :
    Yields Refusal (Progress (fun s => MayRead (redirectsOf s.1) tokens s.2) (·.2.length)
      (fun s => MayRead (redirectsOf s.1) tokens s.2) s) (sequenceStep sub s) := by
  obtain ⟨list, rest⟩ := s
  rw [sequenceStep]
  split
  · exact hs
  split
  · next hop =>
    have htail := reads_tail hop
    refine ⟨?_, htail.length_lt⟩
    simpa using hs.trans htail.mayRead
  · refine (parseAndOr_yields hsub rest).bind ?_
    rintro ⟨a, rest'⟩ hread
    have hnext : MayRead (redirectsOf (list ++ [a])) tokens rest' := by
      rw [redirectsOf_append, redirectsOf_singleton]
      exact hs.trans hread.mayRead
    dsimp only at hread ⊢
    split
    · next hop =>
      obtain ⟨op, hop⟩ : ∃ op, headOp rest' = some op := by
        obtain hop | hop := hop
        · exact ⟨_, hop⟩
        · exact ⟨_, hop⟩
      have htail := reads_tail hop
      refine ⟨?_, htail.length_lt.trans hread.length_lt⟩
      simpa using hnext.trans htail.mayRead
    split
    · exact hnext
    · exact refusal_parseError _ _

theorem sequence_loop (hsub : SubReads sub) (tokens : List Token) :
    ∃ x, loop (sequenceStep sub) (tokens.length + 1) ([], tokens) = some x ∧
      Yields Refusal (fun s => MayRead (redirectsOf s.1) tokens s.2) x := by
  refine loop_yields (fun s => MayRead (redirectsOf s.1) tokens s.2) (·.2.length)
    (sequenceStep_yields hsub tokens) ?_ (Nat.lt_succ_self _)
  exact MayRead.refl tokens

end

theorem parseSequence_yields (room : ℕ) : SubReads (parseSequence room) := by
  induction room with
  | zero =>
    intro tokens
    simp [parseSequence, Yields, Refusal]
  | succ room ih =>
    intro tokens
    obtain ⟨x, hx, hyields⟩ := sequence_loop ih tokens
    rw [parseSequence, hx]
    exact Yields.bind hyields fun s hs => hs

/-- **The parser keeps every redirection**, and what it refuses is not supported. -/
theorem parse_yields (tokens : List Token) :
    Yields Refusal (fun ast => ast.redirects = redirectTokens tokens) (parse tokens) := by
  rw [parse]
  refine (parseSequence_yields _ tokens).bind ?_
  rintro ⟨ast, rest⟩ hread
  dsimp only at hread ⊢
  split
  · next hrest =>
    rw [isEmpty_iff.1 hrest] at hread
    have heq : redirectTokens tokens = ast.redirects ++ [] := hread.redirects_eq
    rw [append_nil] at heq
    exact heq.symm
  · exact refusal_parseError _ _

/-- A program that is not refused has the redirections of its tokens. -/
theorem parseProgram_yields (command : List Char) :
    Yields Refusal (fun ast => ∃ tokens, lex command = .ok tokens ∧
      ast.redirects = redirectTokens tokens) (parseProgram command) := by
  have hlex := (lex_yields command).2
  rw [parseProgram]
  cases h : lex command with
  | error e =>
    rw [h] at hlex
    exact hlex
  | ok tokens => exact (parse_yields tokens).mono fun ast hast => ⟨tokens, rfl, hast⟩

end Shell

end OpenBitFun
