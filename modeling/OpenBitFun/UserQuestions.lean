import Mathlib
import OpenBitFun.AssocMap
import OpenBitFun.Json

/-!
# The mailbox of user questions

Tools that ask the user something register here and wait (`user_questions.rs`). Every operation
holds the lock of the mailbox while it looks and changes, except that an answer is sent after the
lock is given back: `takeAnswer` is the part of `send_answer` under the lock. Tool ids are used
again, so what tells registrations apart is their number. The sender of a registration and the
watch of its flag are left to the registration's waiter; here the flag is what the watch holds.
Registrations are numbered from zero and every operation raises the revision by one at most, so
both counters are natural numbers: the `u64` in which the program keeps them does not fill up.
-/

namespace OpenBitFun

open List

namespace UserQuestions

/-! ## Data -/

/-- `PendingUserQuestion`. -/
structure PendingUserQuestion where
  toolId : String
  sessionId : String
  dialogTurnId : Option String
  modelRoundId : Option String
  questions : Json.Value
  registeredAtMs : ℕ
  interactionStarted : Bool

/-- `PendingUserQuestionSnapshot`. -/
structure PendingUserQuestionSnapshot where
  revision : ℕ
  questions : List PendingUserQuestion

/-- `UserInputSendError`. -/
inductive UserInputSendError where
  | missingChannel (toolId : String)
  | channelClosed (toolId : String)
  deriving DecidableEq, Repr

/-- `UserQuestionController`. -/
structure UserQuestionController where
  sessionId : String
  dialogTurnId : Option String
  deriving DecidableEq, Repr

/-- `PendingUserInput`. -/
structure PendingUserInput where
  question : Option PendingUserQuestion
  controllers : List UserQuestionController
  registrationSequence : ℕ
  interactionStarted : Bool

/-- `PendingUserInput::controlled_by`. -/
def PendingUserInput.controlledBy (p : PendingUserInput) (sessionId : String) : Bool :=
  p.question.any (·.sessionId == sessionId) || p.controllers.any (·.sessionId == sessionId)

/-- `UserInputState`; its watch always holds the revision. -/
structure UserInputState where
  pending : AssocMap String PendingUserInput
  nextRegistrationSequence : ℕ
  revision : ℕ

/-- `UserInputRegistration`: what the guard of a registration knows. -/
structure UserInputRegistration where
  toolId : String
  registrationSequence : ℕ
  deriving DecidableEq, Repr

namespace UserInputState

/-- `UserInputState::default`. -/
def default : UserInputState := ⟨∅, 0, 0⟩

/-- `bump_revision`. -/
def bumpRevision (s : UserInputState) : UserInputState := { s with revision := s.revision + 1 }

/-- Removes an entry under the lock. -/
def removePending (s : UserInputState) (toolId : String) : UserInputState :=
  { s with pending := s.pending.erase toolId }

/-! ## Operations -/

/-- `insert_pending`, up to the registration's number. -/
def insertPending (s : UserInputState) (toolId : String) (question : Option PendingUserQuestion)
    (controllers : List UserQuestionController) : UserInputState :=
  { s with
    nextRegistrationSequence := s.nextRegistrationSequence + 1
    pending := s.pending.insert toolId
      ⟨question, controllers, s.nextRegistrationSequence, false⟩ : UserInputState }.bumpRevision

/-- The question after the first interaction. -/
def startedQuestion (question : PendingUserQuestion) : PendingUserQuestion :=
  { question with
    interactionStarted := true
    questions :=
      match question.questions with
      | .object payload => .object (Json.insertField "responseDeadlineMs" .null payload)
      | questions => questions }

/-- `start_interaction`. -/
def startInteraction (s : UserInputState) (sessionId toolId : String) :
    Except UserInputSendError Unit × UserInputState :=
  match (s.pending.lookup toolId).filter (·.controlledBy sessionId) with
  | none => (.error (.missingChannel toolId), s)
  | some p =>
    if p.interactionStarted then (.ok (), s)
    else
      (.ok (), { s with
        pending := s.pending.insert toolId
          { p with
            interactionStarted := true
            question := p.question.map startedQuestion } : UserInputState }.bumpRevision)

/-- The part of `send_answer` under the lock. -/
def takeAnswer (s : UserInputState) (toolId : String) : Option PendingUserInput × UserInputState :=
  match s.pending.lookup toolId with
  | none => (none, s)
  | some p => (some p, (s.removePending toolId).bumpRevision)

/-- `cancel_for_session`. -/
def cancelForSession (s : UserInputState) (sessionId toolId : String) :
    Except UserInputSendError Unit × UserInputState :=
  if (s.pending.lookup toolId).any (·.controlledBy sessionId) then
    (.ok (), (s.removePending toolId).bumpRevision)
  else (.error (.missingChannel toolId), s)

/-- `cancel`. -/
def cancel (s : UserInputState) (toolId : String) : Bool × UserInputState :=
  if (s.pending.lookup toolId).isSome then (true, (s.removePending toolId).bumpRevision)
  else (false, s)

/-- `expire_if_unstarted`. -/
def expireIfUnstarted (s : UserInputState) (registration : UserInputRegistration) :
    Bool × UserInputState :=
  if (s.pending.lookup registration.toolId).any fun p =>
      p.registrationSequence == registration.registrationSequence && !p.interactionStarted then
    (true, (s.removePending registration.toolId).bumpRevision)
  else (false, s)

/-- Dropping the guard of a registration. -/
def dropRegistration (s : UserInputState) (registration : UserInputRegistration) :
    UserInputState :=
  if (s.pending.lookup registration.toolId).any fun p =>
      p.registrationSequence == registration.registrationSequence then
    (s.removePending registration.toolId).bumpRevision
  else s

/-! ## Reading the mailbox -/

/-- The entries; the program visits them in some order. -/
def values (s : UserInputState) : List PendingUserInput := s.pending.iter.map (·.2)

/-- The sessions that a question is shown in, each once. -/
def sessions (question : PendingUserQuestion) (controllers : List UserQuestionController) :
    List String :=
  (question.sessionId :: controllers.map (·.sessionId)).dedup

/-- `*counts.entry(session_id).or_default() += 1`. -/
def countSession (counts : AssocMap String ℕ) (sessionId : String) : AssocMap String ℕ :=
  counts.insert sessionId ((counts.lookup sessionId).getD 0 + 1)

/-- `pending_question_counts`, from the entries in the order in which they are visited. -/
def pendingQuestionCounts (visited : List PendingUserInput) : AssocMap String ℕ :=
  visited.foldl
    (fun counts p =>
      match p.question with
      | none => counts
      | some question => (sessions question p.controllers).foldl countSession counts)
    ∅

/-- A question as a session sees it; `hostNowMs` is the clock at that moment. -/
def questionFor (sessionId : String) (hostNowMs : ℕ) (p : PendingUserInput)
    (question : PendingUserQuestion) : PendingUserQuestion :=
  let question :=
    if (question.questions.get "responseDeadlineMs").isSome then
      -- a value that has a field is an object, so the assignment does not panic
      { question with
        questions := (question.questions.setIndex "responseHostNowMs"
          (.number (.int hostNowMs))).getD question.questions }
    else question
  if question.sessionId ≠ sessionId then
    match p.controllers.find? (·.sessionId == sessionId) with
    | some controller =>
      { question with
        sessionId := controller.sessionId
        dialogTurnId := controller.dialogTurnId
        modelRoundId := none }
    | none => question
  else question

/-- `pending_question_snapshot`, from the entries in the order in which they are visited. -/
def pendingQuestionSnapshot (s : UserInputState) (visited : List PendingUserInput)
    (sessionId : String) (hostNowMs : ℕ → ℕ) : PendingUserQuestionSnapshot :=
  let questions := visited.filterMap fun p =>
    if p.controlledBy sessionId then
      p.question.map fun question =>
        (p.registrationSequence,
          questionFor sessionId (hostNowMs p.registrationSequence) p question)
    else none
  ⟨s.revision, (questions.insertionSort fun left right => left.1 ≤ right.1).map (·.2)⟩

/-! ## Counting -/

variable {p : PendingUserInput} {visited visited' : List PendingUserInput} {sessionId : String}

theorem lookup_countSession (counts : AssocMap String ℕ) (sessionId sessionId' : String) :
    ((countSession counts sessionId).lookup sessionId').getD 0 =
      (counts.lookup sessionId').getD 0 + if sessionId' = sessionId then 1 else 0 := by
  rw [countSession, AssocMap.lookup_insert]
  split
  · rename_i hsession
    rw [hsession, Option.getD_some]
  · rfl

/-- Counting the sessions of one question. -/
theorem lookup_foldl_countSession {ids : List String} (hnodup : ids.Nodup)
    (counts : AssocMap String ℕ) :
    ((ids.foldl countSession counts).lookup sessionId).getD 0 =
      (counts.lookup sessionId).getD 0 + if sessionId ∈ ids then 1 else 0 := by
  induction ids generalizing counts with
  | nil => rfl
  | cons id ids ih =>
    rw [nodup_cons] at hnodup
    rw [foldl_cons, ih hnodup.2, lookup_countSession, Nat.add_assoc]
    congr 1
    by_cases hid : sessionId = id
    · rw [if_pos hid, if_neg (hid ▸ hnodup.1), if_pos (mem_cons.mpr (.inl hid))]
    · rw [if_neg hid, Nat.zero_add]
      simp only [mem_cons, hid, false_or]

/-- The entries that a session counts: questions that it controls. -/
def counted (sessionId : String) (p : PendingUserInput) : Bool :=
  p.question.isSome && p.controlledBy sessionId

theorem mem_sessions_iff {question : PendingUserQuestion} (h : p.question = some question) :
    sessionId ∈ sessions question p.controllers ↔ p.controlledBy sessionId = true := by
  rw [sessions, mem_dedup, mem_cons, PendingUserInput.controlledBy, h, Bool.or_eq_true,
    Option.any_some, beq_iff_eq, any_eq_true, mem_map]
  simp only [beq_iff_eq]
  exact or_congr_left eq_comm

theorem lookup_pendingQuestionCounts :
    ((pendingQuestionCounts visited).lookup sessionId).getD 0 =
      visited.countP (counted sessionId) := by
  have hfold : ∀ counts : AssocMap String ℕ,
      ((visited.foldl (fun counts p =>
        match p.question with
        | none => counts
        | some question => (sessions question p.controllers).foldl countSession counts)
        counts).lookup sessionId).getD 0 =
      (counts.lookup sessionId).getD 0 + visited.countP (counted sessionId) := by
    induction visited with
    | nil => exact fun _ => rfl
    | cons p visited ih =>
      intro counts
      rw [foldl_cons, ih, countP_cons, counted]
      cases hquestion : p.question with
      | none => simp
      | some question =>
        dsimp only
        rw [sessions, lookup_foldl_countSession (nodup_dedup _), ← sessions]
        simp only [Option.isSome_some, Bool.true_and, mem_sessions_iff hquestion]
        omega
  rw [pendingQuestionCounts, hfold]
  exact Nat.zero_add _

theorem length_pendingQuestionSnapshot (s : UserInputState) (hostNowMs : ℕ → ℕ) :
    (s.pendingQuestionSnapshot visited sessionId hostNowMs).questions.length =
      visited.countP (counted sessionId) := by
  rw [pendingQuestionSnapshot]
  dsimp only
  rw [length_map, length_insertionSort, length_filterMap_eq_countP]
  congr 1
  funext p
  rw [counted]
  cases hcontrolled : p.controlledBy sessionId with
  | true =>
    rw [if_pos rfl, Option.isSome_map, Bool.and_true]
  | false =>
    rw [if_neg Bool.false_ne_true, Bool.and_false]
    rfl

/-- **The counts are those of the snapshots**, whatever the order in which the entries are
visited. -/
theorem counts_eq_length_snapshot (s : UserInputState) (hvisited : visited.Perm s.values)
    (hvisited' : visited'.Perm s.values) (sessionId : String) (hostNowMs : ℕ → ℕ) :
    ((pendingQuestionCounts visited).lookup sessionId).getD 0 =
      (s.pendingQuestionSnapshot visited' sessionId hostNowMs).questions.length := by
  rw [lookup_pendingQuestionCounts, length_pendingQuestionSnapshot]
  exact (hvisited.trans hvisited'.symm).countP_eq _

end UserInputState

end UserQuestions

end OpenBitFun
