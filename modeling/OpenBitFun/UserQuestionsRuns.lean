import OpenBitFun.Run
import OpenBitFun.UserQuestions

/-!
# Runs of the user-question mailbox

The mailbox together with the tasks that wait for its answers. Each registration has a waiter with
the receiving end of its channel, and for questions a guard. The waiter of a question first waits
for the answer, the first interaction and the deadline at once (`selecting`), and then only for the
answer (`awaiting`). Steps of waiters, of the callers and of the thread that carries an answer to
its channel come in any order.

What has reached a registration is logged in its `history`: interactions, how it left the mailbox,
and the outcome of its waiter. One invariant says which histories there are, and it is proved for
one registration at a time, since an operation touches one registration and a new one.
-/

namespace OpenBitFun

open List

namespace UserQuestions

/-! ## Registrations -/

/-- `UserQuestionWaitOutcome`. -/
inductive UserQuestionWaitOutcome where
  | answered (answers : Json.Value)
  | cancelled
  | timedOut

/-- How a registration leaves the mailbox. -/
inductive Settlement where
  | answered (answers : Json.Value)
  | cancelled
  | replaced
  | expired
  | dropped

/-- What reaches a registration. -/
inductive Happening where
  | interaction
  | settled (how : Settlement)
  | outcome (outcome : UserQuestionWaitOutcome)

/-- The channel of a registration: an answer is taken out of the mailbox before it is sent. -/
inductive Channel where
  | waiting
  | taken (answers : Json.Value)
  | sent (answers : Json.Value)
  | closed

/-- Where the waiter of a registration is. -/
inductive Phase where
  | selecting
  | awaiting
  | finished
  | dropped
  deriving DecidableEq, Repr

/-- The receiver is still there. -/
def Phase.listens : Phase → Bool
  | .selecting | .awaiting => true
  | .finished | .dropped => false

/-- A registration, seen from its waiter. -/
structure Registration where
  toolId : String
  /-- the guard is still there -/
  guard : Bool
  channel : Channel
  phase : Phase
  history : List Happening

namespace Registration

/-- Logs an interaction. -/
def interact (r : Registration) : Registration :=
  { r with history := r.history ++ [.interaction] }

/-- The entry of the registration was removed. An answer is sent later, any other reason drops the
sender. -/
def settle (how : Settlement) (r : Registration) : Registration :=
  { r with
    channel :=
      match how with
      | .answered answers => .taken answers
      | _ => .closed
    history := r.history ++ [.settled how] }

/-- The waiter is done. -/
def finish (outcome : UserQuestionWaitOutcome) (r : Registration) : Registration :=
  { r with phase := .finished, history := r.history ++ [.outcome outcome] }

end Registration

/-- The mailbox and the registrations there were, by their numbers. -/
structure World where
  state : UserInputState
  registrations : AssocMap ℕ Registration

/-- The operations of callers and the steps of waiters. -/
inductive Operation where
  | registerQuestionWithControllers (question : PendingUserQuestion)
    (controllers : List UserQuestionController)
  | registerChannel (toolId : String)
  | startInteraction (sessionId toolId : String)
  | sendAnswer (toolId : String) (answers : Json.Value)
  /-- the rest of `send_answer`, after the lock -/
  | deliverAnswer (sequence : ℕ)
  | cancel (toolId : String)
  | cancelForSession (sessionId toolId : String)
  | seeResponse (sequence : ℕ)
  | seeInteraction (sequence : ℕ)
  | seeDeadline (sequence : ℕ)
  | dropReceiver (sequence : ℕ)
  | dropRegistration (sequence : ℕ)

/-- What a caller gets. -/
inductive Answer where
  | done
  | registered (sequence : ℕ)
  | taken (sequence : ℕ)
  | result (result : Except UserInputSendError Unit)
  | cancelled (removed : Bool)
  deriving DecidableEq

namespace World

/-- The world of a new manager. -/
def new : World := ⟨.default, ∅⟩

/-- Changes the registration of an entry. -/
def touch (w : World) (p? : Option PendingUserInput) (f : Registration → Registration) :
    AssocMap ℕ Registration :=
  match p? with
  | none => w.registrations
  | some p => w.registrations.modify p.registrationSequence f

/-- Registers under a tool id; an entry that is there is replaced, and its sender dropped. -/
def register (w : World) (toolId : String) (question : Option PendingUserQuestion)
    (controllers : List UserQuestionController) (guard : Bool) (phase : Phase) : Answer × World :=
  (.registered w.state.nextRegistrationSequence,
    { state := w.state.insertPending toolId question controllers
      registrations :=
        (w.touch (w.state.pending.lookup toolId) (Registration.settle .replaced)).insert
          w.state.nextRegistrationSequence ⟨toolId, guard, .waiting, phase, []⟩ })

/-- A step of the registration with a number. -/
def update (w : World) (sequence : ℕ) (f : Registration → Registration) : Answer × World :=
  (.done, { w with registrations := w.registrations.modify sequence f })

/-- The waiter gets what is in its channel. -/
def receive (r : Registration) : Registration :=
  match r.channel with
  | .sent answers => r.finish (.answered answers)
  | .closed => r.finish .cancelled
  | _ => r

/-- What an operation does. -/
def perform (w : World) : Operation → Answer × World
  | .registerQuestionWithControllers question controllers =>
    w.register question.toolId (some question) controllers true .selecting
  | .registerChannel toolId => w.register toolId none [] false .awaiting
  | .startInteraction sessionId toolId =>
    let outcome := w.state.startInteraction sessionId toolId
    (.result outcome.1,
      ⟨outcome.2, match outcome.1 with
        | .ok () => w.touch (w.state.pending.lookup toolId) Registration.interact
        | .error _ => w.registrations⟩)
  | .sendAnswer toolId answers =>
    let outcome := w.state.takeAnswer toolId
    (match outcome.1 with
      | none => .result (.error (.missingChannel toolId))
      | some p => .taken p.registrationSequence,
      ⟨outcome.2, w.touch outcome.1 (Registration.settle (.answered answers))⟩)
  | .deliverAnswer sequence =>
    match w.registrations.lookup sequence with
    | none => (.done, w)
    | some r =>
      match r.channel with
      | .taken answers =>
        if r.phase.listens then
          (.result (.ok ()), (w.update sequence fun r => { r with channel := .sent answers }).2)
        else
          (.result (.error (.channelClosed r.toolId)),
            (w.update sequence fun r => { r with channel := .closed }).2)
      | _ => (.done, w)
  | .cancel toolId =>
    let outcome := w.state.cancel toolId
    (.cancelled outcome.1,
      ⟨outcome.2, w.touch (w.state.pending.lookup toolId) (Registration.settle .cancelled)⟩)
  | .cancelForSession sessionId toolId =>
    let outcome := w.state.cancelForSession sessionId toolId
    (.result outcome.1,
      ⟨outcome.2, match outcome.1 with
        | .ok () => w.touch (w.state.pending.lookup toolId) (Registration.settle .cancelled)
        | .error _ => w.registrations⟩)
  | .seeResponse sequence => w.update sequence receive
  | .seeInteraction sequence => w.update sequence fun r => { r with phase := .awaiting }
  | .seeDeadline sequence =>
    match w.registrations.lookup sequence with
    | none => (.done, w)
    | some r =>
      let outcome := w.state.expireIfUnstarted ⟨r.toolId, sequence⟩
      (.done, ⟨outcome.2, w.registrations.modify sequence fun r =>
        if outcome.1 then (r.settle .expired).finish .timedOut
        else { r with phase := .awaiting }⟩)
  | .dropReceiver sequence => w.update sequence fun r => { r with phase := .dropped }
  | .dropRegistration sequence =>
    match w.registrations.lookup sequence with
    | none => (.done, w)
    | some r =>
      let owned := (w.state.pending.lookup r.toolId).filter (·.registrationSequence == sequence)
      (.done, ⟨w.state.dropRegistration ⟨r.toolId, sequence⟩,
        AssocMap.modify (w.touch owned (Registration.settle .dropped)) sequence
          fun r => { r with guard := false }⟩)

/-- The watch of a registration shows an interaction, or is closed with its entry. -/
def showsInteraction (w : World) (sequence : ℕ) (r : Registration) : Bool :=
  (w.state.pending.lookup r.toolId).all fun p =>
    p.registrationSequence != sequence || p.interactionStarted

/-- When a step can be taken. The waiter borrows the guard while it may still expire. -/
def enabled (w : World) : Operation → Bool
  | .deliverAnswer sequence => (w.registrations.lookup sequence).any fun r =>
    match r.channel with
    | .taken _ => true
    | _ => false
  | .seeResponse sequence => (w.registrations.lookup sequence).any fun r => r.phase.listens
  | .seeInteraction sequence => (w.registrations.lookup sequence).any fun r =>
    r.phase == .selecting && w.showsInteraction sequence r
  | .seeDeadline sequence => (w.registrations.lookup sequence).any fun r =>
    r.phase == .selecting && r.guard
  | .dropReceiver sequence => (w.registrations.lookup sequence).any fun r => r.phase.listens
  | .dropRegistration sequence => (w.registrations.lookup sequence).any fun r => r.guard
  | _ => true

/-- One step. -/
def Step (w : World) (call : Operation × Answer) (w' : World) : Prop :=
  w.enabled call.1 = true ∧ w.perform call.1 = (call.2, w')

end World

/-! ## Histories -/

/-- The outcome of a waiter fits the way its registration left the mailbox, after `k`
interactions. -/
inductive Agrees : ℕ → Settlement → UserQuestionWaitOutcome → Prop
  | answered (k : ℕ) (answers : Json.Value) : Agrees k (.answered answers) (.answered answers)
  | cancelled (k : ℕ) : Agrees k .cancelled .cancelled
  | replaced (k : ℕ) : Agrees k .replaced .cancelled
  | dropped (k : ℕ) : Agrees k .dropped .cancelled
  | expired : Agrees 0 .expired .timedOut

/-- The histories that registrations have. -/
inductive Lawful : List Happening → Prop
  | pending (k : ℕ) : Lawful (List.replicate k .interaction)
  | settled (k : ℕ) (how : Settlement) (hhow : how ≠ .expired) :
    Lawful (List.replicate k .interaction ++ [.settled how])
  | finished (k : ℕ) (how : Settlement) (outcome : UserQuestionWaitOutcome)
    (hagrees : Agrees k how outcome) :
    Lawful (List.replicate k .interaction ++ [.settled how, .outcome outcome])

/-- What is in the channel of a listening waiter whose registration has left. -/
def Settlement.Fits : Settlement → Channel → Prop
  | .answered answers, channel => channel = .taken answers ∨ channel = .sent answers
  | _, channel => channel = .closed

/-- The registration's own entry. -/
def UserInputState.entry (s : UserInputState) (n : ℕ) (toolId : String) :
    Option PendingUserInput :=
  (s.pending.lookup toolId).filter (·.registrationSequence == n)

/-- **The state of a registration**, next to its entry in the mailbox. -/
inductive Status (entry : Option PendingUserInput) (r : Registration) : Prop
  | pending (p : PendingUserInput) (k : ℕ) (hentry : entry = some p)
    (hstarted : p.interactionStarted = decide (0 < k)) (hchannel : r.channel = .waiting)
    (hphase : r.phase ≠ .finished) (hhistory : r.history = List.replicate k .interaction)
  | settled (k : ℕ) (how : Settlement) (hentry : entry = none) (hhow : how ≠ .expired)
    (hphase : r.phase ≠ .finished) (hchannel : r.phase.listens = true → how.Fits r.channel)
    (hhistory : r.history = List.replicate k .interaction ++ [.settled how])
  | finished (k : ℕ) (how : Settlement) (outcome : UserQuestionWaitOutcome)
    (hentry : entry = none) (hagrees : Agrees k how outcome) (hphase : r.phase = .finished)
    (hhistory : r.history =
      List.replicate k .interaction ++ [.settled how, .outcome outcome])

section Status

variable {entry : Option PendingUserInput} {r : Registration} {p : PendingUserInput}

theorem Status.lawful (h : Status entry r) : Lawful r.history := by
  cases h with
  | pending p k _ _ _ _ hhistory => exact hhistory ▸ .pending k
  | settled k how _ hhow _ _ hhistory => exact hhistory ▸ .settled k how hhow
  | finished k how outcome _ hagrees _ hhistory => exact hhistory ▸ .finished k how outcome hagrees

theorem Status.new (toolId : String) (guard : Bool) {phase : Phase} (hphase : phase ≠ .finished)
    (hstarted : p.interactionStarted = false) :
    Status (some p) ⟨toolId, guard, .waiting, phase, []⟩ :=
  .pending p 0 rfl hstarted rfl hphase rfl

/-- An interaction with a pending registration. -/
theorem Status.interact (h : Status (some p) r) {p' : PendingUserInput}
    (hstarted : p'.interactionStarted = true) : Status (some p') r.interact := by
  cases h with
  | pending _ k _ _ hchannel hphase hhistory =>
    refine .pending p' (k + 1) rfl (hstarted.trans (decide_eq_true (Nat.succ_pos k)).symm) hchannel
      hphase ?_
    rw [Registration.interact, hhistory, replicate_succ']
  | settled _ _ hentry => cases hentry
  | finished _ _ _ hentry => cases hentry

/-- A pending registration leaves the mailbox, with its waiter still waiting. -/
theorem Status.settle (h : Status (some p) r) {how : Settlement} (hhow : how ≠ .expired) :
    Status none (r.settle how) := by
  cases h with
  | pending _ k _ _ _ hphase hhistory =>
    refine .settled k how rfl hhow hphase (fun _ => ?_) (congrArg (· ++ [_]) hhistory)
    cases how with
    | answered answers => exact .inl rfl
    | expired => exact absurd rfl hhow
    | cancelled => rfl
    | replaced => rfl
    | dropped => rfl
  | settled _ _ hentry => cases hentry
  | finished _ _ _ hentry => cases hentry

/-- A pending registration without interaction expires. -/
theorem Status.expire (h : Status (some p) r) (hstarted : p.interactionStarted = false) :
    Status none ((r.settle .expired).finish .timedOut) := by
  cases h with
  | pending p' k hentry hstarted' _ _ hhistory =>
    cases hentry
    rw [hstarted, eq_comm, decide_eq_false_iff_not, Nat.not_lt, Nat.le_zero] at hstarted'
    subst hstarted'
    refine .finished 0 .expired .timedOut rfl .expired rfl ?_
    change r.history ++ _ ++ _ = _
    rw [hhistory]
    rfl
  | settled _ _ hentry => cases hentry
  | finished _ _ _ hentry => cases hentry

theorem Status.withGuard (h : Status entry r) (guard : Bool) :
    Status entry { r with guard := guard } := by
  cases h with
  | pending p k hentry hstarted hchannel hphase hhistory =>
    exact .pending p k hentry hstarted hchannel hphase hhistory
  | settled k how hentry hhow hphase hchannel hhistory =>
    exact .settled k how hentry hhow hphase hchannel hhistory
  | finished k how outcome hentry hagrees hphase hhistory =>
    exact .finished k how outcome hentry hagrees hphase hhistory

/-- A waiter that listens moves on, or is dropped. -/
theorem Status.withPhase (h : Status entry r) (hlistens : r.phase.listens = true) {phase : Phase}
    (hphase' : phase ≠ .finished) : Status entry { r with phase := phase } := by
  cases h with
  | pending p k hentry hstarted hchannel _ hhistory =>
    exact .pending p k hentry hstarted hchannel hphase' hhistory
  | settled k how hentry hhow _ hchannel hhistory =>
    exact .settled k how hentry hhow hphase' (fun _ => hchannel hlistens) hhistory
  | finished k how outcome hentry hagrees hphase hhistory =>
    rw [hphase] at hlistens
    cases hlistens

/-- A taken answer is sent to a waiter that listens. -/
theorem Status.send (h : Status entry r) {answers : Json.Value}
    (hchannel : r.channel = .taken answers) : Status entry { r with channel := .sent answers } := by
  cases h with
  | pending _ _ _ _ hwaiting =>
    rw [hchannel] at hwaiting
    cases hwaiting
  | settled k how hentry hhow hphase hfits hhistory =>
    refine .settled k how hentry hhow hphase (fun hlistens => ?_) hhistory
    have hfits := hfits hlistens
    rw [hchannel] at hfits
    cases how with
    | answered answers' =>
      rcases hfits with heq | heq <;> cases heq
      exact .inr rfl
    | expired => exact absurd rfl hhow
    | cancelled => cases hfits
    | replaced => cases hfits
    | dropped => cases hfits
  | finished k how outcome hentry hagrees hphase hhistory =>
    exact .finished k how outcome hentry hagrees hphase hhistory

/-- An answer comes back from a waiter that is gone. -/
theorem Status.close (h : Status entry r) {answers : Json.Value}
    (hchannel : r.channel = .taken answers) (hlistens : r.phase.listens = false) :
    Status entry { r with channel := .closed } := by
  cases h with
  | pending _ _ _ _ hwaiting =>
    rw [hchannel] at hwaiting
    cases hwaiting
  | settled k how hentry hhow hphase _ hhistory =>
    refine .settled k how hentry hhow hphase (fun hlistens' => ?_) hhistory
    rw [hlistens] at hlistens'
    cases hlistens'
  | finished k how outcome hentry hagrees hphase hhistory =>
    exact .finished k how outcome hentry hagrees hphase hhistory

/-- A listening waiter looks into its channel. -/
theorem Status.receive (h : Status entry r) (hlistens : r.phase.listens = true) :
    Status entry (World.receive r) := by
  cases h with
  | pending p k hentry hstarted hchannel hphase hhistory =>
    rw [World.receive, hchannel]
    exact .pending p k hentry hstarted hchannel hphase hhistory
  | settled k how hentry hhow hphase hfits hhistory =>
    have hsame := Status.settled k how hentry hhow hphase hfits hhistory
    have hfits := hfits hlistens
    have hfinish : ∀ outcome, Agrees k how outcome → Status entry (r.finish outcome) := by
      refine fun outcome hagrees => .finished k how outcome hentry hagrees rfl ?_
      rw [Registration.finish, hhistory, append_assoc]
      rfl
    rw [World.receive]
    cases how with
    | answered answers =>
      rcases hfits with hchannel | hchannel
      · rw [hchannel]
        exact hsame
      · rw [hchannel]
        exact hfinish _ (.answered k answers)
    | expired => exact absurd rfl hhow
    | cancelled =>
      rw [show r.channel = .closed from hfits]
      exact hfinish _ (.cancelled k)
    | replaced =>
      rw [show r.channel = .closed from hfits]
      exact hfinish _ (.replaced k)
    | dropped =>
      rw [show r.channel = .closed from hfits]
      exact hfinish _ (.dropped k)
  | finished _ _ _ _ _ hphase =>
    rw [hphase] at hlistens
    cases hlistens

end Status

/-! ## The invariant -/

namespace World

variable {w w' : World} {r : Registration} {p : PendingUserInput} {n : ℕ} {toolId : String}

/-- **The invariant of the world.** -/
structure Inv (w : World) : Prop where
  /-- an entry belongs to a registration -/
  pending : ∀ toolId p, w.state.pending.lookup toolId = some p →
    ∃ r, w.registrations.lookup p.registrationSequence = some r ∧ r.toolId = toolId
  /-- registrations are numbered in order -/
  fresh : ∀ n r, w.registrations.lookup n = some r → n < w.state.nextRegistrationSequence
  status : ∀ n r, w.registrations.lookup n = some r → Status (w.state.entry n r.toolId) r

theorem inv_new : Inv new where
  pending := nofun
  fresh := nofun
  status := nofun

theorem Inv.sequence_lt (h : w.Inv) (hp : w.state.pending.lookup toolId = some p) :
    p.registrationSequence < w.state.nextRegistrationSequence := by
  obtain ⟨r, hr, -⟩ := h.pending toolId p hp
  exact h.fresh _ r hr

/-- The entry under a registration's tool id is its own if it has its number. -/
theorem entry_of_lookup (hp : w.state.pending.lookup toolId = some p) :
    w.state.entry p.registrationSequence toolId = some p := by
  rw [UserInputState.entry, hp, Option.filter_some, if_pos (beq_self_eq_true _)]

theorem entry_eq_none (h : ∀ p, w.state.pending.lookup toolId = some p →
    p.registrationSequence ≠ n) : w.state.entry n toolId = none := by
  rw [UserInputState.entry, Option.filter_eq_none_iff]
  intro p hp hsequence
  exact h p hp (eq_of_beq hsequence)

/-- The invariant reads the mailbox through lookups. -/
theorem Inv.congr (h : w.Inv) {s : UserInputState}
    (hlookup : ∀ toolId, s.pending.lookup toolId = w.state.pending.lookup toolId)
    (hnext : s.nextRegistrationSequence = w.state.nextRegistrationSequence) :
    Inv ⟨s, w.registrations⟩ := by
  refine ⟨fun toolId p hp => h.pending toolId p ((hlookup toolId).symm.trans hp),
    fun n r hr => ?_, fun n r hr => ?_⟩
  · rw [hnext]
    exact h.fresh n r hr
  · rw [UserInputState.entry, hlookup]
    exact h.status n r hr

/-- **A change of one registration and its entry.** -/
theorem Inv.modify (h : w.Inv) (hr : w.registrations.lookup n = some r) {s : UserInputState}
    {f : Registration → Registration}
    (hpending : ∀ toolId p, s.pending.lookup toolId = some p →
      ∃ p', w.state.pending.lookup toolId = some p' ∧
        p'.registrationSequence = p.registrationSequence)
    (hentry : ∀ m toolId, m ≠ n → s.entry m toolId = w.state.entry m toolId)
    (hnext : s.nextRegistrationSequence = w.state.nextRegistrationSequence)
    (htool : (f r).toolId = r.toolId) (hstatus : Status (s.entry n r.toolId) (f r)) :
    Inv ⟨s, w.registrations.modify n f⟩ := by
  have hlookup : ∀ m r', (AssocMap.modify w.registrations n f).lookup m = some r' →
      m = n ∧ r' = f r ∨ m ≠ n ∧ w.registrations.lookup m = some r' := by
    intro m r' hr'
    rw [AssocMap.lookup_modify, hr, Option.map_some] at hr'
    split at hr'
    · rename_i hm
      exact .inl ⟨hm, (Option.some.inj hr').symm⟩
    · rename_i hm
      exact .inr ⟨hm, hr'⟩
  refine ⟨fun toolId p hp => ?_, fun m r' hr' => ?_, fun m r' hr' => ?_⟩
  · obtain ⟨p', hp', hsequence⟩ := hpending toolId p hp
    obtain ⟨r', hr', htool'⟩ := h.pending toolId p' hp'
    rw [hsequence] at hr'
    rw [AssocMap.lookup_modify, hr]
    split
    · rename_i hm
      rw [hm, hr, Option.some_inj] at hr'
      subst hr'
      exact ⟨f r, rfl, htool.trans htool'⟩
    · exact ⟨r', hr', htool'⟩
  · rw [hnext]
    rcases hlookup m r' hr' with ⟨rfl, -⟩ | ⟨-, hr'⟩
    · exact h.fresh m r hr
    · exact h.fresh m r' hr'
  · rcases hlookup m r' hr' with ⟨rfl, rfl⟩ | ⟨hm, hr'⟩
    · rw [htool]
      exact hstatus
    · rw [hentry m _ hm]
      exact h.status m r' hr'

/-- A step of one registration, with the mailbox as it is. -/
theorem Inv.update (h : w.Inv) (hr : w.registrations.lookup n = some r)
    {f : Registration → Registration} (htool : (f r).toolId = r.toolId)
    (hstatus : Status (w.state.entry n r.toolId) (f r)) : Inv (w.update n f).2 :=
  h.modify hr (fun _ p hp => ⟨p, hp, rfl⟩) (fun _ _ _ => rfl) rfl htool hstatus

/-- **An entry is removed**, and its registration told. -/
theorem Inv.remove (h : w.Inv) (hp : w.state.pending.lookup toolId = some p)
    {f : Registration → Registration} (htool : ∀ r, (f r).toolId = r.toolId)
    (hstatus : ∀ r, Status (some p) r → Status none (f r)) :
    Inv ⟨w.state.removePending toolId, w.registrations.modify p.registrationSequence f⟩ := by
  obtain ⟨r, hr, rfl⟩ := h.pending toolId p hp
  have hlookup : ∀ toolId, (w.state.removePending r.toolId).pending.lookup toolId =
      if toolId = r.toolId then none else w.state.pending.lookup toolId := fun toolId =>
    AssocMap.lookup_erase _ _ _
  refine h.modify hr (fun toolId p' hp' => ?_) (fun m toolId hm => ?_) rfl (htool r) ?_
  · rw [hlookup] at hp'
    split at hp'
    · cases hp'
    · exact ⟨p', hp', rfl⟩
  · rw [UserInputState.entry, hlookup]
    split
    · rename_i heq
      rw [heq]
      refine (entry_eq_none fun p' hp' => ?_).symm
      rw [hp, Option.some_inj] at hp'
      rw [← hp']
      exact hm.symm
    · rfl
  · have hnone : (w.state.removePending r.toolId).entry p.registrationSequence r.toolId = none := by
      rw [UserInputState.entry, hlookup, if_pos rfl]
      rfl
    rw [hnone]
    have hself := h.status _ r hr
    rw [entry_of_lookup hp] at hself
    exact hstatus r hself

/-- A registration under a tool id that is free. -/
theorem Inv.insertNew (h : w.Inv) (hnone : w.state.pending.lookup toolId = none)
    (hp : p.registrationSequence = w.state.nextRegistrationSequence)
    (hstarted : p.interactionStarted = false) (guard : Bool) {phase : Phase}
    (hphase : phase ≠ .finished) {s : UserInputState}
    (hlookup : ∀ toolId', s.pending.lookup toolId' =
      if toolId' = toolId then some p else w.state.pending.lookup toolId')
    (hnext : s.nextRegistrationSequence = w.state.nextRegistrationSequence + 1) :
    Inv ⟨s, w.registrations.insert w.state.nextRegistrationSequence
      ⟨toolId, guard, .waiting, phase, []⟩⟩ := by
  refine ⟨fun toolId' p' hp' => ?_, fun n r hr => ?_, fun n r hr => ?_⟩
  · rw [hlookup] at hp'
    rw [AssocMap.lookup_insert]
    split at hp'
    · rename_i heq
      cases hp'
      rw [if_pos hp]
      exact ⟨_, rfl, heq.symm⟩
    · obtain ⟨r, hr, htool⟩ := h.pending toolId' p' hp'
      rw [if_neg (h.fresh _ r hr).ne]
      exact ⟨r, hr, htool⟩
  · rw [hnext]
    rw [AssocMap.lookup_insert] at hr
    split at hr
    · rename_i heq
      rw [heq]
      exact Nat.lt_succ_self _
    · exact Nat.lt_succ_of_lt (h.fresh n r hr)
  · rw [AssocMap.lookup_insert] at hr
    split at hr
    · rename_i heq
      cases hr
      have hself : s.entry n toolId = some p := by
        rw [UserInputState.entry, hlookup, if_pos rfl, Option.filter_some, if_pos]
        rw [hp, heq]
        exact beq_self_eq_true _
      rw [hself]
      exact .new toolId guard hphase hstarted
    · rename_i hne
      have hsame : s.entry n r.toolId = w.state.entry n r.toolId := by
        rw [UserInputState.entry, hlookup]
        split
        · rename_i heq
          rw [UserInputState.entry, heq, hnone, Option.filter_none, Option.filter_some, if_neg]
          rw [hp]
          exact fun hsequence => hne (eq_of_beq hsequence).symm
        · rfl
      rw [hsame]
      exact h.status n r hr

/-! ## The step lemma -/

theorem Inv.register (h : w.Inv) (toolId : String) (question : Option PendingUserQuestion)
    (controllers : List UserQuestionController) (guard : Bool) {phase : Phase}
    (hphase : phase ≠ .finished) :
    (w.register toolId question controllers guard phase).2.Inv := by
  let entry : PendingUserInput :=
    ⟨question, controllers, w.state.nextRegistrationSequence, false⟩
  have hinsert : ∀ toolId', (w.state.insertPending toolId question controllers).pending.lookup
      toolId' = if toolId' = toolId then some entry else w.state.pending.lookup toolId' :=
    fun toolId' => AssocMap.lookup_insert _ _ _ _
  cases hlookup : w.state.pending.lookup toolId with
  | none =>
    have hnew := h.insertNew hlookup (p := entry) rfl rfl guard hphase hinsert rfl
    rw [World.register, hlookup]
    exact hnew
  | some p =>
    -- the entry that is replaced leaves first
    have hremoved := h.remove hlookup (f := Registration.settle .replaced) (fun _ => rfl)
      fun r hr => hr.settle (nofun)
    have herase : ∀ toolId', (w.state.removePending toolId).pending.lookup toolId' =
        if toolId' = toolId then none else w.state.pending.lookup toolId' := fun toolId' =>
      AssocMap.lookup_erase _ _ _
    have hnone : (w.state.removePending toolId).pending.lookup toolId = none :=
      (herase toolId).trans (if_pos rfl)
    have hinsert' : ∀ toolId',
        (w.state.insertPending toolId question controllers).pending.lookup toolId' =
          if toolId' = toolId then some entry
          else (w.state.removePending toolId).pending.lookup toolId' := by
      intro toolId'
      rw [hinsert, herase]
      split <;> rfl
    have hnew := hremoved.insertNew hnone (p := entry) rfl rfl guard hphase hinsert' rfl
    rw [World.register, hlookup]
    exact hnew

/-- An interaction with the entry of a tool. -/
theorem Inv.startInteraction (h : w.Inv) (sessionId toolId : String) :
    (w.perform (.startInteraction sessionId toolId)).2.Inv := by
  rw [perform, UserInputState.startInteraction]
  cases hfilter : (w.state.pending.lookup toolId).filter (·.controlledBy sessionId) with
  | none => exact h
  | some p =>
    have hlookup := (Option.filter_eq_some_iff.mp hfilter).1
    obtain ⟨r, hr, rfl⟩ := h.pending toolId p hlookup
    have hstatus := h.status _ r hr
    rw [entry_of_lookup hlookup] at hstatus
    dsimp only
    rw [hlookup]
    split
    · rename_i hstarted
      refine h.update hr rfl ?_
      rw [entry_of_lookup hlookup]
      exact hstatus.interact hstarted
    · let started : PendingUserInput :=
        { p with
          interactionStarted := true
          question := p.question.map UserInputState.startedQuestion }
      have hinsert : ∀ toolId', AList.lookup toolId' (w.state.pending.insert r.toolId started) =
          if toolId' = r.toolId then some started else w.state.pending.lookup toolId' :=
        fun toolId' => AssocMap.lookup_insert _ _ _ _
      refine h.modify hr (fun toolId p' hp' => ?_) (fun m toolId hm => ?_) rfl rfl ?_
      · change AList.lookup toolId (w.state.pending.insert r.toolId started) = _ at hp'
        rw [hinsert] at hp'
        split at hp'
        · rename_i heq
          cases hp'
          exact ⟨p, heq ▸ hlookup, rfl⟩
        · exact ⟨p', hp', rfl⟩
      · change Option.filter _ (AList.lookup toolId (w.state.pending.insert r.toolId started)) = _
        rw [hinsert, UserInputState.entry]
        split
        · rename_i heq
          rw [heq, hlookup, Option.filter_some, Option.filter_some]
          have hne : (p.registrationSequence == m) = false := beq_false_of_ne hm.symm
          rw [if_neg (by rw [hne]; exact Bool.false_ne_true),
            if_neg (by rw [hne]; exact Bool.false_ne_true)]
        · rfl
      · have hself : Option.filter (·.registrationSequence == p.registrationSequence)
            (AList.lookup r.toolId (w.state.pending.insert r.toolId started)) = some started := by
          rw [hinsert, if_pos rfl, Option.filter_some, if_pos (beq_self_eq_true _)]
        change Status (Option.filter _ (AList.lookup r.toolId (w.state.pending.insert r.toolId
          started))) _
        rw [hself]
        exact hstatus.interact rfl

/-- An entry that leaves with its waiter still waiting. -/
theorem Inv.settle (h : w.Inv) (hp : w.state.pending.lookup toolId = some p) (how : Settlement)
    (hhow : how ≠ .expired) :
    Inv ⟨(w.state.removePending toolId).bumpRevision,
      w.registrations.modify p.registrationSequence (Registration.settle how)⟩ :=
  (h.remove hp (f := Registration.settle how) (fun _ => rfl) fun _ hr => hr.settle hhow).congr
    (fun _ => rfl) rfl

theorem Inv.deliverAnswer (h : w.Inv) (n : ℕ) : (w.perform (.deliverAnswer n)).2.Inv := by
  rw [perform]
  cases hr : w.registrations.lookup n with
  | none => exact h
  | some r =>
    cases hchannel : r.channel with
    | taken answers =>
      cases hlistens : r.phase.listens with
      | true =>
        simp only [hchannel, hlistens]
        exact h.update hr (f := fun r => { r with channel := .sent answers }) rfl
          ((h.status n r hr).send hchannel)
      | false =>
        simp only [hchannel, hlistens]
        exact h.update hr (f := fun r => { r with channel := .closed }) rfl
          ((h.status n r hr).close hchannel hlistens)
    | waiting => simpa only [hchannel] using h
    | sent answers => simpa only [hchannel] using h
    | closed => simpa only [hchannel] using h

theorem receive_toolId (r : Registration) : (receive r).toolId = r.toolId := by
  rw [receive]
  split <;> rfl

/-- The deadline of a waiter that selects. -/
theorem Inv.seeDeadline (h : w.Inv) (hr : w.registrations.lookup n = some r)
    (hselecting : r.phase = .selecting) : (w.perform (.seeDeadline n)).2.Inv := by
  have hlistens : r.phase.listens = true := hselecting ▸ rfl
  rw [perform, hr]
  dsimp only
  have hawait : Inv (w.update n fun r => { r with phase := .awaiting }).2 :=
    h.update hr (f := fun r => { r with phase := .awaiting }) rfl
      ((h.status n r hr).withPhase hlistens nofun)
  rw [UserInputState.expireIfUnstarted]
  cases hp : w.state.pending.lookup r.toolId with
  | none => exact hawait
  | some p =>
    rw [Option.any_some]
    by_cases hown : (p.registrationSequence == n && !p.interactionStarted) = true
    · rw [if_pos hown]
      rw [Bool.and_eq_true, beq_iff_eq, Bool.not_eq_true'] at hown
      obtain ⟨rfl, hstarted⟩ := hown
      exact (h.remove hp (f := fun r => (r.settle .expired).finish .timedOut) (fun _ => rfl)
        fun r hr => hr.expire hstarted).congr (fun _ => rfl) rfl
    · rw [if_neg hown]
      exact hawait

/-- The guard of a registration is dropped. -/
theorem Inv.dropRegistration (h : w.Inv) (n : ℕ) : (w.perform (.dropRegistration n)).2.Inv := by
  have hguard : ∀ {w : World}, w.Inv → ∀ n, Inv (w.update n fun r => { r with guard := false }).2 :=
    fun {w} h n => by
      cases hr : w.registrations.lookup n with
      | none =>
        rw [World.update, AssocMap.modify, hr]
        exact h
      | some r =>
        exact h.update hr (f := fun r => { r with guard := false }) rfl
          ((h.status n r hr).withGuard false)
  rw [perform]
  cases hr : w.registrations.lookup n with
  | none => exact h
  | some r =>
    dsimp only
    rw [UserInputState.dropRegistration]
    cases hp : w.state.pending.lookup r.toolId with
    | none => exact hguard h n
    | some p =>
      rw [Option.any_some, Option.filter_some]
      by_cases hsequence : (p.registrationSequence == n) = true
      · rw [if_pos hsequence, if_pos hsequence]
        exact hguard (h.settle hp .dropped (by simp)) n
      · rw [if_neg hsequence, if_neg hsequence]
        exact hguard h n

/-- **The step lemma.** -/
theorem Inv.step (h : w.Inv) {call : Operation × Answer} (hstep : Step w call w') : w'.Inv := by
  obtain ⟨operation, answer⟩ := call
  obtain ⟨henabled, hperform⟩ := hstep
  have hw' : w' = (w.perform operation).2 := (congrArg Prod.snd hperform).symm
  rw [hw']
  have hlistening : ∀ n, (w.registrations.lookup n).any (fun r => r.phase.listens) = true →
      ∃ r, w.registrations.lookup n = some r ∧ r.phase.listens = true := fun n hany => by
    cases hr : w.registrations.lookup n with
    | none => rw [hr] at hany; cases hany
    | some r => rw [hr] at hany; exact ⟨r, rfl, hany⟩
  have hselecting : ∀ n (test : Registration → Bool), (w.registrations.lookup n).any
      (fun r => r.phase == .selecting && test r) = true →
      ∃ r, w.registrations.lookup n = some r ∧ r.phase = .selecting := fun n test hany => by
    cases hr : w.registrations.lookup n with
    | none => rw [hr] at hany; cases hany
    | some r =>
      rw [hr, Option.any_some, Bool.and_eq_true, beq_iff_eq] at hany
      exact ⟨r, rfl, hany.1⟩
  cases operation with
  | registerQuestionWithControllers question controllers => exact h.register _ _ _ _ nofun
  | registerChannel toolId => exact h.register _ _ _ _ nofun
  | startInteraction sessionId toolId => exact h.startInteraction sessionId toolId
  | sendAnswer toolId answers =>
    rw [perform, UserInputState.takeAnswer]
    cases hp : w.state.pending.lookup toolId with
    | none => exact h
    | some p => exact h.settle hp _ nofun
  | deliverAnswer n => exact h.deliverAnswer n
  | cancel toolId =>
    rw [perform, UserInputState.cancel]
    cases hp : w.state.pending.lookup toolId with
    | none => exact h
    | some p => exact h.settle hp _ nofun
  | cancelForSession sessionId toolId =>
    rw [perform, UserInputState.cancelForSession]
    cases hp : w.state.pending.lookup toolId with
    | none => exact h
    | some p =>
      rw [Option.any_some]
      cases hcontrolled : p.controlledBy sessionId with
      | true => exact h.settle hp _ nofun
      | false => exact h
  | seeResponse n =>
    obtain ⟨r, hr, hlistens⟩ := hlistening n henabled
    exact h.update hr (receive_toolId r) ((h.status n r hr).receive hlistens)
  | seeInteraction n =>
    obtain ⟨r, hr, hphase⟩ := hselecting n _ henabled
    exact h.update hr (f := fun r => { r with phase := .awaiting }) rfl
      ((h.status n r hr).withPhase (hphase ▸ rfl) nofun)
  | seeDeadline n =>
    obtain ⟨r, hr, hphase⟩ := hselecting n _ henabled
    exact h.seeDeadline hr hphase
  | dropReceiver n =>
    obtain ⟨r, hr, hlistens⟩ := hlistening n henabled
    exact h.update hr (f := fun r => { r with phase := .dropped }) rfl
      ((h.status n r hr).withPhase hlistens nofun)
  | dropRegistration n => exact h.dropRegistration n

theorem Inv.run (h : w.Inv) {tr : List (Operation × Answer)} (hrun : Run Step w tr w') : w'.Inv :=
  hrun.invariant h fun _ _ _ h hstep => h.step hstep

/-! ## Histories grow -/

/-- Registrations stay, and their histories grow. -/
def Grows (m m' : AssocMap ℕ Registration) : Prop :=
  ∀ n r, m.lookup n = some r → ∃ r', m'.lookup n = some r' ∧ r'.toolId = r.toolId ∧
    r.history <+: r'.history

/-- A change that only adds to the history. -/
def Extends (f : Registration → Registration) : Prop :=
  ∀ r, (f r).toolId = r.toolId ∧ r.history <+: (f r).history

theorem Grows.refl (m : AssocMap ℕ Registration) : Grows m m :=
  fun _ r hr => ⟨r, hr, rfl, prefix_rfl⟩

theorem Grows.trans {m₁ m₂ m₃ : AssocMap ℕ Registration} (h : Grows m₁ m₂) (h' : Grows m₂ m₃) :
    Grows m₁ m₃ := by
  intro n r hr
  obtain ⟨r', hr', htool, hpre⟩ := h n r hr
  obtain ⟨r'', hr'', htool', hpre'⟩ := h' n r' hr'
  exact ⟨r'', hr'', htool'.trans htool, hpre.trans hpre'⟩

theorem Grows.modify {f : Registration → Registration} (hf : Extends f)
    (m : AssocMap ℕ Registration) (n : ℕ) : Grows m (m.modify n f) := by
  intro k r hr
  rw [AssocMap.lookup_modify]
  split
  · rename_i heq
    rw [← heq, hr]
    exact ⟨f r, rfl, (hf r).1, (hf r).2⟩
  · exact ⟨r, hr, rfl, prefix_rfl⟩

theorem Grows.touch {f : Registration → Registration} (hf : Extends f) (w : World)
    (p? : Option PendingUserInput) : Grows w.registrations (w.touch p? f) := by
  cases p? with
  | none => exact .refl _
  | some p => exact .modify hf _ _

theorem Extends.settle (how : Settlement) : Extends (Registration.settle how) :=
  fun _ => ⟨rfl, prefix_append _ _⟩

theorem Extends.interact : Extends Registration.interact :=
  fun _ => ⟨rfl, prefix_append _ _⟩

theorem Extends.receive : Extends receive := by
  intro r
  refine ⟨receive_toolId r, ?_⟩
  rw [World.receive]
  split
  · exact prefix_append _ _
  · exact prefix_append _ _
  · exact prefix_rfl

theorem Extends.of_eq {f : Registration → Registration}
    (hf : ∀ r, (f r).toolId = r.toolId ∧ (f r).history = r.history) : Extends f :=
  fun r => ⟨(hf r).1, (hf r).2 ▸ prefix_rfl⟩

theorem Inv.grows_register (h : w.Inv) (toolId : String) (question : Option PendingUserQuestion)
    (controllers : List UserQuestionController) (guard : Bool) (phase : Phase) :
    Grows w.registrations (w.register toolId question controllers guard phase).2.registrations := by
  have htouch := Grows.touch (.settle .replaced) w (w.state.pending.lookup toolId)
  intro n r hr
  obtain ⟨r', hr', hgrows⟩ := htouch n r hr
  refine ⟨r', ?_, hgrows⟩
  rw [World.register]
  dsimp only
  rw [AssocMap.lookup_insert, if_neg (h.fresh n r hr).ne]
  exact hr'

theorem Inv.grows (h : w.Inv) {call : Operation × Answer} (hstep : Step w call w') :
    Grows w.registrations w'.registrations := by
  obtain ⟨operation, answer⟩ := call
  have hw' : w' = (w.perform operation).2 := (congrArg Prod.snd hstep.2).symm
  rw [hw']
  have hkept : ∀ f : Registration → Registration,
      (∀ r, (f r).toolId = r.toolId ∧ (f r).history = r.history) → ∀ n,
      Grows w.registrations (w.update n f).2.registrations :=
    fun f hf n => .modify (.of_eq hf) _ _
  cases operation with
  | registerQuestionWithControllers question controllers => exact h.grows_register _ _ _ _ _
  | registerChannel toolId => exact h.grows_register _ _ _ _ _
  | startInteraction sessionId toolId =>
    rw [perform]
    dsimp only
    split
    · exact .touch .interact w _
    · exact .refl _
  | sendAnswer toolId answers => exact .touch (.settle _) w _
  | deliverAnswer n =>
    rw [perform]
    split
    · exact .refl _
    · split
      · split
        · refine hkept _ (fun _ => ?_) n
          exact ⟨rfl, rfl⟩
        · refine hkept _ (fun _ => ?_) n
          exact ⟨rfl, rfl⟩
      · exact .refl _
  | cancel toolId => exact .touch (.settle _) w _
  | cancelForSession sessionId toolId =>
    rw [perform]
    dsimp only
    split
    · exact .touch (.settle _) w _
    · exact .refl _
  | seeResponse n => exact .modify .receive _ _
  | seeInteraction n =>
    refine hkept _ (fun _ => ?_) n
    exact ⟨rfl, rfl⟩
  | seeDeadline n =>
    rw [perform]
    split
    · exact .refl _
    · refine .modify (fun r => ?_) _ _
      split
      · exact ⟨rfl, (prefix_append _ _).trans (prefix_append _ _)⟩
      · exact ⟨rfl, prefix_rfl⟩
  | dropReceiver n =>
    refine hkept _ (fun _ => ?_) n
    exact ⟨rfl, rfl⟩
  | dropRegistration n =>
    rw [perform]
    split
    · exact .refl _
    · refine (Grows.touch (.settle .dropped) w _).trans (.modify (.of_eq fun _ => ?_) _ _)
      exact ⟨rfl, rfl⟩

theorem Inv.grows_run (h : w.Inv) {tr : List (Operation × Answer)} (hrun : Run Step w tr w') :
    Grows w.registrations w'.registrations := by
  have hboth : w'.Inv ∧ Grows w.registrations w'.registrations :=
    hrun.invariant (P := fun w' => w'.Inv ∧ Grows w.registrations w'.registrations) ⟨h, .refl _⟩
      fun _ _ _ ⟨hinv, hgrows⟩ hstep => ⟨hinv.step hstep, hgrows.trans (hinv.grows hstep)⟩
  exact hboth.2

/-! ## The revision -/

/-- What observers of the mailbox can see under a tool id: whose entry it is, and the flag. -/
def view (s : UserInputState) (toolId : String) : Option (ℕ × Bool) :=
  (s.pending.lookup toolId).map fun p => (p.registrationSequence, p.interactionStarted)

/-- The revision is raised exactly with a change of the view. -/
def Revises (s s' : UserInputState) : Prop :=
  s' = s ∨ s'.revision = s.revision + 1 ∧ view s' ≠ view s

theorem revises_remove (hp : w.state.pending.lookup toolId = some p) :
    Revises w.state (w.state.removePending toolId).bumpRevision := by
  refine .inr ⟨rfl, fun heq => ?_⟩
  have hat := congrFun heq toolId
  have hafter : (w.state.removePending toolId).bumpRevision.pending.lookup toolId = none :=
    (AssocMap.lookup_erase _ _ _).trans (if_pos rfl)
  rw [view, view, hafter, hp] at hat
  cases hat

theorem Inv.revises_insert (h : w.Inv) (toolId : String) (question : Option PendingUserQuestion)
    (controllers : List UserQuestionController) :
    Revises w.state (w.state.insertPending toolId question controllers) := by
  refine .inr ⟨rfl, fun heq => ?_⟩
  have hat := congrFun heq toolId
  have hafter : (w.state.insertPending toolId question controllers).pending.lookup toolId =
      some ⟨question, controllers, w.state.nextRegistrationSequence, false⟩ :=
    (AssocMap.lookup_insert _ _ _ _).trans (if_pos rfl)
  rw [view, view, hafter] at hat
  obtain ⟨p, hp, hsame⟩ := Option.map_eq_some_iff.mp hat.symm
  -- the new number is not the one of the entry before
  exact (h.sequence_lt hp).ne (congrArg Prod.fst hsame)

theorem Inv.revises (h : w.Inv) {call : Operation × Answer} (hstep : Step w call w') :
    Revises w.state w'.state := by
  obtain ⟨operation, answer⟩ := call
  have hw' : w' = (w.perform operation).2 := (congrArg Prod.snd hstep.2).symm
  rw [hw']
  cases operation with
  | registerQuestionWithControllers question controllers => exact h.revises_insert _ _ _
  | registerChannel toolId => exact h.revises_insert _ _ _
  | startInteraction sessionId toolId =>
    rw [perform, UserInputState.startInteraction]
    cases hfilter : (w.state.pending.lookup toolId).filter (·.controlledBy sessionId) with
    | none => exact .inl rfl
    | some p =>
      have hlookup := (Option.filter_eq_some_iff.mp hfilter).1
      dsimp only
      split
      · exact .inl rfl
      · rename_i hstarted
        refine .inr ⟨rfl, fun heq => hstarted ?_⟩
        have hat := congrFun heq toolId
        have hafter := AssocMap.lookup_insert w.state.pending toolId toolId
          { p with
            interactionStarted := true
            question := p.question.map UserInputState.startedQuestion }
        rw [if_pos rfl] at hafter
        rw [view, view, UserInputState.bumpRevision, hafter, hlookup, Option.map_some,
          Option.map_some, Option.some_inj] at hat
        exact (congrArg Prod.snd hat).symm
  | sendAnswer toolId answers =>
    rw [perform, UserInputState.takeAnswer]
    cases hp : w.state.pending.lookup toolId with
    | none => exact .inl rfl
    | some p => exact revises_remove hp
  | deliverAnswer n =>
    rw [perform]
    split
    · exact .inl rfl
    · split
      · split
        · exact .inl rfl
        · exact .inl rfl
      · exact .inl rfl
  | cancel toolId =>
    rw [perform, UserInputState.cancel]
    cases hp : w.state.pending.lookup toolId with
    | none => exact .inl rfl
    | some p => exact revises_remove hp
  | cancelForSession sessionId toolId =>
    rw [perform, UserInputState.cancelForSession]
    cases hp : w.state.pending.lookup toolId with
    | none => exact .inl rfl
    | some p =>
      rw [Option.any_some]
      cases hcontrolled : p.controlledBy sessionId with
      | true => exact revises_remove hp
      | false => exact .inl rfl
  | seeResponse n => exact .inl rfl
  | seeInteraction n => exact .inl rfl
  | seeDeadline n =>
    rw [perform]
    split
    · exact .inl rfl
    · rename_i r hr
      dsimp only
      rw [UserInputState.expireIfUnstarted]
      cases hp : w.state.pending.lookup r.toolId with
      | none => exact .inl rfl
      | some p =>
        rw [Option.any_some]
        split
        · exact revises_remove hp
        · exact .inl rfl
  | dropReceiver n => exact .inl rfl
  | dropRegistration n =>
    rw [perform]
    split
    · exact .inl rfl
    · rename_i r hr
      dsimp only
      rw [UserInputState.dropRegistration]
      cases hp : w.state.pending.lookup r.toolId with
      | none => exact .inl rfl
      | some p =>
        rw [Option.any_some]
        split
        · exact revises_remove hp
        · exact .inl rfl

end World

/-! ## Arbitration -/

/-- The waiter got an outcome. -/
def Happening.isOutcome : Happening → Bool
  | .outcome _ => true
  | _ => false

theorem not_isOutcome_interactions (k : ℕ) :
    (List.replicate k Happening.interaction).countP Happening.isOutcome = 0 := by
  rw [countP_replicate]
  rfl

theorem Lawful.outcomes_le_one {history : List Happening} (h : Lawful history) :
    history.countP Happening.isOutcome ≤ 1 := by
  cases h with
  | pending k =>
    rw [not_isOutcome_interactions]
    exact Nat.zero_le _
  | settled k how _ =>
    rw [countP_append, not_isOutcome_interactions]
    exact Nat.zero_le _
  | finished k how outcome _ =>
    rw [countP_append, not_isOutcome_interactions]
    exact le_refl _

/-- **Nothing else reaches a registration that expires**: no interaction and no answer. -/
theorem Lawful.eq_of_expired {history : List Happening} (h : Lawful history)
    (hexpired : .settled .expired ∈ history) :
    history = [.settled .expired, .outcome .timedOut] := by
  have hinteractions : ∀ k, .settled .expired ∉ List.replicate k Happening.interaction :=
    fun k hmem => nomatch eq_of_mem_replicate hmem
  cases h with
  | pending k => exact absurd hexpired (hinteractions k)
  | settled k how hhow =>
    rcases mem_append.mp hexpired with hmem | hmem
    · exact absurd hmem (hinteractions k)
    · cases mem_singleton.mp hmem
      exact absurd rfl hhow
  | finished k how outcome hagrees =>
    rcases mem_append.mp hexpired with hmem | hmem
    · exact absurd hmem (hinteractions k)
    · rcases mem_pair.mp hmem with heq | heq
      · cases heq
        cases hagrees
        rfl
      · cases heq

namespace World

variable {w w' : World} {r : Registration} {p : PendingUserInput} {n : ℕ} {toolId : String}

/-- What the mailbox guarantees in a state. -/
structure Arbitrated (w : World) : Prop where
  /-- what has reached a registration: interactions, then one settlement, then an outcome that
  agrees with it -/
  lawful : ∀ n r, w.registrations.lookup n = some r → Lawful r.history
  /-- a waiter gets one outcome at most -/
  outcomes : ∀ n r, w.registrations.lookup n = some r → r.history.countP Happening.isOutcome ≤ 1
  /-- a registration does not expire after an interaction or an answer -/
  expire_refused : ∀ n r, w.registrations.lookup n = some r →
    (.interaction ∈ r.history ∨ ∃ answers, .settled (.answered answers) ∈ r.history) →
    (w.state.expireIfUnstarted ⟨r.toolId, n⟩).1 = false
  /-- an expiry that succeeds is the first and only thing to happen, and its waiter times out -/
  expired : ∀ n r answer w', w.registrations.lookup n = some r →
    Step w (.seeDeadline n, answer) w' →
    (w.state.expireIfUnstarted ⟨r.toolId, n⟩).1 = true →
    ∃ r', w'.registrations.lookup n = some r' ∧
      r'.history = [.settled .expired, .outcome .timedOut]
  /-- nothing reaches a registration after it has expired -/
  after_expiry : ∀ n r, w.registrations.lookup n = some r → .settled .expired ∈ r.history →
    ∀ tr w', Run Step w tr w' →
    ∃ r', w'.registrations.lookup n = some r' ∧ r'.history = r.history
  /-- the guard of a registration neither expires nor removes the entry of another one -/
  guard : ∀ n toolId toolId' p, w.state.pending.lookup toolId' = some p →
    p.registrationSequence ≠ n →
    (w.state.expireIfUnstarted ⟨toolId, n⟩).2.pending.lookup toolId' = some p ∧
    (w.state.dropRegistration ⟨toolId, n⟩).pending.lookup toolId' = some p
  /-- the revision grows exactly with a change of what is pending or of a flag -/
  revision : ∀ call w', Step w call w' →
    w.state.revision ≤ w'.state.revision ∧
    (w.state.revision < w'.state.revision ↔ view w'.state ≠ view w.state)
  /-- the counts are those of the snapshots -/
  counts : ∀ visited visited' : List PendingUserInput, visited.Perm w.state.values →
    visited'.Perm w.state.values → ∀ sessionId hostNowMs,
    ((UserInputState.pendingQuestionCounts visited).lookup sessionId).getD 0 =
      (w.state.pendingQuestionSnapshot visited' sessionId hostNowMs).questions.length

/-- A registration can expire only as long as nothing has reached it. -/
theorem Inv.history_of_expire (h : w.Inv) (hr : w.registrations.lookup n = some r)
    (hexpire : (w.state.expireIfUnstarted ⟨r.toolId, n⟩).1 = true) : r.history = [] := by
  rw [UserInputState.expireIfUnstarted] at hexpire
  dsimp only at hexpire
  cases hp : w.state.pending.lookup r.toolId with
  | none =>
    rw [hp] at hexpire
    cases hexpire
  | some p =>
    rw [hp, Option.any_some] at hexpire
    split at hexpire
    · rename_i hown
      rw [Bool.and_eq_true, beq_iff_eq, Bool.not_eq_true'] at hown
      obtain ⟨rfl, hstarted⟩ := hown
      have hstatus := h.status _ r hr
      rw [entry_of_lookup hp] at hstatus
      cases hstatus with
      | pending p' k hentry hstarted' _ _ hhistory =>
        cases hentry
        rw [hstarted, eq_comm, decide_eq_false_iff_not, Nat.not_lt, Nat.le_zero] at hstarted'
        rw [hhistory, hstarted']
        rfl
      | settled _ _ hentry => cases hentry
      | finished _ _ _ hentry => cases hentry
    · cases hexpire

/-- Removing at one tool id keeps an entry with another number. -/
theorem lookup_guarded {s : UserInputState} {toolId' : String} (toolId : String)
    (test : PendingUserInput → Bool)
    (hp : s.pending.lookup toolId' = some p) (htest : test p = false) :
    (if (s.pending.lookup toolId).any test then (s.removePending toolId).bumpRevision
      else s).pending.lookup toolId' = some p := by
  split
  · rename_i hany
    have hlookup : (s.removePending toolId).bumpRevision.pending.lookup toolId' =
        if toolId' = toolId then none else s.pending.lookup toolId' := AssocMap.lookup_erase _ _ _
    rw [hlookup]
    split
    · rename_i heq
      rw [← heq, hp, Option.any_some, htest] at hany
      cases hany
    · exact hp
  · exact hp

/-- **Arbitration**: every waiter gets one outcome at most, in every state of every run. -/
theorem questions_arbitrated {tr : List (Operation × Answer)} (hrun : Run Step new tr w) :
    w.Arbitrated := by
  have h := inv_new.run hrun
  refine ⟨fun n r hr => (h.status n r hr).lawful,
    fun n r hr => (h.status n r hr).lawful.outcomes_le_one, fun n r hr hreached => ?_,
    fun n r answer w' hr hstep hexpire => ?_, fun n r hr hexpired tr w' hrun => ?_,
    fun n toolId toolId' p hp hne => ?_, fun call w' hstep => ?_,
    fun visited visited' hvisited hvisited' sessionId hostNowMs =>
      w.state.counts_eq_length_snapshot hvisited hvisited' sessionId hostNowMs⟩
  · rw [Bool.eq_false_iff]
    intro hexpire
    rw [h.history_of_expire hr hexpire] at hreached
    rcases hreached with hmem | ⟨answers, hmem⟩
    · cases hmem
    · cases hmem
  · have hw' : w' = (w.perform (.seeDeadline n)).2 := (congrArg Prod.snd hstep.2).symm
    refine ⟨(r.settle .expired).finish .timedOut, ?_, ?_⟩
    · rw [hw', perform, hr]
      dsimp only
      rw [AssocMap.lookup_modify, if_pos rfl, hr, Option.map_some, if_pos hexpire]
    · change r.history ++ _ ++ _ = _
      rw [h.history_of_expire hr hexpire]
      rfl
  · obtain ⟨r', hr', -, hpre⟩ := h.grows_run hrun n r hr
    refine ⟨r', hr', ?_⟩
    rw [((h.status n r hr).lawful).eq_of_expired hexpired,
      (((h.run hrun).status n r' hr').lawful).eq_of_expired (hpre.subset hexpired)]
  · have hother : (p.registrationSequence == n) = false := beq_false_of_ne hne
    refine ⟨?_, lookup_guarded _ _ hp hother⟩
    have hkept := lookup_guarded toolId
      (fun p => p.registrationSequence == n && !p.interactionStarted) hp
      (by rw [hother, Bool.false_and])
    rw [UserInputState.expireIfUnstarted]
    split
    · rename_i hany
      rw [if_pos hany] at hkept
      exact hkept
    · exact hp
  · rcases h.revises hstep with heq | ⟨hrevision, hview⟩
    · rw [heq]
      exact ⟨le_refl _, iff_of_false (lt_irrefl _) fun hne => hne rfl⟩
    · rw [hrevision]
      exact ⟨Nat.le_succ _, iff_of_true (Nat.lt_succ_self _) hview⟩

/-! ## Scripts -/

/-- Performs operations one after the other. -/
def performAll (w : World) : List Operation → List (Operation × Answer) × World
  | [] => ([], w)
  | operation :: operations =>
    let outcome := w.perform operation
    let rest := outcome.2.performAll operations
    ((operation, outcome.1) :: rest.1, rest.2)

/-- The test whether operations can be performed one after the other. -/
def admits (w : World) : List Operation → Bool
  | [] => true
  | operation :: operations =>
    w.enabled operation && (w.perform operation).2.admits operations

theorem run_performAll {script : List Operation} (h : w.admits script = true) :
    Run Step w (w.performAll script).1 (w.performAll script).2 := by
  induction script generalizing w with
  | nil => exact .refl
  | cons operation script ih =>
    rw [admits, Bool.and_eq_true] at h
    exact (ih h.2).cons ⟨h.1, rfl⟩

/-- A question of tool `"tool"` in session `"session"`. -/
def question : PendingUserQuestion := ⟨"tool", "session", none, none, .object [], 0, false⟩

/-- A question expires, and the guard of an older registration with its tool id is dropped. -/
theorem questions_arbitrated_after_reuse :
    (new.performAll [
      .registerQuestionWithControllers question [],
      .registerQuestionWithControllers question [⟨"parent", none⟩],
      .dropRegistration 0,
      .seeDeadline 1,
      .registerChannel "tool",
      .sendAnswer "tool" .null,
      .deliverAnswer 2,
      .seeResponse 2]).2.Arbitrated :=
  questions_arbitrated (run_performAll (by decide +kernel))

end World

end UserQuestions

end OpenBitFun
