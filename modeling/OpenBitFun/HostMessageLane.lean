import Mathlib
import OpenBitFun.HostMessageScheduler

/-!
# The lane of a session

All that a scheduler keeps for one session: its receipts, its dispatch queue, its injections and the
messages that were executed. Every step changes the lane of one session. This file says for the
primitive ones what the lane is afterwards, as an update of the lanes of all sessions.
-/

namespace OpenBitFun

namespace HostQueue

variable {A : Type}

/-- What a scheduler keeps for a session. -/
structure Lane (A : Type) where
  /-- The receipts. -/
  entries : AssocMap String (Entry A)
  /-- The order in which they are shown. -/
  order : List String
  /-- The dispatch queue. -/
  turns : List (QueuedDialogTurn (QueuedTurn A))
  /-- The injections that wait. -/
  injections : List (RoundInjection A)
  /-- The injections that a turn took and has not acknowledged. -/
  taken : List (String × RoundInjection A)
  /-- The messages that were executed. -/
  executed : List String

/-- The order in which the messages of a session are shown. -/
def HostQueueState.orderOf (state : HostQueueState A) (session : String) : List String :=
  match state.lookup session with
  | some s => s.order
  | none => []

namespace DialogScheduler

/-- The lane of a session. -/
def lane (σ : DialogScheduler A) (session : String) : Lane A where
  entries := σ.hostQueue.entriesOf session
  order := σ.hostQueue.orderOf session
  turns := σ.queues.get session
  injections := σ.roundInjectionBuffer.list session
  taken := σ.taken.list session
  executed := σ.executed.list session

theorem lane_new (maxDepth : ℕ) (session : String) :
    (DialogScheduler.new maxDepth : DialogScheduler A).lane session = ⟨∅, [], [], [], [], []⟩ := rfl

variable (σ : DialogScheduler A) (session : String)

/-! ## Receipts -/

@[simp] theorem theSession_entries : (σ.theSession session).entries = (σ.lane session).entries := by
  rw [theSession, lane, HostQueueState.entriesOf]
  cases σ.hostQueue.lookup session <;> rfl

@[simp] theorem theSession_order : (σ.theSession session).order = (σ.lane session).order := by
  rw [theSession, lane, HostQueueState.orderOf]
  cases σ.hostQueue.lookup session <;> rfl

theorem lane_setSession (s : QueueSession A) :
    (σ.setSession session s).lane = Function.update σ.lane session
      { σ.lane session with entries := s.entries, order := s.order } := by
  funext session'
  rw [Function.update_apply]
  split_ifs with h
  · subst h
    simp only [lane, setSession, HostQueueState.entriesOf, HostQueueState.orderOf,
      AList.lookup_insert]
  · simp only [lane, setSession, HostQueueState.entriesOf, HostQueueState.orderOf,
      AList.lookup_insert_ne h]

theorem lane_modify {f : QueueSession A → QueueSession A}
    {g : AssocMap String (Entry A) → AssocMap String (Entry A)}
    (hentries : ∀ s, (f s).entries = g s.entries) (horder : ∀ s, (f s).order = s.order)
    (hempty : g ∅ = ∅) :
    ({ σ with hostQueue := σ.hostQueue.modify session f } : DialogScheduler A).lane =
      Function.update σ.lane session
        { σ.lane session with entries := g (σ.lane session).entries } := by
  funext session'
  rw [Function.update_apply]
  split_ifs with h
  · subst h
    simp only [lane, HostQueueState.entriesOf, HostQueueState.orderOf, AssocMap.lookup_modify,
      if_true]
    cases σ.hostQueue.lookup session' with
    | none => simp [hempty]
    | some s => simp [hentries, horder]
  · simp only [lane, HostQueueState.entriesOf, HostQueueState.orderOf, AssocMap.lookup_modify,
      if_neg h]

theorem lane_modifyEntry (id : String) (f : Entry A → Entry A) :
    ({ σ with hostQueue := σ.hostQueue.modifyEntry session id f } : DialogScheduler A).lane =
      Function.update σ.lane session
        { σ.lane session with entries := (σ.lane session).entries.modify id f } := by
  refine lane_modify (g := fun entries => AssocMap.modify entries id f) σ session ?_ ?_ rfl
  · intro s
    cases h : s.entries.lookup id with
    | none => simp [AssocMap.modify, h]
    | some e => rfl
  · intro s
    cases s.entries.lookup id <;> rfl

theorem lane_hold {turn : QueuedTurn A} {id : String} (h : turn.turnId = some id)
    (reason : String) :
    (σ.hold session turn reason).lane = Function.update σ.lane session
      { σ.lane session with entries := (σ.lane session).entries.modify id fun e =>
          { e with view := { e.view with status := .blocked, reason := some reason },
                   held := some turn } } := by
  rw [hold, HostQueueState.hold, h]
  exact lane_modifyEntry σ session id _

theorem hold_none {turn : QueuedTurn A} (h : turn.turnId = none) (reason : String) :
    σ.hold session turn reason = σ := by
  rw [hold, HostQueueState.hold, h]

theorem lane_cancelled {turn : QueuedTurn A} {id : String} (h : turn.turnId = some id) :
    (σ.finishRemovedQueuedTurn session turn).lane = Function.update σ.lane session
      { σ.lane session with entries := (σ.lane session).entries.modify id fun e =>
          { e with view := { e.view with status := .cancelled, reason := none },
                   held := none } } := by
  rw [finishRemovedQueuedTurn, h]
  exact lane_modifyEntry σ session id _

theorem lane_started (id : String) :
    ({ σ with
      hostQueue := σ.hostQueue.started session id
      executed := if σ.hostQueue.contains session id then
        σ.executed.insert session (σ.executed.list session ++ [id]) else σ.executed } :
          DialogScheduler A).lane =
      Function.update σ.lane session { σ.lane session with
        entries := (σ.lane session).entries.modify id fun e =>
          { e with view := { e.view with status := .started, reason := none }, held := none }
        executed := if ((σ.lane session).entries.lookup id).isSome then
          (σ.lane session).executed ++ [id] else (σ.lane session).executed } := by
  have hentries := lane_modifyEntry σ session id fun e =>
    { e with view := { e.view with status := .started, reason := none }, held := none }
  funext session'
  have hsession := congrFun hentries session'
  rw [Function.update_apply] at hsession ⊢
  rw [lane] at hsession ⊢
  have hexecuted : AssocMap.list (if σ.hostQueue.contains session id then
      σ.executed.insert session (σ.executed.list session ++ [id]) else σ.executed) session' =
      if session' = session then (if ((σ.lane session).entries.lookup id).isSome then
        (σ.lane session).executed ++ [id] else (σ.lane session).executed)
      else σ.executed.list session' := by
    have hcontains : σ.hostQueue.contains session id =
        ((σ.lane session).entries.lookup id).isSome := rfl
    rw [hcontains]
    split_ifs with hsome heq heq
    · rw [AssocMap.list_insert, if_pos heq]
      rfl
    · rw [AssocMap.list_insert, if_neg heq]
    · rw [heq]
      rfl
    · rfl
  split_ifs at hsession hexecuted ⊢ with h <;>
    simp_all [HostQueueState.started, lane]

theorem finishRemovedQueuedTurn_none {turn : QueuedTurn A} (h : turn.turnId = none) :
    σ.finishRemovedQueuedTurn session turn = σ := by
  rw [finishRemovedQueuedTurn, h]

/-- Looking at a queue changes nothing that matters. -/
@[simp] theorem lane_queueSnapshot (env : Surroundings A) (receiptId : Option String) :
    (σ.queueSnapshot env session receiptId).2.lane = σ.lane := by
  rw [queueSnapshot, lane_setSession]
  refine Function.update_eq_self_iff.2 ?_
  rw [lane]
  simp only [HostQueueState.entriesOf, HostQueueState.orderOf]
  cases σ.hostQueue.lookup session with
  | none => simp only [Option.getD_none]; split_ifs <;> rfl
  | some s => simp only [Option.getD_some]; split_ifs <;> rfl

/-! ## The dispatch queue -/

theorem lane_queues {queues : DialogTurnQueue (QueuedTurn A)}
    {turns : List (QueuedDialogTurn (QueuedTurn A))}
    (h : ∀ session', queues.get session' =
      if session' = session then turns else σ.queues.get session') :
    ({ σ with queues } : DialogScheduler A).lane =
      Function.update σ.lane session { σ.lane session with turns } := by
  funext session'
  rw [Function.update_apply]
  split_ifs with hsession
  · rw [lane, h, if_pos hsession, hsession]
    rfl
  · rw [lane, h, if_neg hsession]
    rfl

theorem lane_requeueFront (turn : QueuedTurn A) :
    (σ.requeueFront session turn).lane = Function.update σ.lane session { σ.lane session with
      turns := ⟨turn.policy.queuePriority, turn⟩ :: (σ.lane session).turns } :=
  lane_queues σ session fun session' => σ.queues.get_requeueFront session session' turn _

/-! ## Injections -/

theorem lane_buffer (injections : List (RoundInjection A)) :
    ({ σ with
      roundInjectionBuffer := σ.roundInjectionBuffer.insert session injections } :
        DialogScheduler A).lane =
      Function.update σ.lane session { σ.lane session with injections } := by
  funext session'
  rw [Function.update_apply, lane, AssocMap.list_insert]
  split_ifs with h
  · rw [h]
    rfl
  · rfl

/-- Injections are dropped after another step. -/
theorem lane_filterBuffer {σ σ' : DialogScheduler A} {session : String} {l : Lane A}
    (h : σ'.lane = Function.update σ.lane session l) (p : RoundInjection A → Bool) :
    ({ σ' with
      roundInjectionBuffer := σ'.roundInjectionBuffer.insert session
        ((σ'.roundInjectionBuffer.list session).filter p) } : DialogScheduler A).lane =
      Function.update σ.lane session { l with injections := l.injections.filter p } := by
  have hself : σ'.lane session = l := by rw [h, Function.update_self]
  rw [lane_buffer, h, Function.update_idem, Function.update_self, ← hself]
  rfl

end DialogScheduler

end HostQueue

end OpenBitFun
