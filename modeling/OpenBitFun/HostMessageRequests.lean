import OpenBitFun.HostMessageOutcomes

/-!
# The requests of clients

Submitting, moving, cancelling and promoting messages keeps the invariant.
-/

namespace OpenBitFun

open List

namespace HostQueue

open DialogScheduler (movedOrder turnOf entryOf)

variable {A : Type} {P : Prop} {σ : DialogScheduler A} {session : String}

/-! ## Bookkeeping -/

/-- What a session keeps besides its receipts does not matter. -/
theorem lane_setSession_same {s : QueueSession A}
    (hentries : s.entries = (σ.theSession session).entries)
    (horder : s.order = (σ.theSession session).order) :
    (σ.setSession session s).lane = σ.lane := by
  rw [DialogScheduler.lane_setSession, hentries, horder, DialogScheduler.theSession_entries,
    DialogScheduler.theSession_order]
  exact Function.update_eq_self _ _

/-- The messages that are shown as queued. -/
def Lane.shown (l : Lane A) : List String :=
  l.order.filter fun id => (l.entries.lookup id).any (·.view.status = .queued)

/-- The messages that a snapshot shows as queued. -/
theorem queueSnapshot_queued (σ : DialogScheduler A) (session : String) (env : Surroundings A)
    (receiptId : Option String)
    (hnamed : ∀ id e, (σ.lane session).entries.lookup id = some e → e.view.turnId = id) :
    ((σ.queueSnapshot env session receiptId).1.items.filter (·.status = .queued)).map (·.turnId) =
      (σ.lane session).shown := by
  have hitems : (σ.queueSnapshot env session receiptId).1.items =
      (((σ.lane session).order.filterMap (σ.lane session).entries.lookup).filter
        (·.view.status.isPending)).map (·.view) := by
    rw [DialogScheduler.queueSnapshot, DialogScheduler.lane, HostQueueState.entriesOf,
      HostQueueState.orderOf]
    cases σ.hostQueue.lookup session with
    | none => simp only [Option.getD_none]; split_ifs <;> rfl
    | some s => simp only [Option.getD_some]; split_ifs <;> rfl
  rw [hitems, Lane.shown]
  induction (σ.lane session).order with
  | nil => rfl
  | cons id order ih =>
    cases he : (σ.lane session).entries.lookup id with
    | none =>
      rw [show (id :: order).filterMap (σ.lane session).entries.lookup =
          order.filterMap (σ.lane session).entries.lookup from filterMap_cons_none he, ih,
        filter_cons_of_neg]
      simp [he]
    | some e =>
      rw [show (id :: order).filterMap (σ.lane session).entries.lookup =
          e :: order.filterMap (σ.lane session).entries.lookup from filterMap_cons_some he]
      by_cases hstatus : e.view.status = .queued
      · rw [filter_cons_of_pos (by simp [hstatus, DialogQueueStatus.isPending]), map_cons,
          filter_cons_of_pos (by simpa using hstatus), map_cons, ih,
          filter_cons_of_pos (by simpa [he] using hstatus), hnamed id e he]
      · have hnot : (id :: order).filter (fun id =>
            ((σ.lane session).entries.lookup id).any (·.view.status = .queued)) =
            order.filter fun id =>
              ((σ.lane session).entries.lookup id).any (·.view.status = .queued) :=
          filter_cons_of_neg (by simpa [he] using hstatus)
        rw [hnot, ← ih]
        by_cases hpending : e.view.status.isPending = true
        · simp [hpending, hstatus]
        · simp [hpending]

/-! ## Submitting -/

/-- A new message is accepted, or nothing is left of it. -/
theorem Moves.acceptMessage {env : Surroundings A} {entry : Entry A} {turn : QueuedTurn A}
    (hnone : (σ.lane session).entries.lookup entry.view.turnId = none)
    (hentry : entry.view.status = .queued ∧ entry.view.steeringId = none ∧ entry.held = none)
    (hturn : turn.turnId = some entry.view.turnId) (hpolicy : turn.policy = hostPolicy)
    (hnew : ∀ item ∈ σ.queues.get session, item.turn.turnId ≠ some entry.view.turnId) :
    Moves P session σ [] (σ.acceptMessage env session entry turn).2 [] := by
  set id := entry.view.turnId with hid
  set accepted := σ.setSession session { σ.theSession session with
    entries := (σ.theSession session).entries.insert id entry
    order := (σ.theSession session).order ++ [id] } with haccepted
  have hlane : accepted.lane = Function.update σ.lane session { σ.lane session with
      entries := (σ.lane session).entries.insert id entry
      order := (σ.lane session).order ++ [id] } := by
    rw [← DialogScheduler.theSession_order, ← DialogScheduler.theSession_entries]
    exact DialogScheduler.lane_setSession σ session _
  -- a message that is refused leaves nothing behind
  have hrefused : ∀ σ' : DialogScheduler A, σ'.lane = accepted.lane →
      Moves P session σ [] (σ'.setSession session { σ'.theSession session with
        entries := (σ'.theSession session).entries.erase id
        order := (σ'.theSession session).order.filter (· ≠ id) }) [] := by
    intro σ' hsame
    have hset : (σ'.setSession session { σ'.theSession session with
        entries := (σ'.theSession session).entries.erase id
        order := (σ'.theSession session).order.filter (· ≠ id) }).lane =
        Function.update σ.lane session { σ.lane session with
          order := ((σ.lane session).order ++ [id]).filter (· ≠ id) } := by
      rw [DialogScheduler.lane_setSession]
      simp only [DialogScheduler.theSession_entries, DialogScheduler.theSession_order, hsame,
        hlane, Function.update_self, Function.update_idem, AssocMap.erase_insert hnone]
    refine of_update hset fun h => ⟨h.owned.reorder (List.Perm.refl _), fun hP => ?_⟩
    have hnot : id ∉ (σ.lane session).order := by
      rw [(h.ordered hP).mem_order, Lane.accepted, hnone]
      exact Bool.false_ne_true
    have hfilter : ((σ.lane session).order ++ [id]).filter (· ≠ id) = (σ.lane session).order := by
      rw [filter_append, filter_eq_self.2 fun x hx => ?_]
      · simp
      · exact decide_eq_true fun heq => hnot (heq ▸ hx)
    exact (h.ordered hP).change hfilter rfl (List.Sublist.refl _) (h.ordered hP).held
      (h.ordered hP).carried
  rw [DialogScheduler.acceptMessage]
  simp only
  rw [← hid, ← haccepted, DialogScheduler.submitDialogTurn]
  cases env.submitDialogTurn with
  | error e => exact hrefused accepted rfl
  | ok _ =>
    obtain ⟨e, σ', henqueue, hsame⟩ | ⟨q, henqueue, hqueued⟩ := enqueue_cases accepted session turn
    · simp only [henqueue]
      exact hrefused σ' hsame
    · simp only [henqueue]
      rw [hlane, Function.update_idem, Function.update_self] at hqueued
      refine trans (of_update hqueued fun h => ?_) (of_lane (lane_setSession_same ?_ ?_))
      · exact h.accept hnone ⟨hid.symm, hentry.1, hentry.2.1⟩ hentry.2.2 hturn hpolicy hnew
      · rfl
      · rfl

theorem Moves.submitHostMessage {hash : Fingerprints A} {env : Surroundings A}
    {message : DialogQueueMessage A}
    (hnew : σ.hostQueue.contains session message.turnId ∨
      ∀ queued ∈ σ.queues.get session, queued.turn.turnId ≠ some message.turnId) :
    Moves P session σ [] (σ.submitHostMessage hash env session message).2 [] := by
  rw [DialogScheduler.submitHostMessage]
  split_ifs
  swap
  · exact refl
  simp only [DialogScheduler.theSession_entries]
  cases hnone : (σ.lane session).entries.lookup message.turnId with
  | some e =>
    simp only
    split_ifs <;> exact refl
  | none =>
    have hcontains : σ.hostQueue.contains session message.turnId = false := by
      change ((σ.lane session).entries.lookup message.turnId).isSome = false
      rw [hnone]
      rfl
    have hnew := hnew.resolve_left (by simp [hcontains])
    simp only
    cases env.session with
    | none => exact refl
    | some binding =>
      simp only
      cases binding.acceptsConversation with
      | error failure => exact refl
      | ok _ =>
        simp only
        split_ifs
        · exact refl
        · exact refl
        · exact acceptMessage hnone ⟨rfl, rfl, rfl⟩ rfl rfl hnew

/-! ## Moving -/

/-- A new order has the messages of the old one. -/
theorem movedOrder_perm {queued order : List String} {id : String} {before : Option String}
    (h : movedOrder queued id before = .ok order) : order.Perm queued := by
  rw [movedOrder] at h
  split_ifs at h with hmem hself
  have hperm : (id :: queued.erase id).Perm queued :=
    (perm_cons_erase hmem).symm
  cases before with
  | none =>
    cases h
    exact (perm_append_singleton id _).trans hperm
  | some before =>
    simp only at h
    cases hindex : (queued.erase id).findIdx? (· = before) with
    | none =>
      rw [hindex] at h
      cases h
    | some index =>
      rw [hindex] at h
      cases h
      obtain ⟨hlt, -⟩ := findIdx?_eq_some_iff_getElem.1 hindex
      exact (perm_insertIdx id _ hlt.le).trans hperm

/-- Where the messages are shown, they are in the dispatch queue once. -/
theorem queued_le_one {l : Lane A} (h : l.Owned []) {id : String} (hid : id ∈ l.shown) :
    l.queued id ≤ 1 := by
  obtain ⟨-, hany⟩ := mem_filter.1 hid
  obtain ⟨e, he, hstatus⟩ := (Option.any_eq_true _ _).1 hany
  have hlocated := h.located id e he
  rw [Lane.Located, of_decide_eq_true hstatus] at hlocated
  have := hlocated.2.1
  omega

theorem Moves.reorder {env : Surroundings A} {id : String} {before : Option String}
    {operation digest : String} {expectedRevision : ℕ} :
    Moves P session σ [] (σ.reorder env session id before operation digest expectedRevision).2
      [] := by
  rw [DialogScheduler.reorder]
  have hlane := σ.lane_queueSnapshot session env none
  have hqueued := queueSnapshot_queued σ session env none
  generalize σ.queueSnapshot env session none = r at hlane hqueued ⊢
  obtain ⟨snapshot, σ'⟩ := r
  simp only at hlane hqueued ⊢
  split_ifs
  · exact of_lane hlane
  cases horder : movedOrder ((snapshot.items.filter (·.status = .queued)).map (·.turnId)) id
      before with
  | error e => exact of_lane hlane
  | ok order =>
    refine trans (of_lane hlane) ?_
    have hne := fun session' (hne : session' ≠ session) =>
      σ'.queues.reorderSubset_get_ne session order (·.turnId) hne
    have hspec := σ'.queues.reorderSubset_spec session order (·.turnId)
    simp only
    generalize σ'.queues.reorderSubset session order (·.turnId) = r at hne hspec ⊢
    obtain ⟨found, queues⟩ := r
    rw [← hlane] at hqueued
    have hperm : (σ'.lane session).Owned [] → order.Perm (σ'.lane session).shown := fun h =>
      hqueued h.named ▸ movedOrder_perm horder
    have hspec : (σ'.lane session).Owned [] → _ := fun h => hspec fun id hid =>
      queued_le_one h ((hperm h).mem_iff.1 hid)
    have hothers : ∀ session', session' ≠ session →
        ({ σ' with queues } : DialogScheduler A).lane session' = σ'.lane session' :=
      fun session' hsession =>
        congrArg (fun turns => ({ σ'.lane session' with turns } : Lane A)) (hne session' hsession)
    cases found with
    | false =>
      refine ⟨hothers, fun h => ?_⟩
      obtain ⟨-, hsame, -⟩ := hspec h.owned
      obtain rfl : queues = σ'.queues := hsame rfl
      exact h
    | true =>
      refine ⟨fun session' hsession => ?_, fun h => ?_⟩
      · rw [DialogScheduler.lane_setSession, Function.update_of_ne hsession]
        exact hothers session' hsession
      · obtain ⟨-, -, hturns⟩ := hspec h.owned
        obtain ⟨turns, hids, hlength, hperm', hget⟩ := hturns rfl
        have hdispatched : P → order.Perm (σ'.lane session).dispatched := fun hP =>
          (h.ordered hP).shown h.owned ▸ hperm h.owned
        have hreorder := h.reorder hdispatched hids hlength hperm'
        rw [DialogScheduler.lane_setSession, Function.update_self]
        simp only [DialogScheduler.theSession_entries, DialogScheduler.theSession_order]
        have hself := congrFun (DialogScheduler.lane_queues σ' session hget) session
        rw [Function.update_self] at hself
        rw [hself]
        exact hreorder

/-! ## Cancelling and promoting -/

/-- A message that an operation may take. -/
def Available (σ : DialogScheduler A) (session id : String) : Prop :=
  ∃ e, (σ.lane session).entries.lookup id = some e ∧
    (e.view.status = .queued ∨ e.view.status = .blocked)

/-- Holding another message, or this one. -/
theorem Available.hold {id : String} (h : Available σ session id) (turn : QueuedTurn A)
    (reason : String) : Available (σ.hold session turn reason) session id := by
  obtain ⟨e, he, hstatus⟩ := h
  cases hturn : turn.turnId with
  | none =>
    rw [DialogScheduler.hold_none σ session hturn]
    exact ⟨e, he, hstatus⟩
  | some id' =>
    rw [Available, DialogScheduler.lane_hold σ session hturn, Function.update_self]
    simp only [AssocMap.lookup_modify]
    split_ifs with heq
    · subst heq
      rw [he]
      exact ⟨_, rfl, .inr rfl⟩
    · exact ⟨e, he, hstatus⟩

theorem Available.holdAll {id : String} (h : Available σ session id) (reason : String)
    (ids : List String) :
    Available (ids.foldl (fun σ id =>
      match σ.removeQueuedTurnById session id with
      | (some turn, σ) => σ.hold session turn reason
      | (none, σ) => σ) σ) session id := by
  induction ids generalizing σ with
  | nil => exact h
  | cons id' ids ih =>
    refine ih ?_
    obtain ⟨σ', heq, hlane⟩ | ⟨turn, q, heq, -⟩ :=
      Moves.removeQueuedTurnById (P := True) σ session id' []
    · simp only [heq]
      rwa [Available, hlane]
    · simp only [heq]
      exact Available.hold (σ := { σ with queues := q }) h turn reason

theorem Available.holdManagedQueue {id : String} (h : Available σ session id) (reason : String)
    (previous : Option String) :
    Available (σ.holdManagedQueue session reason previous) session id :=
  h.holdAll reason _

/-- What `prepare` does before an operation. -/
theorem prepare_spec (env : Surroundings A) (action : DialogQueueAction A) {id : String}
    (h : Available σ session id) :
    Moves P session σ [] (σ.prepare env session action).2 [] ∧
      Available (σ.prepare env session action).2 session id ∧
      ∀ turn operation target, action = .promote turn operation (some target) →
        (σ.prepare env session action).2.lane = σ.lane := by
  have hsame : ∀ {σ' : DialogScheduler A}, σ'.lane = σ.lane →
      Moves P session σ [] σ' [] ∧ Available σ' session id ∧
        ∀ turn operation target, action = .promote turn operation (some target) →
          σ'.lane = σ.lane := by
    intro σ' hlane
    refine ⟨Moves.of_lane hlane, ?_, fun _ _ _ _ => hlane⟩
    rwa [Available, hlane]
  cases action with
  | promote turn operation expected =>
    rw [DialogScheduler.prepare, DialogScheduler.preparePromotion]
    have hlane := σ.lane_queueSnapshot session env none
    generalize σ.queueSnapshot env session none = r at hlane ⊢
    obtain ⟨snapshot, σ'⟩ := r
    cases expected with
    | some target =>
      simp only at hlane ⊢
      split_ifs <;> exact hsame hlane
    | none =>
      simp only at hlane ⊢
      split_ifs
      · exact hsame hlane
      · exact hsame hlane
      · cases env.holdsDispatch with
        | error e => exact hsame hlane
        | ok holds =>
          cases holds with
          | false => exact hsame hlane
          | true =>
            obtain ⟨hmoves, havailable, -⟩ := hsame hlane
            exact ⟨hmoves.trans (Moves.holdManagedQueue _ _), havailable.holdManagedQueue _ _,
              by rintro _ _ _ ⟨⟩⟩
  | _ => exact hsame rfl

/-- The turn of a message is in hand. -/
structure TakesMessage (P : Prop) (session id : String) (σ σ' : DialogScheduler A)
    (turn : QueuedTurn A) : Prop where
  moves : Moves P session σ [] σ' [turn]
  /-- It is its own. -/
  turnId : Settled P (σ.lane session) [] → turn.turnId = some id
  /-- The injections are as before. -/
  injections : (σ'.lane session).injections = (σ.lane session).injections ∧
    (σ'.lane session).taken = (σ.lane session).taken
  /-- So is what clients see. -/
  views : ∀ id', ((σ'.lane session).entries.lookup id').map (·.view) =
    ((σ.lane session).entries.lookup id').map (·.view)

/-- `takeMessage` finds nothing, or takes the turn. -/
theorem takeMessage_cases {id : String} (h : Available σ session id) :
    (∃ σ', σ.takeMessage session id = (none, σ') ∧ σ'.lane = σ.lane) ∨
      ∃ turn σ', σ.takeMessage session id = (some turn, σ') ∧
        TakesMessage P session id σ σ' turn := by
  obtain ⟨e, he, hstatus⟩ := h
  have hlookup : (σ.hostQueue.entriesOf session).lookup id = some e := he
  rw [DialogScheduler.takeMessage, hlookup]
  cases hheld : e.held with
  | some turn =>
    simp only [Option.bind_some, hheld]
    have hlane : ({ σ with
        hostQueue := σ.hostQueue.modify session fun s =>
          { s with entries := s.entries.modify id ({ · with held := none }) } } :
            DialogScheduler A).lane = Function.update σ.lane session { σ.lane session with
              entries := (σ.lane session).entries.modify id ({ · with held := none }) } :=
      DialogScheduler.lane_modify (g := fun entries => entries.modify id ({ · with held := none }))
        σ session (fun _ => rfl) (fun _ => rfl) rfl
    refine .inr ⟨turn, _, rfl, Moves.of_update hlane fun h => h.unhold he hstatus hheld,
      fun h => h.owned.held id e turn he hheld, ?_, fun id' => ?_⟩
    · rw [hlane, Function.update_self]
      exact ⟨rfl, rfl⟩
    · rw [hlane, Function.update_self]
      simp only [AssocMap.lookup_modify]
      split_ifs with heq
      · rw [heq, Option.map_map]
        rfl
      · rfl
  | none =>
    simp only [Option.bind_some, hheld]
    obtain ⟨σ', heq, hlane⟩ | ⟨turn, q, heq, hid, hmoves⟩ :=
      Moves.removeQueuedTurnById (P := P) σ session id []
    · exact .inl ⟨σ', heq, hlane⟩
    · exact .inr ⟨turn, _, heq, hmoves, fun _ => hid, ⟨rfl, rfl⟩, fun _ => rfl⟩

/-- `steer` changes the receipt of the message and adds its injection. -/
theorem lane_steer (σ : DialogScheduler A) (session : String) (env : Surroundings A)
    (id target : String) (turn : QueuedTurn A) :
    ∃ f : Entry A → Entry A,
      (∀ e, (f e).view.status = .steeringPending ∧ (f e).view.turnId = e.view.turnId ∧
        (f e).view.targetTurnId = some target ∧ (f e).view.steeringId = some env.uuid ∧
          (f e).held = some turn) ∧
      (σ.steer env session id target turn).lane = Function.update σ.lane session
        { σ.lane session with
          entries := (σ.lane session).entries.modify id f
          injections := (σ.lane session).injections ++
            [DialogScheduler.steeringInjection env target turn] } := by
  set f : Entry A → Entry A := fun e => { e with
    view := { e.view with
      status := .steeringPending
      reason := none
      targetTurnId := some target
      steeringId := some env.uuid
      steeringDisplay := some
        { targetTurnId := target
          content := turn.originalUserInput.getD turn.userInput
          composerPresentation :=
            turn.userMessageMetadata.bind (·.get "composerPresentation") } }
    held := some turn } with hf
  refine ⟨f, fun _ => ⟨rfl, rfl, rfl, rfl, rfl⟩, ?_⟩
  have hmodify := DialogScheduler.lane_modify (f := fun s => { s with
      entries := s.entries.modify id f }) (g := fun entries => entries.modify id f) σ session
    (fun _ => rfl) (fun _ => rfl) rfl
  rw [DialogScheduler.steer, DialogScheduler.pushInjection, DialogScheduler.lane_buffer, ← hf,
    hmodify, Function.update_idem, Function.update_self]
  rfl

/-- What an operation does with the turn that it took. -/
theorem Moves.performTaken {σ₀ : DialogScheduler A} {env : Surroundings A} {id : String}
    {action : DialogQueueAction A} {turn : QueuedTurn A}
    (htakes : TakesMessage P session id σ₀ σ turn) (havailable : Available σ₀ session id)
    (hoperation : ∃ operation, action.operation = some (id, operation))
    (hreorder : ∀ id before operation revision, action ≠ .reorder id before operation revision)
    (hfresh : ∀ turn operation target, action = .promote turn operation (some target) →
      (∀ id e, (σ₀.lane session).entries.lookup id = some e → e.view.steeringId ≠ some env.uuid) ∧
      (∀ x ∈ (σ₀.lane session).injections, x.id ≠ env.uuid) ∧
      ∀ x ∈ (σ₀.lane session).taken, x.2.id ≠ env.uuid) :
    Moves P session σ₀ [] (σ.performTaken env session id action turn) [] := by
  cases action with
  | cancel turnId operation =>
    rw [DialogScheduler.performTaken]
    set σ' := σ.finishRemovedQueuedTurn session turn with hσ'
    have hcancel := (htakes.moves.trans finishRemoved : Moves P session σ₀ [] σ' [])
    have hlane : ({ σ' with
        hostQueue := σ'.hostQueue.modify session fun s =>
          { s with entries := s.entries.modify id fun e =>
            { e with view := { e.view with status := .cancelled } } } } : DialogScheduler A).lane =
        Function.update σ'.lane session { σ'.lane session with
          entries := (σ'.lane session).entries.modify id fun e =>
            { e with view := { e.view with status := .cancelled } } } :=
      DialogScheduler.lane_modify
        (g := fun entries => entries.modify id fun e =>
          { e with view := { e.view with status := .cancelled } }) σ' session (fun _ => rfl)
        (fun _ => rfl) rfl
    refine ⟨fun session' hne => ?_, fun h => ?_⟩
    · rw [hlane, Function.update_of_ne hne]
      exact hcancel.others session' hne
    · rw [hlane, Function.update_self]
      refine (hcancel.settled h).touch id fun e he => ⟨?_, rfl, rfl, rfl, rfl⟩
      -- the message is cancelled already
      rw [hσ', DialogScheduler.lane_cancelled σ session (htakes.turnId h), Function.update_self]
        at he
      simp only [AssocMap.lookup_modify, if_true] at he
      obtain ⟨e, -, rfl⟩ := Option.map_eq_some_iff.1 he
      rfl
  | promote turnId operation expected =>
    cases expected with
    | none =>
      rw [DialogScheduler.performTaken]
      obtain ⟨started, hstart, hmoves⟩ | ⟨e, hstart⟩ :=
        startTurn (P := P) σ session turn [] env
      · generalize σ.startTurn env session turn = r at hstart hmoves ⊢
        obtain ⟨r, σ'⟩ := r
        cases hstart
        exact htakes.moves.trans hmoves
      · rw [hstart]
        exact htakes.moves.trans (hold e)
    | some target =>
      rw [DialogScheduler.performTaken]
      obtain ⟨f, hf, hlane⟩ := lane_steer σ session env id target turn
      obtain ⟨hentries, hinjections, htaken⟩ := hfresh _ _ _ rfl
      refine ⟨fun session' hne => ?_, fun h => ?_⟩
      · rw [hlane, Function.update_of_ne hne]
        exact htakes.moves.others session' hne
      · rw [hlane, Function.update_self]
        obtain ⟨e₀, he₀, -⟩ := havailable
        have hview := htakes.views id
        rw [he₀, Option.map_some] at hview
        obtain ⟨e, he, -⟩ := Option.map_eq_some_iff.1 hview
        refine (htakes.moves.settled h).steer (htakes.turnId h) he rfl (hf e) ?_ ?_ ?_
        · intro id' e' he'
          have hview := htakes.views id'
          rw [he', Option.map_some] at hview
          obtain ⟨e'', he'', heq⟩ := Option.map_eq_some_iff.1 hview.symm
          rw [← heq]
          exact hentries id' e'' he''
        · rw [htakes.injections.1]
          exact hinjections
        · rw [htakes.injections.2]
          exact htaken
  | reorder turnId before operation revision => exact absurd rfl (hreorder _ _ _ _)
  | list =>
    obtain ⟨operation, hoperation⟩ := hoperation
    cases hoperation
  | get turnId =>
    obtain ⟨operation, hoperation⟩ := hoperation
    cases hoperation
  | submit message =>
    obtain ⟨operation, hoperation⟩ := hoperation
    cases hoperation

/-- The id of an injection is new. -/
def Fresh (σ : DialogScheduler A) (session uuid : String) : Prop :=
  (∀ id e, (σ.lane session).entries.lookup id = some e → e.view.steeringId ≠ some uuid) ∧
    (∀ x ∈ (σ.lane session).injections, x.id ≠ uuid) ∧
    ∀ x ∈ (σ.lane session).taken, x.2.id ≠ uuid

/-- What an operation does with a message. -/
theorem Moves.mutateEntry {env : Surroundings A} {id operation digest : String}
    {action : DialogQueueAction A} (havailable : Available σ session id)
    (hoperation : action.operation = some (id, operation))
    (hfresh : ∀ turn operation expected, action = .promote turn operation expected →
      Fresh σ session env.uuid) :
    Moves P session σ [] (σ.mutateEntry env session id operation digest action).2 [] := by
  by_cases hreorder : ∃ id before operation revision, action = .reorder id before operation revision
  · obtain ⟨id', before, operation', revision, rfl⟩ := hreorder
    exact reorder
  rw [DialogScheduler.mutateEntry]
  · obtain ⟨hprepare, havailable, hsame⟩ := prepare_spec (P := P) env action havailable
    generalize σ.prepare env session action = r at hprepare havailable hsame ⊢
    obtain ⟨e | _, σ₀⟩ := r
    · exact hprepare
    simp only at hprepare havailable hsame ⊢
    refine hprepare.trans ?_
    obtain ⟨σ', heq, hlane⟩ | ⟨turn, σ', heq, htakes⟩ := takeMessage_cases (P := P) havailable
    · rw [heq]
      exact of_lane hlane
    · rw [heq]
      refine (performTaken htakes havailable ⟨operation, hoperation⟩ ?_ ?_).trans
        (of_lane (lane_setSession_same ?_ ?_))
      · exact fun id before operation revision heq => hreorder ⟨id, before, operation, revision, heq⟩
      · intro turn operation target heq
        rw [hsame turn operation target heq]
        exact hfresh turn operation (some target) heq
      · rfl
      · rfl
  · exact fun id before operation revision heq => hreorder ⟨id, before, operation, revision, heq⟩

theorem Moves.mutateHostQueue {hash : Fingerprints A} {env : Surroundings A}
    {action : DialogQueueAction A}
    (hfresh : ∀ turn operation expected, action = .promote turn operation expected →
      Fresh σ session env.uuid) :
    Moves P session σ [] (σ.mutateHostQueue hash env session action).2 [] := by
  rw [DialogScheduler.mutateHostQueue]
  cases hoperation : action.operation with
  | none => exact refl
  | some operation =>
    obtain ⟨id, operation⟩ := operation
    simp only [DialogScheduler.theSession_entries]
    cases (σ.theSession session).operations.lookup operation with
    | some previous =>
      simp only
      split_ifs <;> exact refl
    | none =>
      cases he : (σ.lane session).entries.lookup id with
      | none =>
        simp only
        split_ifs <;> exact refl
      | some e =>
        simp only
        split_ifs with _ _ hstatus
        · exact refl
        · exact refl
        · exact mutateEntry ⟨e, he, by tauto⟩ hoperation hfresh
        · exact refl

/-- What `execute_queue_request` does before its last dispatch. -/
theorem Moves.admitRequest {hash : Fingerprints A} {env : Surroundings A}
    {request : DialogQueueRequest A} (hadmits : σ.Admits (.request env request)) :
    Moves P request.sessionId σ [] (σ.admitRequest hash env request).2 [] := by
  rw [DialogScheduler.admitRequest]
  cases validateSessionId request.sessionId with
  | error e => exact refl
  | ok _ =>
    have hlane := σ.lane_queueSnapshot request.sessionId env none
    generalize σ.queueSnapshot env request.sessionId none = r at hlane ⊢
    obtain ⟨snapshot, σ'⟩ := r
    simp only at hlane ⊢
    split_ifs
    · exact refl
    · exact of_lane hlane
    refine trans (of_lane hlane) ?_
    have hfresh : ∀ turn operation expected, request.action = .promote turn operation expected →
        Fresh σ' request.sessionId env.uuid := by
      intro turn operation expected heq
      rw [DialogScheduler.Admits] at hadmits
      rw [heq] at hadmits
      rw [Fresh, hlane]
      exact ⟨fun id e he => hadmits.1 (id, e) (AssocMap.mem_iter.2 he), hadmits.2.1, hadmits.2.2⟩
    cases haction : request.action with
    | list => exact refl
    | get turnId => exact refl
    | submit message =>
      refine submitHostMessage ?_
      rw [DialogScheduler.Admits, haction] at hadmits
      have hself := congrFun hlane request.sessionId
      have hentries : σ'.hostQueue.contains request.sessionId =
          σ.hostQueue.contains request.sessionId :=
        congrArg Lane.accepted hself
      have hturns : σ'.queues.get request.sessionId = σ.queues.get request.sessionId :=
        congrArg Lane.turns hself
      rw [hentries, hturns]
      exact hadmits
    | _ => exact mutateHostQueue (haction ▸ hfresh)

end HostQueue

end OpenBitFun
