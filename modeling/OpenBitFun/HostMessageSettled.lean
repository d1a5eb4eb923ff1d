import OpenBitFun.HostMessageOrder

/-!
# The invariant of a lane

`Settled` is the invariant of a lane while a step has turns in hand: `Owned`, and `Ordered` where a
run keeps to a condition `P`. Every primitive step keeps it.
-/

namespace OpenBitFun

open List

namespace HostQueue

variable {A : Type} {P : Prop}

/-- Every message is in one place and, where `P` holds, the dispatch queue has the order that is
shown. -/
structure Settled (P : Prop) (l : Lane A) (hand : List (QueuedTurn A)) : Prop where
  /-- Every message is in one place. -/
  owned : l.Owned hand
  /-- The dispatch queue has the order that is shown. -/
  ordered : P → l.Ordered hand

namespace Settled

variable {l l' : Lane A} {hand hand' : List (QueuedTurn A)} {id : String} {e : Entry A}
  {turn : QueuedTurn A}

theorem empty : Settled P (⟨∅, [], [], [], [], []⟩ : Lane A) [] :=
  ⟨Lane.owned_empty, fun _ => Lane.ordered_empty⟩

theorem accepted_modify (l : Lane A) (id : String) (f : Entry A → Entry A) (id' : String) :
    ((l.entries.modify id f).lookup id').isSome = l.accepted id' := by
  rw [AssocMap.lookup_modify, Lane.accepted]
  split_ifs with h
  · rw [h, Option.isSome_map]
  · rfl

theorem ordered_modify (h : l.Ordered hand) {f : Entry A → Entry A}
    (hentries : l'.entries = l.entries.modify id f) (horder : l'.order = l.order)
    (hturns : l'.turns = l.turns)
    (hheld : ∀ e, l.entries.lookup id = some e → ∀ turn ∈ (f e).held, turn.policy = hostPolicy)
    (hcarried : ∀ turn ∈ hand', l.mine turn → turn.policy = hostPolicy) : l'.Ordered hand' := by
  refine h.change horder ?_ (hturns ▸ List.Sublist.refl _) ?_ hcarried
  · funext id'
    rw [Lane.accepted, hentries, accepted_modify]
  · intro id' e turn he hturn
    rw [hentries, AssocMap.lookup_modify] at he
    split_ifs at he with heq
    · obtain ⟨e, hold, rfl⟩ := Option.map_eq_some_iff.1 he
      exact hheld e hold turn hturn
    · exact h.held id' e turn he hturn

theorem perm (h : Settled P l hand) (hperm : hand'.Perm hand) : Settled P l hand' := by
  refine ⟨h.owned.perm hperm, fun hP => ?_⟩
  exact (h.ordered hP).change rfl rfl (List.Sublist.refl _) (h.ordered hP).held
    fun turn hturn => (h.ordered hP).carried turn (hperm.mem_iff.1 hturn)

/-- Turns are taken out of the dispatch queue. -/
theorem take (h : Settled P l hand) {taken rest : List (QueuedDialogTurn (QueuedTurn A))}
    (hperm : (taken ++ rest).Perm l.turns) (hrest : rest.Sublist l.turns) :
    Settled P { l with turns := rest } (taken.map (·.turn) ++ hand) := by
  refine ⟨h.owned.take hperm, fun hP => ?_⟩
  refine (h.ordered hP).change rfl rfl hrest (h.ordered hP).held fun turn hturn hmine => ?_
  obtain hturn | hturn := mem_append.1 hturn
  · obtain ⟨item, hitem, rfl⟩ := mem_map.1 hturn
    exact (h.ordered hP).queued item (hperm.mem_iff.1 (mem_append_left _ hitem)) hmine
  · exact (h.ordered hP).carried turn hturn hmine

/-- A turn that belongs to no message is dropped. -/
theorem drop (h : Settled P l (turn :: hand)) (hforeign : ¬l.mine turn) : Settled P l hand := by
  refine ⟨h.owned.drop fun id hid => ?_, fun hP => ?_⟩
  · by_contra haccepted
    exact hforeign (Lane.mine_iff.2 ⟨id, hid, Option.isSome_iff_ne_none.2 haccepted⟩)
  · exact (h.ordered hP).change rfl rfl (List.Sublist.refl _) (h.ordered hP).held
      fun turn hturn => (h.ordered hP).carried turn (mem_cons_of_mem _ hturn)

/-- A turn that belongs to no message, as its receipt says. -/
theorem drop_of_none (h : Settled P l (turn :: hand)) (hturn : turn.turnId = some id)
    (hnone : l.entries.lookup id = none) : Settled P l hand := by
  refine h.drop fun hmine => ?_
  obtain ⟨id', hid', haccepted⟩ := Lane.mine_iff.1 hmine
  rw [hturn] at hid'
  cases hid'
  rw [Lane.accepted, hnone] at haccepted
  cases haccepted

theorem modify_of_none (hnone : l.entries.lookup id = none) (f : Entry A → Entry A) :
    l.entries.modify id f = l.entries := by
  rw [AssocMap.modify, hnone]

/-- The turns in hand have the host's policy. -/
theorem carried_tail (h : l.Ordered (turn :: hand)) :
    ∀ turn ∈ hand, l.mine turn → turn.policy = hostPolicy :=
  fun turn hturn => h.carried turn (mem_cons_of_mem _ hturn)

theorem hold (h : Settled P l (turn :: hand)) (hturn : turn.turnId = some id) (reason : String) :
    Settled P { l with entries := l.entries.modify id fun e =>
        { e with view := { e.view with status := .blocked, reason := some reason },
                 held := some turn } } hand := by
  cases he : l.entries.lookup id with
  | none =>
    rw [modify_of_none he]
    exact h.drop_of_none hturn he
  | some e =>
    refine ⟨h.owned.hold hturn he reason, fun hP => ?_⟩
    refine ordered_modify (h.ordered hP) rfl rfl rfl ?_ (carried_tail (h.ordered hP))
    rintro e he _ ⟨⟩
    exact (h.ordered hP).carried turn mem_cons_self
      (Lane.mine_iff.2 ⟨id, hturn, by rw [Lane.accepted, he]; rfl⟩)

theorem cancel (h : Settled P l (turn :: hand)) (hturn : turn.turnId = some id) :
    Settled P { l with entries := l.entries.modify id fun e =>
        { e with view := { e.view with status := .cancelled, reason := none },
                 held := none } } hand := by
  cases he : l.entries.lookup id with
  | none =>
    rw [modify_of_none he]
    exact h.drop_of_none hturn he
  | some e =>
    refine ⟨h.owned.cancel hturn he, fun hP => ?_⟩
    exact ordered_modify (h.ordered hP) rfl rfl rfl (by rintro e he _ ⟨⟩)
      (carried_tail (h.ordered hP))

theorem start (h : Settled P l (turn :: hand)) (hturn : turn.turnId = some id) :
    Settled P { l with
      entries := l.entries.modify id fun e =>
        { e with view := { e.view with status := .started, reason := none }, held := none }
      executed := if l.accepted id then l.executed ++ [id] else l.executed } hand := by
  cases he : l.entries.lookup id with
  | none =>
    rw [modify_of_none he, Lane.accepted, he]
    exact h.drop_of_none hturn he
  | some e =>
    rw [Lane.accepted, he]
    refine ⟨h.owned.start hturn he, fun hP => ?_⟩
    exact ordered_modify (h.ordered hP) rfl rfl rfl (by rintro e he _ ⟨⟩)
      (carried_tail (h.ordered hP))

/-- A turn goes back in front of the dispatch queue. -/
theorem requeue (h : Settled P l (turn :: hand))
    (hstatus : ∀ id e, turn.turnId = some id → l.entries.lookup id = some e →
      e.view.status = .queued)
    (hsub : P → ∀ id, turn.turnId = some id → l.accepted id →
      (id :: l.dispatched).Sublist l.order)
    (hlow : P → DialogQueuePriority.normal.rank ≤ turn.policy.queuePriority.rank ∨
      ∀ item ∈ l.turns, ¬l.mine item.turn) :
    Settled P { l with turns := ⟨turn.policy.queuePriority, turn⟩ :: l.turns } hand :=
  ⟨h.owned.requeue _ hstatus, fun hP => (h.ordered hP).requeue (hsub hP) (hlow hP)⟩

/-- Turns go back in front of the dispatch queue, in their order. -/
theorem requeueAll {turns : List (QueuedTurn A)} (h : Settled P l (turns ++ hand))
    (hstatus : ∀ turn ∈ turns, ∀ id e, turn.turnId = some id → l.entries.lookup id = some e →
      e.view.status = .queued)
    (hsub : P → (turns.filterMap l.message ++ l.dispatched).Sublist l.order)
    (hmine : P → ∀ turn ∈ turns, l.mine turn) :
    Settled P { l with
      turns := turns.map (fun turn => ⟨turn.policy.queuePriority, turn⟩) ++ l.turns } hand := by
  induction turns generalizing hand with
  | nil => exact h
  | cons turn turns ih =>
    rw [forall_mem_cons] at hstatus
    have hmessage : ∀ id, turn.turnId = some id → l.accepted id → l.message turn = some id :=
      fun id hid haccepted => Lane.message_eq_some.2 ⟨hid, haccepted⟩
    have hperm : (turns ++ turn :: hand).Perm (turn :: turns ++ hand) := perm_middle
    have hrest := ih (h.perm hperm) hstatus.2 (fun hP => ?_)
      (fun hP => (forall_mem_cons.1 (hmine hP)).2)
    · have hdispatched : Lane.dispatched { l with
          turns := turns.map (fun turn => ⟨turn.policy.queuePriority, turn⟩) ++ l.turns } =
          turns.filterMap l.message ++ l.dispatched := by
        change List.filterMap _ (_ ++ l.turns) = _
        rw [filterMap_append, filterMap_map]
        rfl
      refine hrest.requeue hstatus.1 (fun hP id hid haccepted => ?_) fun hP => .inl ?_
      · have := hsub hP
        rw [filterMap_cons_some (hmessage id hid haccepted)] at this
        rw [hdispatched]
        exact this
      · have hpolicy := (h.ordered hP).carried turn (mem_append_left _ mem_cons_self)
          (hmine hP turn mem_cons_self)
        rw [hpolicy]
        exact le_rfl
    · refine List.Sublist.trans (List.Sublist.append_right ?_ _) (hsub hP)
      exact (sublist_cons_self turn turns).filterMap _

theorem enqueue (h : Settled P l hand) (hforeign : ∀ id ∈ turn.turnId, l.entries.lookup id = none) :
    Settled P { l with
      turns := DialogTurnQueue.insertByPriority l.turns
        ⟨turn.policy.queuePriority, turn⟩ } hand := by
  refine ⟨h.owned.congr rfl (fun _ _ => rfl) fun id e he hlocated => ?_, fun hP => ?_⟩
  · have hne : turn.turnId ≠ some id := by
      intro hid
      rw [hforeign id hid] at he
      cases he
    have hqueued : Lane.queued { l with
        turns := DialogTurnQueue.insertByPriority l.turns ⟨turn.policy.queuePriority, turn⟩ } id =
        l.queued id := by
      rw [Lane.queued, (DialogTurnQueue.insertByPriority_perm l.turns _).countP_eq,
        countP_cons_of_neg (by simpa using hne)]
      rfl
    exact hlocated.congr (by rw [hqueued]) (.inr hqueued.le) rfl fun _ _ => ⟨rfl, rfl⟩
  · refine (h.ordered hP).enqueue fun hmine => ?_
    obtain ⟨id, hid, haccepted⟩ := Lane.mine_iff.1 hmine
    rw [Lane.accepted, hforeign id hid] at haccepted
    cases haccepted

theorem accept (h : Settled P l []) (hnone : l.entries.lookup id = none)
    (hview : e.view.turnId = id ∧ e.view.status = .queued ∧ e.view.steeringId = none)
    (hheld : e.held = none) (hturn : turn.turnId = some id) (hpolicy : turn.policy = hostPolicy)
    (hnew : ∀ item ∈ l.turns, item.turn.turnId ≠ some id) :
    Settled P { l with
      entries := l.entries.insert id e
      order := l.order ++ [id]
      turns := DialogTurnQueue.insertByPriority l.turns ⟨turn.policy.queuePriority, turn⟩ } [] := by
  refine ⟨h.owned.accept hnone hview.1 hview.2.1 hheld hview.2.2 (fun id' => ?_) ?_, fun hP => ?_⟩
  · rw [(DialogTurnQueue.insertByPriority_perm l.turns _).countP_eq, countP_cons, hturn,
      Lane.queued]
    simp only [Option.some.injEq, decide_eq_true_eq, eq_comm (a := id')]
  · exact countP_eq_zero.2 (by simpa using hnew)
  · exact (h.ordered hP).accept hnone hturn hpolicy hheld hnew (by rintro turn ⟨⟩)

/-- A receipt gives the turn that it holds away. -/
theorem unhold (h : Settled P l hand) (he : l.entries.lookup id = some e)
    (hstatus : e.view.status = .queued ∨ e.view.status = .blocked) (hheld : e.held = some turn) :
    Settled P { l with entries := l.entries.modify id ({ · with held := none }) }
      (turn :: hand) := by
  refine ⟨h.owned.unhold he hstatus hheld, fun hP => ?_⟩
  refine ordered_modify (h.ordered hP) rfl rfl rfl (by rintro e he _ ⟨⟩) ?_
  rw [forall_mem_cons]
  exact ⟨fun _ => (h.ordered hP).held id e turn he hheld, (h.ordered hP).carried⟩

/-- A receipt changes in what says nothing about its turn. -/
theorem touch (h : Settled P l hand) (id : String) {f : Entry A → Entry A}
    (hf : ∀ e, l.entries.lookup id = some e → (f e).view.status = e.view.status ∧
      (f e).view.turnId = e.view.turnId ∧ (f e).view.targetTurnId = e.view.targetTurnId ∧
        (f e).view.steeringId = e.view.steeringId ∧ (f e).held = e.held) :
    Settled P { l with entries := l.entries.modify id f } hand := by
  refine ⟨h.owned.touch id hf, fun hP => ?_⟩
  refine ordered_modify (h.ordered hP) rfl rfl rfl (fun e he turn hturn => ?_) (h.ordered hP).carried
  rw [(hf e he).2.2.2.2] at hturn
  exact (h.ordered hP).held id e turn he hturn

/-- The turns of the messages change places. -/
theorem reorder (h : Settled P l []) {ids : List String} (hids : P → ids.Perm l.dispatched)
    {turns : List (QueuedTurn A)} (hturns : turns.map (·.turnId) = ids.map some)
    (hlength : turns.length = l.turns.countP (DialogTurnQueue.selects (·.turnId) ids))
    (hperm : (overwrite (DialogTurnQueue.selects (·.turnId) ids)
      (fun turn (item : QueuedDialogTurn (QueuedTurn A)) => { item with turn }) l.turns
        turns).Perm l.turns) :
    Settled P { l with
      order := DialogScheduler.reorderShown l.order ids
      turns := overwrite (DialogTurnQueue.selects (·.turnId) ids)
        (fun turn (item : QueuedDialogTurn (QueuedTurn A)) => { item with turn }) l.turns
          turns } [] :=
  ⟨h.owned.reorder hperm, fun hP => (h.ordered hP).reorder (hids hP) hturns hlength hperm⟩

/-! ## Injections -/

/-- A step that changes no receipt and no queue. -/
theorem ordered_congr (h : l.Ordered hand) (hentries : l'.entries = l.entries)
    (horder : l'.order = l.order) (hturns : l'.turns = l.turns) : l'.Ordered hand := by
  refine h.change horder ?_ (hturns ▸ List.Sublist.refl _) ?_ h.carried
  · funext id
    rw [Lane.accepted, hentries]
    rfl
  · rw [hentries]
    exact h.held

theorem steer (h : Settled P l (turn :: hand)) (hturn : turn.turnId = some id)
    (he : l.entries.lookup id = some e) {f : Entry A → Entry A} {target : String}
    {injection : RoundInjection A} (htarget : injection.target = .exactTurn target)
    (hf : (f e).view.status = .steeringPending ∧ (f e).view.turnId = e.view.turnId ∧
      (f e).view.targetTurnId = some target ∧ (f e).view.steeringId = some injection.id ∧
        (f e).held = some turn)
    (hentries : ∀ id e, l.entries.lookup id = some e → e.view.steeringId ≠ some injection.id)
    (hinjections : ∀ x ∈ l.injections, x.id ≠ injection.id)
    (htaken : ∀ x ∈ l.taken, x.2.id ≠ injection.id) :
    Settled P { l with
      entries := l.entries.modify id f, injections := l.injections ++ [injection] } hand := by
  refine ⟨h.owned.steer hturn he htarget hf hentries hinjections htaken, fun hP => ?_⟩
  refine ordered_modify (h.ordered hP) rfl rfl rfl (fun e' he' t ht => ?_)
    (carried_tail (h.ordered hP))
  rw [he] at he'
  cases he'
  rw [hf.2.2.2.2] at ht
  cases ht
  exact (h.ordered hP).carried turn mem_cons_self
    (Lane.mine_iff.2 ⟨id, hturn, by rw [Lane.accepted, he]; rfl⟩)

/-- A message that was to be injected is in hand again. -/
theorem release (h : Settled P l hand) {target : String} {x : RoundInjection A}
    {front back : List (RoundInjection A)} {f : Entry A → Entry A}
    (hinjections : l.injections = front ++ x :: back)
    (he : l.entries.lookup id = some e) (hsteers : e.steers target)
    (hsid : e.view.steeringId = some x.id) (hheld : e.held = some turn)
    (hf : (f e).view.status = .queued ∧ (f e).view.turnId = e.view.turnId ∧
      (f e).view.steeringId = none ∧ (f e).held = none) :
    Settled P { l with entries := l.entries.modify id f, injections := front ++ back }
      (turn :: hand) := by
  refine ⟨h.owned.release hinjections he hsteers hsid hheld hf, fun hP => ?_⟩
  refine ordered_modify (h.ordered hP) rfl rfl rfl (fun e' he' t ht => ?_) ?_
  · rw [he] at he'
    cases he'
    rw [hf.2.2.2] at ht
    cases ht
  · rw [forall_mem_cons]
    exact ⟨fun _ => (h.ordered hP).held id e turn he hheld, (h.ordered hP).carried⟩

/-- Injections that no message needs are dropped. -/
theorem forget (h : Settled P l hand) {injections : List (RoundInjection A)}
    {taken : List (String × RoundInjection A)} (hinjections : injections.Sublist l.injections)
    (htaken : taken.Sublist l.taken)
    (hkept : ∀ id e target sid, l.entries.lookup id = some e → e.steers target →
      e.view.steeringId = some sid → injections.filter (·.id = sid) = l.injectionsOf sid ∧
        ∀ x, (target, x) ∈ l.takenOf sid → (target, x) ∈ taken) :
    Settled P { l with injections, taken } hand :=
  ⟨h.owned.forget hinjections htaken hkept,
    fun hP => ordered_congr (h.ordered hP) rfl rfl rfl⟩

theorem takeInjections (h : Settled P l hand) {taker : String} {p : RoundInjection A → Bool}
    {owner : RoundInjection A → Option String} (heligible : ∀ x, p x → x.eligible taker)
    (howner : ∀ x id, owner x = some id → ∃ e, l.entries.lookup id = some e ∧
      e.view.steeringId = some x.id)
    (howned : ∀ x id e, l.entries.lookup id = some e → e.view.steeringId = some x.id →
      (owner x).isSome) :
    Settled P { l with
      injections := l.injections.filter fun x => !p x
      taken := l.taken ++ (l.injections.filter p).map fun x => (taker, x)
      executed := l.executed ++ (l.injections.filter p).filterMap owner } hand :=
  ⟨h.owned.takeInjections heligible howner howned,
    fun hP => ordered_congr (h.ordered hP) rfl rfl rfl⟩

theorem consume (h : Settled P l hand) {target sid : String}
    (he : l.entries.lookup id = some e) (hsteers : e.steers target)
    (hsid : e.view.steeringId = some sid) :
    Settled P { l with entries := l.entries.modify id fun e =>
        { e with view := { e.view with status := .steered }, held := none } } hand :=
  ⟨h.owned.consume he hsteers hsid, fun hP => ordered_modify (h.ordered hP) rfl rfl rfl
    (by rintro e he _ ⟨⟩) (h.ordered hP).carried⟩

end Settled

end HostQueue

end OpenBitFun
