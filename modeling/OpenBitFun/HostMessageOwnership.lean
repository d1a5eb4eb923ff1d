import OpenBitFun.HostMessageLane

/-!
# Where the turn of a message is

A step takes turns out of the dispatch queue or out of receipts and puts them elsewhere. In between
they are in its hand. `Owned` says of a lane and the turns in hand that every accepted message is in
exactly one place, that its injection waits or was taken where it is being steered, and that it was
executed at most once. Here every primitive step is shown to keep it.
-/

namespace OpenBitFun

namespace HostQueue

variable {A : Type}

namespace Lane

/-- How often a turn is in the dispatch queue. -/
def queued (l : Lane A) (id : String) : ℕ := l.turns.countP (·.turn.turnId = some id)

/-- How often a turn is in hand. -/
def carried (hand : List (QueuedTurn A)) (id : String) : ℕ := hand.countP (·.turnId = some id)

/-- The injections with an id that wait. -/
def injectionsOf (l : Lane A) (sid : String) : List (RoundInjection A) :=
  l.injections.filter (·.id = sid)

/-- The injections with an id that were taken. -/
def takenOf (l : Lane A) (sid : String) : List (String × RoundInjection A) :=
  l.taken.filter (·.2.id = sid)

/-- How many injections of a message wait. -/
def waits (l : Lane A) (e : Entry A) : ℕ :=
  match e.view.steeringId with
  | some sid => (l.injectionsOf sid).length
  | none => 0

/-- A message that was not executed, and no injection of it is left. -/
def Idle (l : Lane A) (id : String) (e : Entry A) : Prop :=
  l.executed.count id = 0 ∧
    ∀ sid ∈ e.view.steeringId, l.injectionsOf sid = [] ∧ l.takenOf sid = []

/-- A message whose injection waits for its turn, or was taken by it. -/
def Steers (l : Lane A) (id target sid : String) : Prop :=
  (∀ x ∈ l.injectionsOf sid, x.target = .exactTurn target) ∧
    (((l.injectionsOf sid).length = 1 ∧ l.executed.count id = 0 ∧ l.takenOf sid = []) ∨
      (l.injectionsOf sid = [] ∧ l.executed.count id = 1 ∧ ∃ x, (target, x) ∈ l.takenOf sid))

/-- A message is in the one place that its status says, or in hand. -/
def Located (l : Lane A) (hand : List (QueuedTurn A)) (id : String) (e : Entry A) : Prop :=
  match e.view.status with
  | .queued => e.held = none ∧ l.queued id + carried hand id = 1 ∧ l.Idle id e
  | .blocked => l.queued id = 0 ∧ l.Idle id e ∧ carried hand id = if e.held.isSome then 0 else 1
  | .steeringPending => l.queued id = 0 ∧ carried hand id = 0 ∧ e.held.isSome ∧
      ∃ target sid, e.view.targetTurnId = some target ∧ e.view.steeringId = some sid ∧
        l.Steers id target sid
  | _ => l.queued id = 0 ∧ carried hand id = 0 ∧ e.held = none ∧ l.executed.count id + l.waits e ≤ 1

/-- Every accepted message of a lane is in one place. -/
structure Owned (l : Lane A) (hand : List (QueuedTurn A)) : Prop where
  /-- Where it is. -/
  located : ∀ id e, l.entries.lookup id = some e → l.Located hand id e
  /-- No two messages have an injection in common. -/
  steeringIds : ∀ id e id' e' sid, l.entries.lookup id = some e → l.entries.lookup id' = some e' →
    e.view.steeringId = some sid → e'.view.steeringId = some sid → id = id'
  /-- A receipt shows its own id. -/
  named : ∀ id e, l.entries.lookup id = some e → e.view.turnId = id
  /-- A receipt holds its own turn. -/
  held : ∀ id e turn, l.entries.lookup id = some e → e.held = some turn → turn.turnId = some id
  /-- What was not accepted was not executed. -/
  unknown : ∀ id, l.entries.lookup id = none → l.executed.count id = 0

variable {l l' : Lane A} {hand hand' : List (QueuedTurn A)} {id : String} {e : Entry A}
  {turn : QueuedTurn A}

theorem owned_empty : Owned (⟨∅, [], [], [], [], []⟩ : Lane A) [] := by
  refine ⟨?_, ?_, ?_, ?_, fun _ _ => rfl⟩
  · rintro id e ⟨⟩
  · rintro id e id' e' sid ⟨⟩
  · rintro id e ⟨⟩
  · rintro id e turn ⟨⟩

/-! ## What a location depends on -/

theorem Idle.congr (h : l.Idle id e) (hexecuted : l'.executed.count id = l.executed.count id)
    (hsteering : ∀ sid ∈ e.view.steeringId,
      l'.injectionsOf sid = l.injectionsOf sid ∧ l'.takenOf sid = l.takenOf sid) :
    l'.Idle id e := by
  refine ⟨hexecuted.trans h.1, fun sid hsid => ?_⟩
  rw [(hsteering sid hsid).1, (hsteering sid hsid).2]
  exact h.2 sid hsid

/-- A turn may go from the queue to the hand, but not back unless its message is queued. -/
theorem Located.congr (h : l.Located hand id e)
    (hsum : l'.queued id + carried hand' id = l.queued id + carried hand id)
    (hqueued : e.view.status = .queued ∨ l'.queued id ≤ l.queued id)
    (hexecuted : l'.executed.count id = l.executed.count id)
    (hsteering : ∀ sid ∈ e.view.steeringId,
      l'.injectionsOf sid = l.injectionsOf sid ∧ l'.takenOf sid = l.takenOf sid) :
    l'.Located hand' id e := by
  have hwaits : l'.waits e = l.waits e := by
    rw [waits, waits]
    cases hsid : e.view.steeringId with
    | none => rfl
    | some sid => simp only [(hsteering sid hsid).1]
  rw [Located] at h ⊢
  cases hstatus : e.view.status with
  | queued =>
    rw [hstatus] at h
    exact ⟨h.1, hsum.trans h.2.1, h.2.2.congr hexecuted hsteering⟩
  | blocked =>
    rw [hstatus] at h
    have hle := hqueued.resolve_left (by simp [hstatus])
    refine ⟨?_, h.2.1.congr hexecuted hsteering, ?_⟩
    · have := h.1
      omega
    · rw [← h.2.2]
      have := h.1
      omega
  | steeringPending =>
    rw [hstatus] at h
    have hle := hqueued.resolve_left (by simp [hstatus])
    obtain ⟨hq, hc, hheld, target, sid, htarget, hsid, hsteers⟩ := h
    refine ⟨by omega, by omega, hheld, target, sid, htarget, hsid, ?_⟩
    rw [Steers, (hsteering sid hsid).1, (hsteering sid hsid).2, hexecuted]
    exact hsteers
  | _ =>
    rw [hstatus] at h
    have hle := hqueued.resolve_left (by simp [hstatus])
    obtain ⟨hq, hc, hheld, hle'⟩ := h
    exact ⟨by omega, by omega, hheld, by rw [hexecuted, hwaits]; exact hle'⟩

theorem Owned.congr (h : l.Owned hand) (hentries : l'.entries = l.entries)
    (hexecuted : ∀ id, l.entries.lookup id = none → l'.executed.count id = l.executed.count id)
    (hlocated : ∀ id e, l.entries.lookup id = some e → l.Located hand id e →
      l'.Located hand' id e) : l'.Owned hand' := by
  refine ⟨?_, ?_, ?_, ?_, ?_⟩
  · intro id e he
    rw [hentries] at he
    exact hlocated id e he (h.located id e he)
  · rw [hentries]
    exact h.steeringIds
  · rw [hentries]
    exact h.named
  · rw [hentries]
    exact h.held
  · intro id hid
    rw [hentries] at hid
    rw [hexecuted id hid]
    exact h.unknown id hid

/-- A step that changes the receipt of one message. -/
theorem Owned.change (h : l.Owned hand) (id : String)
    (hentries : ∀ id', id' ≠ id → l'.entries.lookup id' = l.entries.lookup id')
    (hexecuted : ∀ id', id' ≠ id → l'.executed.count id' = l.executed.count id')
    (hlocated : ∀ id' e, id' ≠ id → l.entries.lookup id' = some e → l.Located hand id' e →
      l'.Located hand' id' e)
    {e : Entry A} (he : l'.entries.lookup id = some e) (hid : l'.Located hand' id e)
    (hnamed : e.view.turnId = id) (hheld : ∀ turn ∈ e.held, turn.turnId = some id)
    (hsteering : ∀ sid ∈ e.view.steeringId, ∀ id' e', id' ≠ id →
      l.entries.lookup id' = some e' → e'.view.steeringId ≠ some sid) : l'.Owned hand' := by
  -- what the receipts of the lane are, case by case
  have hcases : ∀ id' e', l'.entries.lookup id' = some e' →
      (id' = id ∧ e' = e) ∨ (id' ≠ id ∧ l.entries.lookup id' = some e') := by
    intro id' e' he'
    by_cases heq : id' = id
    · rw [heq, he] at he'
      exact .inl ⟨heq, (Option.some.inj he').symm⟩
    · rw [hentries id' heq] at he'
      exact .inr ⟨heq, he'⟩
  refine ⟨?_, ?_, ?_, ?_, ?_⟩
  · intro id' e' he'
    obtain ⟨rfl, rfl⟩ | ⟨hne, hold⟩ := hcases id' e' he'
    · exact hid
    · exact hlocated id' e' hne hold (h.located id' e' hold)
  · intro id₁ e₁ id₂ e₂ sid he₁ he₂ hsid₁ hsid₂
    obtain ⟨rfl, rfl⟩ | ⟨hne₁, hold₁⟩ := hcases id₁ e₁ he₁
    · obtain ⟨rfl, rfl⟩ | ⟨hne₂, hold₂⟩ := hcases id₂ e₂ he₂
      · rfl
      · exact absurd hsid₂ (hsteering sid hsid₁ id₂ e₂ hne₂ hold₂)
    · obtain ⟨rfl, rfl⟩ | ⟨hne₂, hold₂⟩ := hcases id₂ e₂ he₂
      · exact absurd hsid₁ (hsteering sid hsid₂ id₁ e₁ hne₁ hold₁)
      · exact h.steeringIds id₁ e₁ id₂ e₂ sid hold₁ hold₂ hsid₁ hsid₂
  · intro id' e' he'
    obtain ⟨rfl, rfl⟩ | ⟨-, hold⟩ := hcases id' e' he'
    · exact hnamed
    · exact h.named id' e' hold
  · intro id' e' turn he' hturn
    obtain ⟨rfl, rfl⟩ | ⟨-, hold⟩ := hcases id' e' he'
    · exact hheld turn hturn
    · exact h.held id' e' turn hold hturn
  · intro id' hnone
    by_cases heq : id' = id
    · rw [heq, he] at hnone
      cases hnone
    · rw [hexecuted id' heq]
      rw [hentries id' heq] at hnone
      exact h.unknown id' hnone

/-! ## Turns that change hands -/

theorem carried_cons (turn : QueuedTurn A) (hand : List (QueuedTurn A)) (id : String) :
    carried (turn :: hand) id = carried hand id + if turn.turnId = some id then 1 else 0 := by
  rw [carried, carried, List.countP_cons]
  simp only [decide_eq_true_eq]

/-- A turn of the dispatch queue belongs to a message that is queued. -/
theorem Owned.status_of_mem (h : l.Owned hand) {item : QueuedDialogTurn (QueuedTurn A)}
    (hitem : item ∈ l.turns) (hid : item.turn.turnId = some id)
    (he : l.entries.lookup id = some e) : e.view.status = .queued := by
  have hpos : 0 < l.queued id := List.countP_pos_iff.2 ⟨item, hitem, by simpa using hid⟩
  have hlocated := h.located id e he
  rw [Located] at hlocated
  cases hstatus : e.view.status with
  | queued => rfl
  | _ =>
    rw [hstatus] at hlocated
    exact absurd hlocated.1 (Nat.pos_iff_ne_zero.1 hpos)

theorem carried_append (hand hand' : List (QueuedTurn A)) (id : String) :
    carried (hand ++ hand') id = carried hand id + carried hand' id := List.countP_append

/-- Taking turns out of the dispatch queue. -/
theorem Owned.take (h : l.Owned hand) {taken rest : List (QueuedDialogTurn (QueuedTurn A))}
    (hperm : (taken ++ rest).Perm l.turns) :
    Owned { l with turns := rest } (taken.map (·.turn) ++ hand) := by
  refine h.congr rfl (fun _ _ => rfl) fun id e he hlocated => ?_
  have hqueued : l.queued id = carried (taken.map (·.turn)) id +
      Lane.queued { l with turns := rest } id := by
    rw [queued, queued, ← hperm.countP_eq, List.countP_append, carried, List.countP_map]
    rfl
  refine hlocated.congr ?_ (.inr (by omega)) rfl fun _ _ => ⟨rfl, rfl⟩
  rw [carried_append]
  omega

/-- It does not matter in which order the turns are in hand. -/
theorem Owned.perm (h : l.Owned hand) (hperm : hand'.Perm hand) : l.Owned hand' :=
  h.congr rfl (fun _ _ => rfl) fun id _ _ hlocated =>
    hlocated.congr (by rw [carried, carried, hperm.countP_eq]) (.inr le_rfl) rfl
      fun _ _ => ⟨rfl, rfl⟩

/-- Putting a turn back in front of the dispatch queue. -/
theorem Owned.requeue (h : l.Owned (turn :: hand)) (priority : DialogQueuePriority)
    (hstatus : ∀ id e, turn.turnId = some id → l.entries.lookup id = some e →
      e.view.status = .queued) :
    Owned { l with turns := ⟨priority, turn⟩ :: l.turns } hand := by
  refine h.congr rfl (fun _ _ => rfl) fun id e he hlocated => ?_
  have hqueued : Lane.queued { l with turns := ⟨priority, turn⟩ :: l.turns } id =
      l.queued id + if turn.turnId = some id then 1 else 0 := by
    rw [queued, queued, List.countP_cons]
    simp only [decide_eq_true_eq]
  refine hlocated.congr ?_ ?_ rfl fun _ _ => ⟨rfl, rfl⟩
  · rw [carried_cons]
    omega
  · by_cases hid : turn.turnId = some id
    · exact .inl (hstatus id e hid he)
    · rw [if_neg hid] at hqueued
      exact .inr (by omega)

/-- Dropping a turn that belongs to no message. -/
theorem Owned.drop (h : l.Owned (turn :: hand))
    (hforeign : ∀ id, turn.turnId = some id → l.entries.lookup id = none) : l.Owned hand := by
  refine h.congr rfl (fun _ _ => rfl) fun id e he hlocated => ?_
  have hne : turn.turnId ≠ some id := by
    intro hid
    rw [hforeign id hid] at he
    cases he
  refine hlocated.congr ?_ (.inr le_rfl) rfl fun _ _ => ⟨rfl, rfl⟩
  rw [carried_cons, if_neg hne, Nat.add_zero]

/-- What a turn in hand says about its message. -/
theorem Owned.inHand (h : l.Owned (turn :: hand)) (hturn : turn.turnId = some id)
    (he : l.entries.lookup id = some e) :
    (e.view.status = .queued ∨ e.view.status = .blocked) ∧ e.held = none ∧ l.queued id = 0 ∧
      carried hand id = 0 ∧ l.Idle id e := by
  have hlocated := h.located id e he
  rw [Located, carried_cons, if_pos hturn] at hlocated
  cases hstatus : e.view.status with
  | queued =>
    rw [hstatus] at hlocated
    obtain ⟨hheld, hsum, hidle⟩ := hlocated
    exact ⟨.inl rfl, hheld, by omega, by omega, hidle⟩
  | blocked =>
    rw [hstatus] at hlocated
    obtain ⟨hqueued, hidle, hcarried⟩ := hlocated
    cases hheld : e.held with
    | some _ =>
      rw [hheld] at hcarried
      simp at hcarried
    | none =>
      rw [hheld] at hcarried
      exact ⟨.inr rfl, rfl, hqueued, by simpa using hcarried, hidle⟩
  | _ =>
    rw [hstatus] at hlocated
    have := hlocated.2.1
    omega

/-- Putting a turn where its receipt says, when only that receipt, the injections with its new id
and its own executions change. -/
theorem Owned.put (h : l.Owned (turn :: hand)) (hturn : turn.turnId = some id)
    {e' : Entry A} (hturns : l'.turns = l.turns)
    (hentries : ∀ id', l'.entries.lookup id' = if id' = id then some e' else l.entries.lookup id')
    (hexecuted : ∀ id', id' ≠ id → l'.executed.count id' = l.executed.count id')
    (hsteering : ∀ sid, e'.view.steeringId ≠ some sid →
      l'.injectionsOf sid = l.injectionsOf sid ∧ l'.takenOf sid = l.takenOf sid)
    (hlocated : l'.Located hand id e') (hnamed : e'.view.turnId = id)
    (hheld : ∀ turn ∈ e'.held, turn.turnId = some id)
    (hfresh : ∀ sid ∈ e'.view.steeringId, ∀ id' e, id' ≠ id → l.entries.lookup id' = some e →
      e.view.steeringId ≠ some sid) : l'.Owned hand := by
  refine h.change id (fun id' hne => ?_) hexecuted (fun id' e hne he hold => ?_) ?_ hlocated hnamed
    hheld hfresh
  · rw [hentries, if_neg hne]
  · have hqueued : l'.queued id' = l.queued id' := by rw [queued, queued, hturns]
    have hne' : turn.turnId ≠ some id' := by
      rw [hturn]
      exact fun heq => hne (Option.some.inj heq).symm
    refine hold.congr ?_ (.inr hqueued.le) (hexecuted id' hne) fun sid hsid => ?_
    · rw [hqueued, carried_cons, if_neg hne', Nat.add_zero]
    · exact hsteering sid fun heq => hfresh sid heq id' e hne he hsid
  · rw [hentries, if_pos rfl]

theorem lookup_modify_of_some (he : l.entries.lookup id = some e) (f : Entry A → Entry A)
    (id' : String) : (l.entries.modify id f).lookup id' =
      if id' = id then some (f e) else l.entries.lookup id' := by
  rw [AssocMap.lookup_modify, he, Option.map_some]

theorem Owned.hold (h : l.Owned (turn :: hand)) (hturn : turn.turnId = some id)
    (he : l.entries.lookup id = some e) (reason : String) :
    Owned { l with entries := l.entries.modify id fun e =>
        { e with view := { e.view with status := .blocked, reason := some reason },
                 held := some turn } } hand := by
  obtain ⟨-, -, hqueued, hcarried, hidle⟩ := h.inHand hturn he
  refine h.put hturn rfl (lookup_modify_of_some he _) (fun _ _ => rfl) (fun _ _ => ⟨rfl, rfl⟩)
    ⟨hqueued, hidle, hcarried⟩ (h.named id e he) ?_ ?_
  · rintro _ ⟨⟩
    exact hturn
  · exact fun sid hsid id' e' hne he' hsid' =>
      hne (h.steeringIds id' e' id e sid he' he hsid' hsid)

theorem Owned.cancel (h : l.Owned (turn :: hand)) (hturn : turn.turnId = some id)
    (he : l.entries.lookup id = some e) :
    Owned { l with entries := l.entries.modify id fun e =>
        { e with view := { e.view with status := .cancelled, reason := none },
                 held := none } } hand := by
  obtain ⟨-, -, hqueued, hcarried, hidle⟩ := h.inHand hturn he
  refine h.put hturn rfl (lookup_modify_of_some he _) (fun _ _ => rfl) (fun _ _ => ⟨rfl, rfl⟩)
    ⟨hqueued, hcarried, rfl, ?_⟩ (h.named id e he) (by rintro _ ⟨⟩) ?_
  · have hwaits : l.waits e = 0 := by
      rw [waits]
      cases hsid : e.view.steeringId with
      | none => rfl
      | some sid => exact List.length_eq_zero_iff.2 (hidle.2 sid hsid).1
    exact (Nat.add_le_add hidle.1.le hwaits.le).trans zero_le_one
  · exact fun sid hsid id' e' hne he' hsid' =>
      hne (h.steeringIds id' e' id e sid he' he hsid' hsid)

/-- `started`: the message is executed as a turn of its own. -/
theorem Owned.start (h : l.Owned (turn :: hand)) (hturn : turn.turnId = some id)
    (he : l.entries.lookup id = some e) :
    Owned { l with
      entries := l.entries.modify id fun e =>
        { e with view := { e.view with status := .started, reason := none }, held := none }
      executed := l.executed ++ [id] } hand := by
  obtain ⟨-, -, hqueued, hcarried, hidle⟩ := h.inHand hturn he
  have hcount : ∀ id', (l.executed ++ [id]).count id' =
      l.executed.count id' + if id = id' then 1 else 0 := by
    intro id'
    rw [List.count_append, List.count_singleton]
    simp only [beq_iff_eq]
  refine h.put hturn rfl (lookup_modify_of_some he _) (fun id' hne => ?_) (fun _ _ => ⟨rfl, rfl⟩)
    ⟨hqueued, hcarried, rfl, ?_⟩ (h.named id e he) (by rintro _ ⟨⟩) ?_
  · exact (hcount id').trans (by rw [if_neg (Ne.symm hne)]; rfl)
  · have hwaits : l.waits e = 0 := by
      rw [waits]
      cases hsid : e.view.steeringId with
      | none => rfl
      | some sid => exact List.length_eq_zero_iff.2 (hidle.2 sid hsid).1
    have hone := (hcount id).trans (by rw [hidle.1, if_pos rfl])
    exact (Nat.add_le_add hone.le hwaits.le).trans le_rfl
  · exact fun sid hsid id' e' hne he' hsid' =>
      hne (h.steeringIds id' e' id e sid he' he hsid' hsid)

/-- Steering: the receipt holds the turn while its injection waits. -/
theorem Owned.steer (h : l.Owned (turn :: hand)) (hturn : turn.turnId = some id)
    (he : l.entries.lookup id = some e) {f : Entry A → Entry A} {target : String}
    {injection : RoundInjection A} (htarget : injection.target = .exactTurn target)
    (hf : (f e).view.status = .steeringPending ∧ (f e).view.turnId = e.view.turnId ∧
      (f e).view.targetTurnId = some target ∧ (f e).view.steeringId = some injection.id ∧
        (f e).held = some turn)
    (hentries : ∀ id e, l.entries.lookup id = some e → e.view.steeringId ≠ some injection.id)
    (hinjections : ∀ x ∈ l.injections, x.id ≠ injection.id)
    (htaken : ∀ x ∈ l.taken, x.2.id ≠ injection.id) :
    Owned { l with entries := l.entries.modify id f, injections := l.injections ++ [injection] }
      hand := by
  obtain ⟨hstatus, hname, htargetId, hsid, hheld⟩ := hf
  obtain ⟨-, -, hqueued, hcarried, hidle⟩ := h.inHand hturn he
  have hnew : l.injections.filter (·.id = injection.id) = [] :=
    List.filter_eq_nil_iff.2 (by simpa using hinjections)
  have hwaiting : injectionsOf { l with
      entries := l.entries.modify id f, injections := l.injections ++ [injection] } injection.id =
      [injection] := by
    rw [injectionsOf, List.filter_append, hnew]
    simp
  refine h.put hturn rfl (lookup_modify_of_some he _) (fun _ _ => rfl) (fun sid hne => ⟨?_, rfl⟩)
    ?_ (hname.trans (h.named id e he)) (fun t ht => ?_) fun sid hsid' id' e' _ he' => ?_
  · have hne' : injection.id ≠ sid := fun heq => hne (hsid.trans (congrArg some heq))
    rw [injectionsOf, injectionsOf, List.filter_append]
    simp [hne']
  · rw [Located, hstatus]
    refine ⟨hqueued, hcarried, by rw [hheld]; rfl, target, injection.id, htargetId, hsid, ?_⟩
    rw [Steers, hwaiting]
    refine ⟨by simpa using htarget, .inl ⟨rfl, hidle.1, ?_⟩⟩
    exact List.filter_eq_nil_iff.2 (by simpa using htaken)
  · rw [hheld] at ht
    cases ht
    exact hturn
  · rw [hsid] at hsid'
    cases hsid'
    exact hentries id' e' he'

/-- Taking a turn that its receipt holds. -/
theorem Owned.unhold (h : l.Owned hand) (he : l.entries.lookup id = some e)
    (hstatus : e.view.status = .queued ∨ e.view.status = .blocked) (hheld : e.held = some turn) :
    Owned { l with entries := l.entries.modify id ({ · with held := none }) } (turn :: hand) := by
  have hturn := h.held id e turn he hheld
  have hlocated := h.located id e he
  obtain hstatus | hstatus := hstatus
  · rw [Located, hstatus, hheld] at hlocated
    cases hlocated.1
  rw [Located, hstatus, hheld] at hlocated
  obtain ⟨hqueued, hidle, hcarried⟩ := hlocated
  refine h.change (e := { e with held := none }) id (fun id' hne => ?_) (fun _ _ => rfl)
    (fun id' e' hne he' hold => ?_) (by rw [lookup_modify_of_some he, if_pos rfl]) ?_
    (h.named id e he) (by rintro _ ⟨⟩) ?_
  · rw [lookup_modify_of_some he, if_neg hne]
  · have hne' : turn.turnId ≠ some id' := by
      rw [hturn]
      exact fun heq => hne (Option.some.inj heq).symm
    refine hold.congr ?_ (.inr le_rfl) rfl fun _ _ => ⟨rfl, rfl⟩
    rw [carried_cons, if_neg hne']
    rfl
  · rw [Located]
    simp only [hstatus]
    refine ⟨hqueued, hidle, ?_⟩
    rw [carried_cons, if_pos hturn, hcarried]
    rfl
  · exact fun sid hsid id' e' hne he' hsid' =>
      hne (h.steeringIds id' e' id e sid he' he hsid' hsid)

/-- A receipt changes in what says nothing about its turn. -/
theorem Owned.touch (h : l.Owned hand) (id : String) {f : Entry A → Entry A}
    (hf : ∀ e, l.entries.lookup id = some e → (f e).view.status = e.view.status ∧
      (f e).view.turnId = e.view.turnId ∧ (f e).view.targetTurnId = e.view.targetTurnId ∧
        (f e).view.steeringId = e.view.steeringId ∧ (f e).held = e.held) :
    Owned { l with entries := l.entries.modify id f } hand := by
  cases he : l.entries.lookup id with
  | none =>
    rw [AssocMap.modify, he]
    exact h
  | some e =>
    obtain ⟨hstatus, hname, htarget, hsid, hheld⟩ := hf e he
    refine h.change id (fun id' hne => by rw [lookup_modify_of_some he, if_neg hne])
      (fun _ _ => rfl) (fun id' e' _ _ hold => hold)
      (by rw [lookup_modify_of_some he, if_pos rfl]) ?_ (hname.trans (h.named id e he)) ?_ ?_
    · have hlocated := h.located id e he
      simp only [Located, Idle, waits, hstatus, htarget, hsid, hheld] at hlocated ⊢
      exact hlocated
    · intro turn hturn
      rw [hheld] at hturn
      exact h.held id e turn he hturn
    · intro sid hsid' id' e' hne he' hsid''
      rw [hsid] at hsid'
      exact hne (h.steeringIds id' e' id e sid he' he hsid'' hsid')

/-- Accepting a message: its turn is put into the dispatch queue. -/
theorem Owned.accept (h : l.Owned []) (hnone : l.entries.lookup id = none) (he : e.view.turnId = id)
    (hstatus : e.view.status = .queued) (hheld : e.held = none) (hsid : e.view.steeringId = none)
    {turns : List (QueuedDialogTurn (QueuedTurn A))} {order : List String}
    (hturns : ∀ id', turns.countP (·.turn.turnId = some id') =
      l.queued id' + if id' = id then 1 else 0)
    (hqueued : l.queued id = 0) :
    Owned { l with entries := l.entries.insert id e, order, turns } [] := by
  refine h.change id (fun id' hne => AList.lookup_insert_ne hne) (fun _ _ => rfl)
    (fun id' e' hne _ hold => ?_) (AList.lookup_insert _) ?_ he (by rw [hheld]; rintro _ ⟨⟩)
    (by rw [hsid]; rintro _ ⟨⟩)
  · have hcount : Lane.queued { l with entries := l.entries.insert id e, order, turns } id' =
        l.queued id' := (hturns id').trans (by rw [if_neg hne, Nat.add_zero])
    exact hold.congr (by rw [hcount]) (.inr hcount.le) rfl fun _ _ => ⟨rfl, rfl⟩
  · rw [Located, hstatus]
    refine ⟨hheld, ?_, h.unknown id hnone, by rw [hsid]; rintro _ ⟨⟩⟩
    exact (hturns id).trans (by rw [hqueued, if_pos rfl])

/-! ## Injections -/

/-- What is dropped of the injections is not needed by the message. -/
theorem Located.forget (h : l.Located hand id e) {injections : List (RoundInjection A)}
    {taken : List (String × RoundInjection A)} (hinjections : injections.Sublist l.injections)
    (htaken : taken.Sublist l.taken)
    (hkept : ∀ target sid, e.steers target → e.view.steeringId = some sid →
      injections.filter (·.id = sid) = l.injectionsOf sid ∧
        ∀ x, (target, x) ∈ l.takenOf sid → (target, x) ∈ taken) :
    Located { l with injections, taken } hand id e := by
  have hnone : ∀ sid, l.injectionsOf sid = [] → injections.filter (·.id = sid) = [] :=
    fun sid hsid => List.eq_nil_of_sublist_nil (hsid ▸ hinjections.filter _)
  have htakenNone : ∀ sid, l.takenOf sid = [] → taken.filter (·.2.id = sid) = [] :=
    fun sid hsid => List.eq_nil_of_sublist_nil (hsid ▸ htaken.filter _)
  have hidle : l.Idle id e → Idle { l with injections, taken } id e := fun hidle =>
    ⟨hidle.1, fun sid hsid => ⟨hnone sid (hidle.2 sid hsid).1,
      htakenNone sid (hidle.2 sid hsid).2⟩⟩
  rw [Located] at h ⊢
  cases hstatus : e.view.status with
  | queued =>
    rw [hstatus] at h
    exact ⟨h.1, h.2.1, hidle h.2.2⟩
  | blocked =>
    rw [hstatus] at h
    exact ⟨h.1, hidle h.2.1, h.2.2⟩
  | steeringPending =>
    rw [hstatus] at h
    obtain ⟨hqueued, hcarried, hheld, target, sid, htarget, hsid, hexact, hsteers⟩ := h
    obtain ⟨hsame, hin⟩ := hkept target sid (by simp [Entry.steers, hstatus, htarget]) hsid
    have hsame' : injectionsOf { l with injections, taken } sid = l.injectionsOf sid := hsame
    refine ⟨hqueued, hcarried, hheld, target, sid, htarget, hsid, ?_⟩
    rw [Steers, hsame']
    refine ⟨hexact, hsteers.imp ?_ ?_⟩
    · rintro ⟨hlength, hexecuted, hnot⟩
      exact ⟨hlength, hexecuted, htakenNone sid hnot⟩
    · rintro ⟨hnil, hexecuted, x, hx⟩
      exact ⟨hnil, hexecuted, x,
        List.mem_filter.2 ⟨hin x hx, (List.mem_filter.1 hx).2⟩⟩
  | _ =>
    rw [hstatus] at h
    obtain ⟨hqueued, hcarried, hheld, hle⟩ := h
    refine ⟨hqueued, hcarried, hheld, le_trans (Nat.add_le_add_left ?_ _) hle⟩
    rw [waits, waits]
    cases e.view.steeringId with
    | none => exact le_rfl
    | some sid => exact (hinjections.filter _).length_le

/-- What is dropped of the injections is not needed by a message that is being steered. -/
theorem Owned.forget (h : l.Owned hand) {injections : List (RoundInjection A)}
    {taken : List (String × RoundInjection A)} (hinjections : injections.Sublist l.injections)
    (htaken : taken.Sublist l.taken)
    (hkept : ∀ id e target sid, l.entries.lookup id = some e → e.steers target →
      e.view.steeringId = some sid → injections.filter (·.id = sid) = l.injectionsOf sid ∧
        ∀ x, (target, x) ∈ l.takenOf sid → (target, x) ∈ taken) :
    Owned { l with injections, taken } hand :=
  h.congr rfl (fun _ _ => rfl) fun id e he hlocated =>
    hlocated.forget hinjections htaken fun target sid => hkept id e target sid he

/-- A turn takes injections that are eligible for it; `owner` is the message of an injection. -/
theorem Owned.takeInjections (h : l.Owned hand) {taker : String} {p : RoundInjection A → Bool}
    {owner : RoundInjection A → Option String} (heligible : ∀ x, p x → x.eligible taker)
    (howner : ∀ x id, owner x = some id → ∃ e, l.entries.lookup id = some e ∧
      e.view.steeringId = some x.id)
    (howned : ∀ x id e, l.entries.lookup id = some e → e.view.steeringId = some x.id →
      (owner x).isSome) :
    Owned { l with
      injections := l.injections.filter fun x => !p x
      taken := l.taken ++ (l.injections.filter p).map fun x => (taker, x)
      executed := l.executed ++ (l.injections.filter p).filterMap owner } hand := by
  -- a message is executed once for each of its injections that is taken
  have hmine : ∀ id e sid, l.entries.lookup id = some e → e.view.steeringId = some sid →
      ∀ x, owner x = some id ↔ x.id = sid := by
    intro id e sid he hsid x
    constructor
    · intro hx
      obtain ⟨e', he', hsid'⟩ := howner x id hx
      rw [he] at he'
      cases he'
      rw [hsid] at hsid'
      exact (Option.some.inj hsid').symm
    · intro hx
      rw [← hx] at hsid
      obtain ⟨id', hid'⟩ := Option.isSome_iff_exists.1 (howned x id e he hsid)
      obtain ⟨e', he', hsid'⟩ := howner x id' hid'
      rw [hid', h.steeringIds id' e' id e x.id he' he hsid' hsid]
  have hcount : ∀ id, (l.executed ++ (l.injections.filter p).filterMap owner).count id =
      l.executed.count id + (l.injections.filter p).countP (owner · = some id) := by
    intro id
    rw [List.count_append, List.count_eq_countP (l := (l.injections.filter p).filterMap owner),
      List.countP_filterMap]
    congr 2
    funext x
    cases owner x <;> simp [beq_eq_decide]
  have hnotMine : ∀ id, (∀ x, owner x ≠ some id) →
      (l.executed ++ (l.injections.filter p).filterMap owner).count id = l.executed.count id := by
    intro id hne
    rw [hcount, List.countP_eq_zero.2 (by simpa using fun x _ _ => hne x), Nat.add_zero]
  have hinjections : ∀ sid, (l.injections.filter fun x => !p x).filter (·.id = sid) =
      (l.injectionsOf sid).filter fun x => !p x := by
    intro sid
    rw [injectionsOf, List.filter_filter, List.filter_filter]
    simp only [Bool.and_comm]
  have htaken : ∀ sid, (l.taken ++ (l.injections.filter p).map fun x => (taker, x)).filter
      (·.2.id = sid) = l.takenOf sid ++ ((l.injectionsOf sid).filter p).map fun x => (taker, x) := by
    intro sid
    rw [List.filter_append, List.filter_map, injectionsOf, List.filter_filter, List.filter_filter]
    simp only [Bool.and_comm, Function.comp_def]
    rfl
  have hexecuted : ∀ id e sid, l.entries.lookup id = some e → e.view.steeringId = some sid →
      (l.executed ++ (l.injections.filter p).filterMap owner).count id =
        l.executed.count id + ((l.injectionsOf sid).filter p).length := by
    intro id e sid he hsid
    rw [hcount, injectionsOf, List.filter_filter, List.countP_filter, List.countP_eq_length_filter]
    simp only [hmine id e sid he hsid, Bool.and_comm]
  have hlength : ∀ sid, ((l.injectionsOf sid).filter fun x => !p x).length +
      ((l.injectionsOf sid).filter p).length = (l.injectionsOf sid).length := by
    intro sid
    rw [Nat.add_comm]
    exact (List.length_eq_length_filter_add p).symm
  refine h.congr rfl ?_ ?_
  · intro id hid
    refine hnotMine id fun x hx => ?_
    obtain ⟨e, he, -⟩ := howner x id hx
    rw [hid] at he
    cases he
  intro id e he hlocated
  cases hsid : e.view.steeringId with
  | none =>
    refine hlocated.congr rfl (.inr le_rfl) (hnotMine id fun x hx => ?_) (by simp [hsid])
    obtain ⟨e', he', hsid'⟩ := howner x id hx
    rw [he] at he'
    cases he'
    rw [hsid] at hsid'
    cases hsid'
  | some sid =>
    by_cases hnil : (l.injectionsOf sid).filter p = []
    · -- none of its injections is taken
      refine hlocated.congr rfl (.inr le_rfl) ?_ ?_
      · exact (hexecuted id e sid he hsid).trans (by rw [hnil]; rfl)
      · intro sid' hsid'
        rw [hsid] at hsid'
        cases hsid'
        refine ⟨(hinjections sid).trans (List.filter_eq_self.2 ?_), (htaken sid).trans ?_⟩
        · intro x hx
          have := List.filter_eq_nil_iff.1 hnil x hx
          simpa using this
        · rw [hnil, List.map_nil, List.append_nil]
    · rw [Located] at hlocated ⊢
      cases hstatus : e.view.status with
      | queued =>
        rw [hstatus] at hlocated
        rw [(hlocated.2.2.2 sid hsid).1] at hnil
        exact absurd rfl hnil
      | blocked =>
        rw [hstatus] at hlocated
        rw [(hlocated.2.1.2 sid hsid).1] at hnil
        exact absurd rfl hnil
      | steeringPending =>
        rw [hstatus] at hlocated
        obtain ⟨hqueued, hcarried, hheld, target, sid', htarget, hsid', hexact, hsteers⟩ := hlocated
        rw [hsid] at hsid'
        cases hsid'
        refine ⟨hqueued, hcarried, hheld, target, sid, htarget, hsid, ?_⟩
        obtain ⟨hone, hexecuted', -⟩ | ⟨hnone, -⟩ := hsteers
        · obtain ⟨x, hx⟩ := List.length_eq_one_iff.1 hone
          have hp : p x := by
            by_contra hp
            exact hnil (by rw [hx]; simp [hp])
          -- the turn that takes it is the one that it steers
          have htaker : taker = target := by
            have heligible := heligible x hp
            rw [RoundInjection.eligible, hexact x (by rw [hx]; exact List.mem_singleton_self x)]
              at heligible
            simpa using (of_decide_eq_true heligible).symm
          have hnone : injectionsOf { l with
              injections := l.injections.filter fun x => !p x
              taken := l.taken ++ (l.injections.filter p).map fun x => (taker, x)
              executed := l.executed ++ (l.injections.filter p).filterMap owner } sid = [] :=
            (hinjections sid).trans (by rw [hx]; simp [hp])
          rw [Steers, hnone]
          refine ⟨by rintro _ ⟨⟩, .inr ⟨rfl, ?_, x, ?_⟩⟩
          · refine (hexecuted id e sid he hsid).trans ?_
            rw [hexecuted', hx]
            simp [hp]
          · rw [takenOf, htaken sid, hx, ← htaker]
            simp [hp]
        · rw [hnone] at hnil
          exact absurd rfl hnil
      | _ =>
        rw [hstatus] at hlocated
        obtain ⟨hqueued, hcarried, hheld, hle⟩ := hlocated
        refine ⟨hqueued, hcarried, hheld, ?_⟩
        rw [waits, hsid] at hle
        rw [waits, hsid]
        have hwaits := (congrArg List.length (hinjections sid))
        have hexecuted := hexecuted id e sid he hsid
        have hlength := hlength sid
        simp only [injectionsOf] at *
        omega

/-- What a message that is being steered says. -/
theorem Owned.steering (h : l.Owned hand) {target sid : String}
    (he : l.entries.lookup id = some e) (hsteers : e.steers target)
    (hsid : e.view.steeringId = some sid) : e.view.status = .steeringPending ∧ l.queued id = 0 ∧
      carried hand id = 0 ∧ e.held.isSome ∧ l.Steers id target sid := by
  obtain ⟨hstatus, htarget⟩ : e.view.status = .steeringPending ∧
      e.view.targetTurnId = some target := by simpa [Entry.steers] using hsteers
  have hlocated := h.located id e he
  rw [Located, hstatus] at hlocated
  obtain ⟨hqueued, hcarried, hheld, target', sid', htarget', hsid', hsteers'⟩ := hlocated
  rw [htarget] at htarget'
  rw [hsid] at hsid'
  cases htarget'
  cases hsid'
  exact ⟨hstatus, hqueued, hcarried, hheld, hsteers'⟩

theorem Owned.consume (h : l.Owned hand) {target sid : String}
    (he : l.entries.lookup id = some e) (hsteers : e.steers target)
    (hsid : e.view.steeringId = some sid) :
    Owned { l with entries := l.entries.modify id fun e =>
        { e with view := { e.view with status := .steered }, held := none } } hand := by
  obtain ⟨-, hqueued, hcarried, -, -, hsteers⟩ := h.steering he hsteers hsid
  refine h.change (e := { e with view := { e.view with status := .steered }, held := none }) id
    (fun id' hne => by rw [lookup_modify_of_some he, if_neg hne]) (fun _ _ => rfl)
    (fun _ _ _ _ hold => hold) (by rw [lookup_modify_of_some he, if_pos rfl]) ?_
    (h.named id e he) (by rintro _ ⟨⟩) ?_
  · refine ⟨hqueued, hcarried, rfl, ?_⟩
    rw [waits]
    simp only [hsid]
    change l.executed.count id + (l.injectionsOf sid).length ≤ 1
    obtain ⟨hone, hzero, -⟩ | ⟨hnil, hone, -⟩ := hsteers
    · omega
    · rw [hnil, hone]
      exact le_rfl
  · exact fun sid hsid id' e' hne he' hsid' =>
      hne (h.steeringIds id' e' id e sid he' he hsid' hsid)

/-- Releasing a message: its injection waits no more, and its turn is in hand. -/
theorem Owned.release (h : l.Owned hand) {target : String} {x : RoundInjection A}
    {front back : List (RoundInjection A)} {f : Entry A → Entry A}
    (hinjections : l.injections = front ++ x :: back)
    (he : l.entries.lookup id = some e) (hsteers : e.steers target)
    (hsid : e.view.steeringId = some x.id) (hheld : e.held = some turn)
    (hf : (f e).view.status = .queued ∧ (f e).view.turnId = e.view.turnId ∧
      (f e).view.steeringId = none ∧ (f e).held = none) :
    Owned { l with entries := l.entries.modify id f, injections := front ++ back }
      (turn :: hand) := by
  obtain ⟨hstatus', hname, hsid', hheld'⟩ := hf
  have hturn := h.held id e turn he hheld
  obtain ⟨-, hqueued, hcarried, -, -, hsteers⟩ := h.steering he hsteers hsid
  refine h.change id (fun id' hne => by rw [lookup_modify_of_some he, if_neg hne])
    (fun _ _ => rfl) (fun id' e' hne he' hold => ?_) (by rw [lookup_modify_of_some he, if_pos rfl])
    ?_ (hname.trans (h.named id e he)) (by rw [hheld']; rintro _ ⟨⟩) (by rw [hsid']; rintro _ ⟨⟩)
  · have hne' : turn.turnId ≠ some id' := by
      rw [hturn]
      exact fun heq => hne (Option.some.inj heq).symm
    refine hold.congr (by rw [carried_cons, if_neg hne']; rfl) (.inr le_rfl) rfl
      fun sid hsid'' => ⟨?_, rfl⟩
    have hdiff : x.id ≠ sid := by
      rintro rfl
      exact hne (h.steeringIds id' e' id e x.id he' he hsid'' hsid)
    rw [injectionsOf, injectionsOf, hinjections, List.filter_append, List.filter_append,
      List.filter_cons, if_neg (by simpa using hdiff)]
  · rw [Located, hstatus']
    refine ⟨hheld', ?_, ?_, by rw [hsid']; rintro _ ⟨⟩⟩
    · rw [carried_cons, if_pos hturn, hcarried]
      change l.queued id + 1 = 1
      rw [hqueued]
    · obtain ⟨-, hzero, -⟩ | ⟨hnil, -⟩ := hsteers
      · exact hzero
      · have hmem : x ∈ l.injectionsOf x.id :=
          List.mem_filter.2 ⟨hinjections ▸ List.mem_append_right _ List.mem_cons_self, by simp⟩
        rw [hnil] at hmem
        cases hmem

/-! ## Changes of all receipts -/

/-- The outcome of a turn that has acknowledged its injections: those that are left are dropped. -/
theorem Owned.outcome (h : l.Owned hand) {ended : String} (status : TurnOutcomeStatus)
    {injections : List (RoundInjection A)} (hinjections : injections.Sublist l.injections)
    (htaken : ∀ x ∈ l.taken, x.1 ≠ ended)
    (hdropped : ∀ id e sid, l.entries.lookup id = some e → e.steers ended →
      e.view.steeringId = some sid → injections.filter (·.id = sid) = [])
    (hkept : ∀ id e target sid, l.entries.lookup id = some e → e.steers target →
      target ≠ ended → e.view.steeringId = some sid →
        injections.filter (·.id = sid) = l.injectionsOf sid) :
    Owned { l with
      entries := l.entries.mapValues (HostQueueState.outcomeEntry ended status), injections }
      hand := by
  have hlookup : ∀ id e', (l.entries.mapValues (HostQueueState.outcomeEntry ended status)).lookup
      id = some e' → ∃ e, l.entries.lookup id = some e ∧
        e' = HostQueueState.outcomeEntry ended status id e := by
    intro id e' he'
    rw [AssocMap.lookup_mapValues] at he'
    obtain ⟨e, he, heq⟩ := Option.map_eq_some_iff.1 he'
    exact ⟨e, he, heq.symm⟩
  have hview : ∀ id (e : Entry A),
      (HostQueueState.outcomeEntry ended status id e).view.steeringId = e.view.steeringId ∧
        (HostQueueState.outcomeEntry ended status id e).view.turnId = e.view.turnId ∧
        (HostQueueState.outcomeEntry ended status id e).held = e.held := by
    intro id e
    rw [HostQueueState.outcomeEntry]
    split_ifs <;> exact ⟨rfl, rfl, rfl⟩
  refine ⟨?_, ?_, ?_, ?_, ?_⟩
  · intro id e' he'
    obtain ⟨e, he, rfl⟩ := hlookup id e' he'
    have hlocated := h.located id e he
    rw [HostQueueState.outcomeEntry]
    split_ifs with hfinished hsteers
    · -- the message whose turn ended stays where it was
      have hend := hlocated.forget hinjections (List.Sublist.refl _) (by
        intro target sid hsteers
        obtain ⟨-, hstatus⟩ : id = ended ∧ (e.view.status = .started ∨
          e.view.status = .interrupted) := by
          simpa [HostQueueState.isFinished] using hfinished
        have : e.view.status = .steeringPending ∧ e.view.targetTurnId = some target := by
          simpa [Entry.steers] using hsteers
        obtain hstatus | hstatus := hstatus <;> simp [hstatus] at this)
      obtain ⟨-, hstatus⟩ : id = ended ∧ (e.view.status = .started ∨
        e.view.status = .interrupted) := by
        simpa [HostQueueState.isFinished] using hfinished
      obtain hstatus | hstatus := hstatus <;> rw [Located, hstatus] at hend <;>
        cases status <;> exact hend
    · cases hsid : e.view.steeringId with
      | none =>
        obtain ⟨hstatus, -⟩ : e.view.status = .steeringPending ∧
          e.view.targetTurnId = some ended := by simpa [Entry.steers] using hsteers
        rw [Located, hstatus] at hlocated
        obtain ⟨-, -, -, -, sid, -, hsid', -⟩ := hlocated
        rw [hsid] at hsid'
        cases hsid'
      | some sid =>
        obtain ⟨-, hqueued, hcarried, hheld, -, hsteering⟩ := h.steering he hsteers hsid
        have hnot : ∀ x, (ended, x) ∉ l.takenOf sid :=
          fun x hx => htaken _ (List.mem_filter.1 hx).1 rfl
        refine ⟨hqueued, ⟨?_, ?_⟩, ?_⟩
        · obtain ⟨-, hzero, -⟩ | ⟨-, -, x, hx⟩ := hsteering
          · exact hzero
          · exact absurd hx (hnot x)
        · intro sid' hsid'
          rw [hsid] at hsid'
          cases hsid'
          refine ⟨hdropped id e sid he hsteers hsid, ?_⟩
          obtain ⟨-, -, hnone⟩ | ⟨-, -, x, hx⟩ := hsteering
          · exact hnone
          · exact absurd hx (hnot x)
        · rw [hcarried, if_pos hheld]
    · refine hlocated.forget hinjections (List.Sublist.refl _) fun target sid hsteers' hsid => ?_
      refine ⟨hkept id e target sid he hsteers' ?_ hsid, fun x hx => (List.mem_filter.1 hx).1⟩
      rintro rfl
      exact hsteers hsteers'
  · intro id e' id' e'' sid he' he'' hsid hsid'
    obtain ⟨e₁, he₁, rfl⟩ := hlookup id e' he'
    obtain ⟨e₂, he₂, rfl⟩ := hlookup id' e'' he''
    rw [(hview _ _).1] at hsid hsid'
    exact h.steeringIds id e₁ id' e₂ sid he₁ he₂ hsid hsid'
  · intro id e' he'
    obtain ⟨e, he, rfl⟩ := hlookup id e' he'
    rw [(hview _ _).2.1]
    exact h.named id e he
  · intro id e' turn he' hturn
    obtain ⟨e, he, rfl⟩ := hlookup id e' he'
    rw [(hview _ _).2.2] at hturn
    exact h.held id e turn he hturn
  · intro id hid
    rw [AssocMap.lookup_mapValues, Option.map_eq_none_iff] at hid
    exact h.unknown id hid

/-- Retirement: what was pending is cancelled, and the dispatch queue is empty. -/
theorem Owned.retire (h : l.Owned []) {entries : AssocMap String (Entry A)}
    {injections : List (RoundInjection A)} (hinjections : injections.Sublist l.injections)
    (hentries : ∀ id, (entries.lookup id).isSome = (l.entries.lookup id).isSome)
    (hretired : ∀ id e', entries.lookup id = some e' → ∃ e, l.entries.lookup id = some e ∧
      e'.view.turnId = e.view.turnId ∧ e'.view.steeringId = e.view.steeringId ∧ e'.held = none ∧
        e'.view.status = if e.view.status.isPending then .cancelled else e.view.status) :
    Owned { l with entries, turns := [], injections } [] := by
  have hwaits : ∀ e e' : Entry A, e'.view.steeringId = e.view.steeringId →
      waits { l with entries, turns := [], injections } e' ≤ l.waits e := by
    intro e e' hsid
    rw [waits, waits, hsid]
    cases e.view.steeringId with
    | none => exact le_rfl
    | some sid => exact (hinjections.filter _).length_le
  refine ⟨?_, ?_, ?_, ?_, ?_⟩
  · intro id e' he'
    obtain ⟨e, he, -, hsid, hheld, hstatus⟩ := hretired id e' he'
    have hle : l.executed.count id + l.waits e ≤ 1 := by
      have hlocated := h.located id e he
      have hidle : l.Idle id e → l.executed.count id + l.waits e ≤ 1 := by
        intro hidle
        rw [hidle.1, waits]
        cases hsid : e.view.steeringId with
        | none => exact zero_le_one
        | some sid =>
          simp only [(hidle.2 sid hsid).1]
          exact zero_le_one
      rw [Located] at hlocated
      cases hstatus : e.view.status with
      | queued =>
        rw [hstatus] at hlocated
        exact hidle hlocated.2.2
      | blocked =>
        rw [hstatus] at hlocated
        exact hidle hlocated.2.1
      | steeringPending =>
        rw [hstatus] at hlocated
        obtain ⟨-, -, -, target, sid, -, hsid, -, hsteers⟩ := hlocated
        rw [waits, hsid]
        obtain ⟨hone, hzero, -⟩ | ⟨hnil, hone, -⟩ := hsteers
        · simp only
          omega
        · simp only [hnil, List.length_nil]
          omega
      | _ =>
        rw [hstatus] at hlocated
        exact hlocated.2.2.2
    have hle' := (Nat.add_le_add_left (hwaits e e' hsid) (l.executed.count id)).trans hle
    rw [Located]
    cases hpending : e.view.status <;> rw [hpending] at hstatus <;> rw [hstatus] <;>
      exact ⟨rfl, rfl, hheld, hle'⟩
  · intro id e' id' e'' sid he' he'' hsid hsid'
    obtain ⟨e₁, he₁, -, hsid₁, -⟩ := hretired id e' he'
    obtain ⟨e₂, he₂, -, hsid₂, -⟩ := hretired id' e'' he''
    exact h.steeringIds id e₁ id' e₂ sid he₁ he₂ (hsid₁ ▸ hsid) (hsid₂ ▸ hsid')
  · intro id e' he'
    obtain ⟨e, he, hname, -⟩ := hretired id e' he'
    exact hname.trans (h.named id e he)
  · intro id e' turn he' hturn
    obtain ⟨-, -, -, -, hheld, -⟩ := hretired id e' he'
    rw [hheld] at hturn
    cases hturn
  · intro id hid
    refine h.unknown id (Option.isNone_iff_eq_none.1 ?_)
    rw [Option.isNone_iff_eq_none, ← Option.not_isSome_iff_eq_none, ← hentries, hid]
    simp

end Lane

end HostQueue

end OpenBitFun
