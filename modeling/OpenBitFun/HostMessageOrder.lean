import OpenBitFun.HostMessageOwnership

/-!
# In which order messages are dispatched

`Ordered` says of a lane that the accepted messages in the dispatch queue are there in the order in
which they are shown. Every primitive step keeps it, except for one that puts turns back in front:
those must be shown in front as well (`Ordered.requeue`).
-/

namespace OpenBitFun

open List

namespace HostQueue

open DialogScheduler (reorderShown)

variable {A : Type}

/-- The policy of the turns of messages. -/
def hostPolicy : DialogSubmissionPolicy := .forSource .desktopUi

namespace Lane

/-- Whether a message was accepted. -/
def accepted (l : Lane A) (id : String) : Bool := (l.entries.lookup id).isSome

/-- Whether a turn belongs to an accepted message. -/
def mine (l : Lane A) (turn : QueuedTurn A) : Bool := turn.turnId.any l.accepted

/-- The message that a turn belongs to. -/
def message (l : Lane A) (turn : QueuedTurn A) : Option String := turn.turnId.filter l.accepted

/-- The accepted messages in the dispatch queue, in its order. -/
def dispatched (l : Lane A) : List String := l.turns.filterMap (l.message ·.turn)

/-- The dispatch queue has the order that is shown. -/
structure Ordered (l : Lane A) (hand : List (QueuedTurn A)) : Prop where
  /-- No message is shown twice. -/
  nodup : l.order.Nodup
  /-- The messages that are shown are those that were accepted. -/
  mem_order : ∀ id, id ∈ l.order ↔ l.accepted id
  /-- Those in the dispatch queue are shown in its order. -/
  sublist : l.dispatched.Sublist l.order
  /-- A turn is queued with its own priority. -/
  priorities : ∀ item ∈ l.turns, item.priority = item.turn.policy.queuePriority
  /-- The turn of a message has the host's policy, in the dispatch queue, -/
  queued : ∀ item ∈ l.turns, l.mine item.turn → item.turn.policy = hostPolicy
  /-- where its receipt holds it, -/
  held : ∀ id e turn, l.entries.lookup id = some e → e.held = some turn → turn.policy = hostPolicy
  /-- and in hand. -/
  carried : ∀ turn ∈ hand, l.mine turn → turn.policy = hostPolicy
  /-- No turn of a lower priority is in front of the turn of a message. -/
  higher : l.turns.Pairwise fun x y => l.mine y.turn →
    DialogQueuePriority.normal.rank ≤ x.priority.rank

variable {l l' : Lane A} {hand hand' : List (QueuedTurn A)} {id : String} {e : Entry A}
  {turn : QueuedTurn A}

theorem ordered_empty : Ordered (⟨∅, [], [], [], [], []⟩ : Lane A) [] := by
  refine ⟨nodup_nil, fun id => ?_, List.Sublist.slnil, ?_, ?_, ?_, ?_, List.Pairwise.nil⟩
  · refine ⟨?_, ?_⟩ <;> rintro ⟨⟩
  · rintro item ⟨⟩
  · rintro item ⟨⟩
  · rintro id e turn ⟨⟩
  · rintro turn ⟨⟩

theorem mine_iff : l.mine turn ↔ ∃ id, turn.turnId = some id ∧ l.accepted id :=
  Option.any_eq_true _ _

theorem message_eq_some : l.message turn = some id ↔ turn.turnId = some id ∧ l.accepted id :=
  Option.filter_eq_some_iff

theorem message_eq_none : l.message turn = none ↔ ¬l.mine turn := by
  rw [mine_iff, message, Option.filter_eq_none_iff]
  simp

/-- A step that accepts nothing and queues nothing. -/
theorem Ordered.change (h : l.Ordered hand) (horder : l'.order = l.order)
    (haccepted : l'.accepted = l.accepted) (hturns : l'.turns.Sublist l.turns)
    (hheld : ∀ id e turn, l'.entries.lookup id = some e → e.held = some turn →
      turn.policy = hostPolicy)
    (hcarried : ∀ turn ∈ hand', l.mine turn → turn.policy = hostPolicy) : l'.Ordered hand' := by
  have hmine : l'.mine = l.mine := by
    funext turn
    rw [mine, mine, haccepted]
  have hmessage : l'.message = l.message := by
    funext turn
    rw [message, message, haccepted]
  refine ⟨horder ▸ h.nodup, ?_, ?_, fun item hitem => h.priorities item (hturns.subset hitem),
    fun item hitem => ?_, hheld, ?_, ?_⟩
  · rw [horder, haccepted]
    exact h.mem_order
  · rw [horder, dispatched, hmessage]
    exact (hturns.filterMap _).trans h.sublist
  · rw [hmine]
    exact h.queued item (hturns.subset hitem)
  · rw [hmine]
    exact hcarried
  · rw [hmine]
    exact h.higher.sublist hturns

/-- A turn is put back in front: it must be shown in front of the messages that are queued, and it
must not keep them back. -/
theorem Ordered.requeue (h : l.Ordered (turn :: hand))
    (hsub : ∀ id, turn.turnId = some id → l.accepted id → (id :: l.dispatched).Sublist l.order)
    (hlow : DialogQueuePriority.normal.rank ≤ turn.policy.queuePriority.rank ∨
      ∀ item ∈ l.turns, ¬l.mine item.turn) :
    Ordered { l with turns := ⟨turn.policy.queuePriority, turn⟩ :: l.turns } hand := by
  refine ⟨h.nodup, h.mem_order, ?_, ?_, ?_, h.held, ?_, ?_⟩
  · change (List.filterMap (fun item => l.message item.turn) (_ :: l.turns)).Sublist l.order
    cases hmessage : l.message turn with
    | none =>
      simp only [filterMap_cons, hmessage]
      exact h.sublist
    | some id =>
      simp only [filterMap_cons, hmessage]
      obtain ⟨hid, haccepted⟩ := message_eq_some.1 hmessage
      exact hsub id hid haccepted
  · rw [forall_mem_cons]
    exact ⟨rfl, h.priorities⟩
  · rw [forall_mem_cons]
    exact ⟨h.carried turn mem_cons_self, h.queued⟩
  · exact fun turn hturn => h.carried turn (mem_cons_of_mem _ hturn)
  · refine pairwise_cons.2 ⟨fun item hitem hmine => ?_, h.higher⟩
    exact hlow.resolve_right fun hnone => hnone item hitem hmine

/-- No message is queued behind the first turn of a lower priority than theirs. -/
theorem Ordered.dropWhile (h : l.Ordered hand) {priority : ℕ}
    (hpriority : priority ≤ DialogQueuePriority.normal.rank) :
    ∀ item ∈ l.turns.dropWhile (priority ≤ ·.priority.rank), ¬l.mine item.turn := by
  have hsub := dropWhile_sublist (l := l.turns)
    fun item => decide (priority ≤ item.priority.rank)
  have hhigher := h.higher.sublist hsub
  cases hdrop : l.turns.dropWhile (priority ≤ ·.priority.rank) with
  | nil => rintro item ⟨⟩
  | cons first rest =>
    rw [hdrop] at hhigher hsub
    have hlow : first.priority.rank < priority := by
      have := dropWhile_get_zero_not (fun item => decide (priority ≤ item.priority.rank)) l.turns
        (by rw [hdrop]; exact Nat.succ_pos _)
      simpa [hdrop] using this
    rw [forall_mem_cons]
    refine ⟨fun hmine => ?_, fun item hitem hmine => ?_⟩
    · have hmem := hsub.subset mem_cons_self
      rw [h.priorities first hmem, h.queued first hmem hmine] at hlow
      exact absurd hlow (Nat.not_lt.2 hpriority)
    · have := (pairwise_cons.1 hhigher).1 item hitem hmine
      omega

theorem Ordered.enqueue (h : l.Ordered hand) (hforeign : ¬l.mine turn) :
    Ordered { l with
      turns := DialogTurnQueue.insertByPriority l.turns
        ⟨turn.policy.queuePriority, turn⟩ } hand := by
  rw [DialogTurnQueue.insertByPriority_eq]
  set front := l.turns.takeWhile (turn.policy.queuePriority.rank ≤ ·.priority.rank) with hfront
  set back := l.turns.dropWhile (turn.policy.queuePriority.rank ≤ ·.priority.rank) with hback
  have hturns : front ++ back = l.turns := takeWhile_append_dropWhile
  have hmem : ∀ {P : QueuedDialogTurn (QueuedTurn A) → Prop},
      P ⟨turn.policy.queuePriority, turn⟩ → (∀ item ∈ l.turns, P item) →
        ∀ item ∈ front ++ ⟨turn.policy.queuePriority, turn⟩ :: back, P item := by
    intro P hnew hold item hitem
    rw [perm_middle.mem_iff, hturns] at hitem
    exact forall_mem_cons.2 ⟨hnew, hold⟩ item hitem
  refine ⟨h.nodup, h.mem_order, ?_, hmem rfl h.priorities,
    hmem (fun hmine => absurd hmine hforeign) h.queued, h.held, h.carried, ?_⟩
  · have hsame : (front ++ ⟨turn.policy.queuePriority, turn⟩ :: back).filterMap (l.message ·.turn) =
        l.dispatched := by
      rw [dispatched, ← hturns, filterMap_append, filterMap_append]
      simp only [filterMap_cons, message_eq_none.2 hforeign]
    exact (congrArg (List.Sublist · l.order) hsame).mpr h.sublist
  · have hhigher := h.higher
    rw [← hturns, pairwise_append] at hhigher
    refine pairwise_append.2 ⟨hhigher.1, pairwise_cons.2 ⟨?_, hhigher.2.1⟩, ?_⟩
    · -- a message behind the new turn is behind one of a lower priority
      intro item hitem hmine
      by_contra hlow
      exact h.dropWhile (Nat.le_of_lt (Nat.lt_of_not_le hlow)) item hitem hmine
    · intro x hx item hitem hmine
      obtain rfl | hitem := mem_cons.1 hitem
      · exact absurd hmine hforeign
      · exact hhigher.2.2 x hx item hitem hmine

/-- A message is accepted: it is queued and shown behind all others. -/
theorem Ordered.accept (h : l.Ordered hand) (hnone : l.entries.lookup id = none)
    (hturn : turn.turnId = some id) (hpolicy : turn.policy = hostPolicy) (hheld : e.held = none)
    (hnew : ∀ item ∈ l.turns, item.turn.turnId ≠ some id)
    (hhand : ∀ turn ∈ hand, turn.turnId ≠ some id) :
    Ordered { l with
      entries := l.entries.insert id e
      order := l.order ++ [id]
      turns := DialogTurnQueue.insertByPriority l.turns
        ⟨turn.policy.queuePriority, turn⟩ } hand := by
  have haccepted : ∀ id', (l.entries.insert id e).lookup id' =
      if id' = id then some e else l.entries.lookup id' :=
    fun id' => AssocMap.lookup_insert _ _ _ _
  rw [DialogTurnQueue.insertByPriority_eq]
  set front := l.turns.takeWhile (turn.policy.queuePriority.rank ≤ ·.priority.rank) with hfront
  set back := l.turns.dropWhile (turn.policy.queuePriority.rank ≤ ·.priority.rank) with hback
  have hturns : front ++ back = l.turns := takeWhile_append_dropWhile
  have hback : ∀ item ∈ back, ¬l.mine item.turn := h.dropWhile (by rw [hpolicy]; exact le_rfl)
  -- what is not the new turn belongs to the messages that it belonged to
  set l' : Lane A := { l with
    entries := l.entries.insert id e
    order := l.order ++ [id]
    turns := front ++ ⟨turn.policy.queuePriority, turn⟩ :: back } with hl'
  have hmessage : ∀ t : QueuedTurn A, t.turnId ≠ some id → l'.message t = l.message t := by
    intro t ht
    rw [message, message]
    cases hid : t.turnId with
    | none => rfl
    | some id' =>
      have hne : id' ≠ id := fun heq => ht (by rw [hid, heq])
      have hsame : l'.accepted id' = l.accepted id' := by
        rw [accepted, hl', haccepted, if_neg hne]
        rfl
      rw [Option.filter_some, Option.filter_some, hsame]
  have hmine : ∀ t : QueuedTurn A, t.turnId ≠ some id → (l'.mine t ↔ l.mine t) := by
    intro t ht
    rw [← not_iff_not, ← message_eq_none, ← message_eq_none, hmessage t ht]
  have hmem : ∀ {P : QueuedDialogTurn (QueuedTurn A) → Prop},
      P ⟨turn.policy.queuePriority, turn⟩ → (∀ item ∈ l.turns, P item) →
        ∀ item ∈ front ++ ⟨turn.policy.queuePriority, turn⟩ :: back, P item := by
    intro P hnew hold item hitem
    rw [perm_middle.mem_iff, hturns] at hitem
    exact forall_mem_cons.2 ⟨hnew, hold⟩ item hitem
  have hfrontIn : ∀ item ∈ front, item ∈ l.turns :=
    fun item hitem => hturns ▸ mem_append_left _ hitem
  have hbackIn : ∀ item ∈ back, item ∈ l.turns :=
    fun item hitem => hturns ▸ mem_append_right _ hitem
  refine ⟨?_, ?_, ?_, hmem rfl h.priorities, ?_, ?_, ?_, ?_⟩
  · refine nodup_append.2 ⟨h.nodup, nodup_singleton id, ?_⟩
    rintro x hx y hy rfl
    rw [mem_singleton.1 hy, h.mem_order, accepted, hnone] at hx
    cases hx
  · intro id'
    rw [accepted, hl']
    simp only [haccepted, mem_append, mem_singleton, h.mem_order, accepted]
    by_cases heq : id' = id
    · simp [heq]
    · simp [heq]
  · have hdispatched : l'.dispatched = l.dispatched ++ [id] := by
      have hfrontSame : front.filterMap (l'.message ·.turn) = front.filterMap (l.message ·.turn) :=
        filterMap_congr fun item hitem => hmessage _ (hnew item (hfrontIn item hitem))
      have hbackNone : back.filterMap (l'.message ·.turn) = [] :=
        filterMap_eq_nil_iff.2 fun item hitem => by
          rw [hmessage _ (hnew item (hbackIn item hitem))]
          exact message_eq_none.2 (hback item hitem)
      have hbackNone' : back.filterMap (l.message ·.turn) = [] :=
        filterMap_eq_nil_iff.2 fun item hitem => message_eq_none.2 (hback item hitem)
      have hself : l'.message turn = some id :=
        message_eq_some.2 ⟨hturn, by rw [accepted, hl', haccepted, if_pos rfl]; rfl⟩
      rw [dispatched, dispatched, ← hturns, filterMap_append, filterMap_append, hfrontSame,
        hbackNone', append_nil]
      simp only [filterMap_cons, hself, hbackNone]
    rw [hdispatched]
    exact h.sublist.append_right _
  · refine hmem (fun _ => hpolicy) fun item hitem hmine' => ?_
    exact h.queued item hitem ((hmine _ (hnew item hitem)).1 hmine')
  · intro id' e' t he' ht
    rw [haccepted] at he'
    split_ifs at he' with heq
    · cases he'
      rw [hheld] at ht
      cases ht
    · exact h.held id' e' t he' ht
  · exact fun t ht hmine' => h.carried t ht ((hmine t (hhand t ht)).1 hmine')
  · have hhigher := h.higher
    rw [← hturns, pairwise_append] at hhigher
    refine pairwise_append.2 ⟨?_, pairwise_cons.2 ⟨?_, ?_⟩, ?_⟩
    · refine hhigher.1.imp_of_mem fun hx hy himp hmine' => himp ?_
      exact (hmine _ (hnew _ (hfrontIn _ hy))).1 hmine'
    · intro item hitem hmine'
      exact absurd ((hmine _ (hnew _ (hbackIn _ hitem))).1 hmine') (hback item hitem)
    · refine hhigher.2.1.imp_of_mem fun hx hy himp hmine' => himp ?_
      exact (hmine _ (hnew _ (hbackIn _ hy))).1 hmine'
    · intro x hx item hitem hmine'
      obtain rfl | hitem := mem_cons.1 hitem
      · rw [hfront] at hx
        have hrank := mem_takeWhile_imp hx
        rw [decide_eq_true_eq, hpolicy] at hrank
        exact hrank
      · exact absurd ((hmine _ (hnew _ (hbackIn _ hitem))).1 hmine') (hback item hitem)

/-! ## Reordering -/

theorem mem_dispatched : id ∈ l.dispatched ↔
    ∃ item ∈ l.turns, item.turn.turnId = some id ∧ l.accepted id := by
  rw [dispatched, mem_filterMap]
  simp only [message_eq_some]

/-- What is in the dispatch queue is what is shown as queued. -/
theorem Owned.mem_dispatched_iff (h : l.Owned []) (he : l.entries.lookup id = some e) :
    id ∈ l.dispatched ↔ e.view.status = .queued := by
  rw [mem_dispatched]
  constructor
  · rintro ⟨item, hitem, hid, -⟩
    exact h.status_of_mem hitem hid he
  · intro hstatus
    have hlocated := h.located id e he
    rw [Located, hstatus] at hlocated
    have hpos : 0 < l.queued id := by
      have := hlocated.2.1
      rw [Lane.carried, countP_nil] at this
      omega
    obtain ⟨item, hitem, hid⟩ := countP_pos_iff.1 hpos
    exact ⟨item, hitem, of_decide_eq_true hid, by rw [accepted, he]; rfl⟩

/-- The messages that are shown as queued are those of the dispatch queue, in its order. -/
theorem Ordered.shown (h : l.Ordered []) (howned : l.Owned []) :
    l.order.filter (fun id => (l.entries.lookup id).any (·.view.status = .queued)) =
      l.dispatched := by
  rw [← filter_mem_of_sublist h.sublist h.nodup]
  refine filter_congr fun id hid => ?_
  obtain ⟨e, he⟩ := Option.isSome_iff_exists.1 ((h.mem_order id).1 hid)
  rw [he, Option.any_some]
  exact decide_eq_decide.2 (howned.mem_dispatched_iff he).symm

/-- The order that is shown, with the queued messages in a new order. -/
theorem reorderShown_eq (shown order : List String) :
    reorderShown shown order = overwrite order.contains (fun turn _ => turn) shown order := by
  rw [← foldl_modify_positions, reorderShown]
  simp only [set_eq_modify]
  rfl

/-- Reordering the turns of all queued messages. -/
theorem Owned.reorder (h : l.Owned hand) {turns : List (QueuedDialogTurn (QueuedTurn A))}
    {order : List String} (hperm : turns.Perm l.turns) :
    Owned { l with order, turns } hand := by
  refine h.congr rfl (fun _ _ => rfl) fun id e _ hlocated => ?_
  have hqueued : Lane.queued { l with order, turns } id = l.queued id := hperm.countP_eq _
  exact hlocated.congr (by rw [hqueued]) (.inr hqueued.le) rfl fun _ _ => ⟨rfl, rfl⟩

/-- Reordering the turns of all queued messages and what is shown. -/
theorem Ordered.reorder (h : l.Ordered []) {ids : List String} (hids : ids.Perm l.dispatched)
    {turns : List (QueuedTurn A)} (hturns : turns.map (·.turnId) = ids.map some)
    (hlength : turns.length = l.turns.countP (DialogTurnQueue.selects (·.turnId) ids))
    (hperm : (overwrite (DialogTurnQueue.selects (·.turnId) ids)
      (fun turn (item : QueuedDialogTurn (QueuedTurn A)) => { item with turn }) l.turns
        turns).Perm l.turns) :
    Ordered { l with
      order := reorderShown l.order ids
      turns := overwrite (DialogTurnQueue.selects (·.turnId) ids)
        (fun turn (item : QueuedDialogTurn (QueuedTurn A)) => { item with turn }) l.turns
          turns } [] := by
  have haccepted : ∀ id ∈ ids, l.accepted id := fun id hid =>
    (mem_dispatched.1 (hids.mem_iff.1 hid)).choose_spec.2.2
  have hturn : ∀ turn ∈ turns, ∃ id ∈ ids, turn.turnId = some id := by
    intro turn hturn
    have hmem : turn.turnId ∈ turns.map (·.turnId) := mem_map_of_mem hturn
    rw [hturns, mem_map] at hmem
    obtain ⟨id, hid, heq⟩ := hmem
    exact ⟨id, hid, heq.symm⟩
  have hselects : ∀ item ∈ l.turns,
      (DialogTurnQueue.selects (·.turnId) ids item ↔ l.mine item.turn) := by
    intro item hitem
    rw [DialogTurnQueue.selects_iff, mine_iff]
    constructor
    · rintro ⟨id, hid, heq⟩
      exact ⟨id, heq, haccepted id hid⟩
    · rintro ⟨id, heq, hid⟩
      exact ⟨id, hids.mem_iff.2 (mem_dispatched.2 ⟨item, hitem, heq, hid⟩), heq⟩
  -- what is shown
  have hshownPart : l.order.filter ids.contains = l.dispatched := by
    rw [← filter_mem_of_sublist h.sublist h.nodup]
    refine filter_congr fun id _ => ?_
    rw [contains_eq_mem]
    exact decide_eq_decide.2 hids.mem_iff
  have hshownLength : ids.length = l.order.countP ids.contains := by
    rw [countP_eq_length_filter, hshownPart, hids.length_eq]
  have hshownPerm : (reorderShown l.order ids).Perm l.order := by
    rw [reorderShown_eq]
    refine (overwrite_perm l.order ids hshownLength).trans ?_
    have hzip : List.zipWith (fun (turn : String) (_ : String) => turn) ids
        (l.order.filter ids.contains) = ids := by
      rw [hshownPart]
      exact map_zip_eq_zipWith.symm.trans (map_fst_zip hids.length_eq.le)
    rw [hzip]
    refine (hids.append_right _).trans ?_
    rw [← hshownPart]
    exact filter_append_perm _ _
  have hshownSublist : ids.Sublist (reorderShown l.order ids) := by
    have hfilter : (reorderShown l.order ids).filterMap (Option.guard ids.contains) = ids := by
      rw [reorderShown_eq, filterMap_overwrite _ id l.order ids hshownLength, map_id]
      · intro x _ hx
        exact Option.guard_eq_none_iff.2 (by simpa using hx)
      · intro v hv x _
        exact Option.guard_eq_some_iff.2 ⟨rfl, contains_iff_mem.2 hv⟩
    rw [filterMap_eq_filter] at hfilter
    conv_lhs => rw [← hfilter]
    exact filter_sublist
  -- what is queued
  have hdispatched : dispatched { l with
      order := reorderShown l.order ids
      turns := overwrite (DialogTurnQueue.selects (·.turnId) ids)
        (fun turn (item : QueuedDialogTurn (QueuedTurn A)) => { item with turn }) l.turns
          turns } = ids := by
    refine (filterMap_overwrite (fun item => l.message item.turn) (fun turn => turn.turnId.getD "")
      l.turns turns hlength ?_ ?_).trans ?_
    · intro item hitem hnot
      exact message_eq_none.2 fun hmine => hnot ((hselects item hitem).2 hmine)
    · intro turn hmem _ _
      obtain ⟨id, hid, heq⟩ := hturn turn hmem
      rw [heq]
      exact message_eq_some.2 ⟨heq, haccepted id hid⟩
    · have := congrArg (List.map (Option.getD · "")) hturns
      simpa [Function.comp_def] using this
  refine ⟨hshownPerm.nodup_iff.2 h.nodup, ?_, ?_, ?_, ?_, h.held, h.carried, ?_⟩
  · intro id
    rw [hshownPerm.mem_iff]
    exact h.mem_order id
  · rw [hdispatched]
    exact hshownSublist
  · exact fun item hitem => h.priorities item (hperm.mem_iff.1 hitem)
  · exact fun item hitem => h.queued item (hperm.mem_iff.1 hitem)
  · have hsame := map_overwrite (p := DialogTurnQueue.selects (·.turnId) ids)
      (g := fun turn (item : QueuedDialogTurn (QueuedTurn A)) => { item with turn })
      (fun item => (item.priority, l.mine item.turn)) l.turns turns (by
        intro turn hmem item hitem hselected
        obtain ⟨id, hid, heq⟩ := hturn turn hmem
        have hmine : l.mine turn := mine_iff.2 ⟨id, heq, haccepted id hid⟩
        rw [hmine, (hselects item hitem).1 hselected])
    have hhigher : (l.turns.map fun item => (item.priority, l.mine item.turn)).Pairwise
        fun x y => y.2 → DialogQueuePriority.normal.rank ≤ x.1.rank :=
      pairwise_map.2 h.higher
    rw [← hsame] at hhigher
    exact pairwise_map.1 hhigher

end Lane

end HostQueue

end OpenBitFun
