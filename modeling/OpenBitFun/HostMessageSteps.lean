import OpenBitFun.HostMessageMoves

/-!
# The other steps of the scheduler

Holding, clearing, releasing, outcomes and maintenance: each of these steps moves turns of one
session and keeps the invariant. Only a release needs a condition for the order that is shown
(`ReleasesInOrder`), since it puts turns in front of the dispatch queue that are not shown in front.
-/

namespace OpenBitFun

open List

namespace HostQueue

variable {A : Type} {P : Prop}

namespace Moves

variable {σ σ' : DialogScheduler A} {session id : String} {hand : List (QueuedTurn A)}
  {turn : QueuedTurn A}

theorem foldl {f : DialogScheduler A → QueuedTurn A → DialogScheduler A}
    (hf : ∀ σ turn hand, Moves P session σ (turn :: hand) (f σ turn) hand)
    (turns : List (QueuedTurn A)) :
    Moves P session σ (turns ++ hand) (turns.foldl f σ) hand := by
  induction turns generalizing σ with
  | nil => exact refl
  | cons turn turns ih => exact (hf σ turn (turns ++ hand)).trans ih

theorem foldl_same {β : Type} {f : DialogScheduler A → β → DialogScheduler A}
    (hf : ∀ σ x, Moves P session σ hand (f σ x) hand) (xs : List β) :
    Moves P session σ hand (xs.foldl f σ) hand := by
  induction xs generalizing σ with
  | nil => exact refl
  | cons x xs ih => exact (hf σ x).trans ih

/-! ## Taking turns out of the dispatch queue -/

theorem removeQueuedTurnById (σ : DialogScheduler A) (session id : String)
    (hand : List (QueuedTurn A)) :
    (∃ σ', σ.removeQueuedTurnById session id = (none, σ') ∧ σ'.lane = σ.lane) ∨
      ∃ turn q, σ.removeQueuedTurnById session id = (some turn, { σ with queues := q }) ∧
        turn.turnId = some id ∧ Moves P session σ hand { σ with queues := q } (turn :: hand) := by
  obtain ⟨q', heq, hget, -⟩ | ⟨q', front, item, back, heq, hturns, -, hid, hget⟩ :=
    σ.queues.removeFirstMatching_cases session (·.turnId = some id)
  · refine .inl ⟨{ σ with queues := q' }, by rw [DialogScheduler.removeQueuedTurnById, heq], ?_⟩
    funext session'
    rw [DialogScheduler.lane, hget]
    rfl
  · refine .inr ⟨item.turn, q', by rw [DialogScheduler.removeQueuedTurnById, heq],
      of_decide_eq_true hid, of_update (DialogScheduler.lane_queues σ session hget) fun h => ?_⟩
    have hturns' : (σ.lane session).turns = front ++ item :: back := hturns
    have hperm : ([item] ++ (front ++ back)).Perm (σ.lane session).turns := by
      rw [hturns']
      change (item :: (front ++ back)).Perm (front ++ item :: back)
      exact perm_middle.symm
    refine h.take hperm ?_
    rw [hturns']
    exact (sublist_cons_self item back).append_left front

/-- `cancel_queued_or_active_turn`, where the turn is queued. -/
theorem cancelQueuedTurn : Moves P session σ [] (σ.cancelQueuedTurn session id) [] := by
  rw [DialogScheduler.cancelQueuedTurn]
  obtain ⟨σ', heq, hlane⟩ | ⟨turn, q, heq, -, hmoves⟩ :=
    removeQueuedTurnById (P := P) σ session id []
  · rw [heq]
    exact of_lane hlane
  · rw [heq]
    exact hmoves.trans finishRemoved

theorem holdManagedQueue (reason : String) (previous : Option String) :
    Moves P session σ [] (σ.holdManagedQueue session reason previous) [] := by
  refine foldl_same (fun σ id => ?_) _
  obtain ⟨σ', heq, hlane⟩ | ⟨turn, q, heq, -, hmoves⟩ :=
    removeQueuedTurnById (P := P) σ session id []
  · rw [heq]
    exact of_lane hlane
  · rw [heq]
    exact hmoves.trans (hold reason)

theorem clear :
    Moves P session σ hand { σ with queues := (σ.queues.clear session).2 }
      ((σ.queues.clear session).1 ++ hand) := by
  refine of_update (DialogScheduler.lane_queues σ session
    fun session' => σ.queues.get_clear session session') fun h => ?_
  have hperm : (σ.queues.get session ++ []).Perm (σ.lane session).turns := by
    rw [append_nil]
    exact List.Perm.refl _
  exact h.take hperm (nil_sublist _)

/-- `clear_queue_with_policy`, where user messages are preserved. -/
theorem clearQueue : Moves P session σ hand (σ.clearQueue session true) hand :=
  clear.trans (foldl (fun _ _ _ => hold _) _)

/-- Turns go back in front of the dispatch queue, in their order. -/
theorem lane_requeueAll (σ : DialogScheduler A) (session : String) (turns : List (QueuedTurn A)) :
    (turns.reverse.foldl (fun σ turn => σ.requeueFront session turn) σ).lane =
      Function.update σ.lane session { σ.lane session with
        turns := turns.map (fun turn => ⟨turn.policy.queuePriority, turn⟩) ++
          (σ.lane session).turns } := by
  induction turns with
  | nil => exact (Function.update_eq_self _ _).symm
  | cons turn turns ih =>
    rw [reverse_cons, foldl_append, foldl_cons, foldl_nil,
      DialogScheduler.lane_requeueFront, ih, Function.update_idem, Function.update_self]
    rfl

/-- The turns in hand go back in front of the dispatch queue. -/
theorem requeueAll {turns : List (QueuedTurn A)} (hmoves : Moves P session σ hand σ' turns)
    (h : Settled P (σ.lane session) hand →
      (∀ turn ∈ turns, ∀ id e, turn.turnId = some id →
        (σ'.lane session).entries.lookup id = some e → e.view.status = .queued) ∧
      (P → (turns.filterMap (σ'.lane session).message ++ (σ'.lane session).dispatched).Sublist
        (σ'.lane session).order) ∧
      ∀ turn ∈ turns, (σ'.lane session).mine turn) :
    Moves P session σ hand
      (turns.reverse.foldl (fun σ turn => σ.requeueFront session turn) σ') [] := by
  refine ⟨fun session' hne => ?_, fun hsettled => ?_⟩
  · rw [lane_requeueAll, Function.update_of_ne hne]
    exact hmoves.others session' hne
  · obtain ⟨hstatus, hsub, hmine⟩ := h hsettled
    rw [lane_requeueAll, Function.update_self]
    refine Settled.requeueAll ?_ hstatus hsub fun _ => hmine
    rw [append_nil]
    exact hmoves.settled hsettled

end Moves

/-! ## Releases -/

section Release

variable {session target : String}

/-- What holds between two injections of a release: `kept` stay in the buffer, and those of `rest`
that `p` admits are to be released. -/
structure Releasing (P : Prop) (session target : String) (p : RoundInjection A → Bool)
    (names : List String) (kept rest : List (RoundInjection A))
    (r : List (QueuedTurn A) × DialogScheduler A) : Prop where
  /-- The lane would be settled if the injections were in the buffer. -/
  settled : Settled P { r.2.lane session with injections := kept ++ rest } r.1
  /-- The messages that were released are queued. -/
  status : ∀ turn ∈ r.1, ∀ id e, turn.turnId = some id →
    (r.2.lane session).entries.lookup id = some e → e.view.status = .queued
  /-- They were accepted. -/
  mine : ∀ turn ∈ r.1, (r.2.lane session).mine turn
  /-- They are followed by those that are left. -/
  names : r.1.filterMap (·.turnId) ++ (rest.filter p).filterMap (r.2.steeredBy session target) =
    names

/-- A step that changes receipts only. -/
structure Reads (session : String) (σ σ' : DialogScheduler A) : Prop where
  /-- The lanes of the other sessions are as before. -/
  others : ∀ session', session' ≠ session → σ'.lane session' = σ.lane session'
  /-- No message is accepted. -/
  accepted : (σ'.lane session).accepted = (σ.lane session).accepted
  /-- The rest is as before. -/
  same : (σ'.lane session).order = (σ.lane session).order ∧
    (σ'.lane session).turns = (σ.lane session).turns ∧
    (σ'.lane session).injections = (σ.lane session).injections

theorem Reads.refl {σ : DialogScheduler A} : Reads session σ σ :=
  ⟨fun _ _ => rfl, rfl, rfl, rfl, rfl⟩

theorem Reads.trans {σ σ' σ'' : DialogScheduler A} (h : Reads session σ σ')
    (h' : Reads session σ' σ'') : Reads session σ σ'' :=
  ⟨fun session' hne => (h'.others session' hne).trans (h.others session' hne),
    h'.accepted.trans h.accepted, h'.same.1.trans h.same.1, h'.same.2.1.trans h.same.2.1,
    h'.same.2.2.trans h.same.2.2⟩

theorem releaseNext_reads (r : List (QueuedTurn A) × DialogScheduler A) (x : RoundInjection A) :
    Reads session r.2 (DialogScheduler.releaseNext session target r x).2 := by
  obtain ⟨turns, σ⟩ := r
  rw [DialogScheduler.releaseNext, DialogScheduler.releaseTurn]
  generalize (σ.hostQueue.entriesOf session).iter.find? _ = found
  cases found with
  | none => exact Reads.refl
  | some entry =>
    obtain ⟨id, e⟩ := entry
    cases hheld : e.held with
    | none =>
      simp only [hheld]
      exact Reads.refl
    | some turn =>
      simp only [hheld]
      have hlane := DialogScheduler.lane_modifyEntry σ session id fun e : Entry A => { e with
        view := { e.view with
          status := .queued, targetTurnId := none, steeringId := none, reason := none }
        held := none }
      refine ⟨fun session' hne => by rw [hlane, Function.update_of_ne hne], ?_, ?_⟩
      · funext id'
        rw [Lane.accepted, hlane, Function.update_self]
        exact Settled.accepted_modify _ id _ id'
      · rw [hlane, Function.update_self]
        exact ⟨rfl, rfl, rfl⟩

theorem releaseNext_foldl_reads (session target : String) (r : List (QueuedTurn A) × DialogScheduler A)
    (xs : List (RoundInjection A)) :
    Reads session r.2 (xs.foldl (DialogScheduler.releaseNext session target) r).2 := by
  induction xs generalizing r with
  | nil => exact Reads.refl
  | cons x xs ih => exact (releaseNext_reads r x).trans (ih _)

/-- An injection steers one message only. -/
theorem steeredBy_eq_some {σ : DialogScheduler A} {hand : List (QueuedTurn A)}
    {injections : List (RoundInjection A)}
    (h : Lane.Owned { σ.lane session with injections } hand) (target : String)
    (x : RoundInjection A) (id : String) :
    σ.steeredBy session target x = some id ↔ ∃ e,
      (σ.lane session).entries.lookup id = some e ∧ e.steers target ∧
        e.view.steeringId = some x.id := by
  rw [DialogScheduler.steeredBy, Option.map_eq_some_iff]
  constructor
  · rintro ⟨⟨id, e⟩, hfind, rfl⟩
    refine ⟨e, AssocMap.mem_iter.1 (mem_of_find?_eq_some hfind), ?_⟩
    simpa using find?_some hfind
  · rintro ⟨e, he, hsteers, hsid⟩
    generalize hfind : (σ.hostQueue.entriesOf session).iter.find? _ = found
    cases found with
    | none =>
      have := find?_eq_none.1 hfind (id, e) (AssocMap.mem_iter.2 he)
      simp [hsteers, hsid] at this
    | some entry =>
      obtain ⟨id', e'⟩ := entry
      have he' := AssocMap.mem_iter.1 (mem_of_find?_eq_some hfind)
      obtain ⟨-, hsid'⟩ : e'.steers target ∧ e'.view.steeringId = some x.id := by
        simpa using find?_some hfind
      exact ⟨_, rfl, h.steeringIds id' e' id e x.id he' he hsid' hsid⟩

/-- An injection is released: the message that it is of, if there is one, is in hand. -/
theorem releaseNext_releasing {p : RoundInjection A → Bool} {names : List String}
    {kept rest : List (RoundInjection A)} {x : RoundInjection A} {turns : List (QueuedTurn A)}
    {σ : DialogScheduler A} (hp : p x) (hx : x.eligible target)
    (h : Releasing P session target p names kept (x :: rest) (turns, σ)) :
    Releasing P session target p names kept rest
      (DialogScheduler.releaseNext session target (turns, σ) x) := by
  have howner := fun y id => steeredBy_eq_some h.settled.owned target y id
  have hnames := h.names
  rw [filter_cons_of_pos hp] at hnames
  rw [DialogScheduler.releaseNext, DialogScheduler.releaseTurn]
  generalize hfind : (σ.hostQueue.entriesOf session).iter.find? _ = found
  cases found with
  | none =>
    have hnone : σ.steeredBy session target x = none := by
      rw [DialogScheduler.steeredBy, hfind]
      rfl
    rw [filterMap_cons_none hnone] at hnames
    refine ⟨?_, h.status, h.mine, hnames⟩
    refine h.settled.forget ?_ (List.Sublist.refl _) fun id e target' sid he hsteers hsid => ?_
    · exact (sublist_cons_self x rest).append_left kept
    -- no message needs the injection
    have hne : x.id ≠ sid := by
      rintro rfl
      obtain ⟨-, -, -, -, hexact, -⟩ := h.settled.owned.steering he hsteers hsid
      have htarget := hexact x (mem_filter.2 ⟨by simp, by simp⟩)
      rw [RoundInjection.eligible, htarget] at hx
      rw [of_decide_eq_true hx] at hsteers
      rw [(howner x id).2 ⟨e, he, hsteers, hsid⟩] at hnone
      cases hnone
    refine ⟨?_, fun y hy => (mem_filter.1 hy).1⟩
    rw [Lane.injectionsOf, filter_append, filter_append, filter_cons,
      if_neg (by simpa using hne)]
  | some entry =>
    obtain ⟨id, e⟩ := entry
    have he : (σ.lane session).entries.lookup id = some e :=
      AssocMap.mem_iter.1 (mem_of_find?_eq_some hfind)
    obtain ⟨hsteers, hsid⟩ : e.steers target ∧ e.view.steeringId = some x.id := by
      simpa using find?_some hfind
    obtain ⟨-, -, -, hheld, hsteering⟩ := h.settled.owned.steering he hsteers hsid
    obtain ⟨turn, hturn⟩ := Option.isSome_iff_exists.1 hheld
    have hid := h.settled.owned.held id e turn he hturn
    simp only [hturn]
    set f : Entry A → Entry A := fun e => { e with
      view := { e.view with
        status := .queued, targetTurnId := none, steeringId := none, reason := none }
      held := none } with hf
    have hlane := DialogScheduler.lane_modifyEntry σ session id f
    set σ' : DialogScheduler A := { σ with
      hostQueue := σ.hostQueue.modifyEntry session id f }
    have hself : σ'.lane session =
        { σ.lane session with entries := (σ.lane session).entries.modify id f } := by
      rw [hlane, Function.update_self]
    have hentries : ∀ id', (σ'.lane session).entries.lookup id' =
        if id' = id then some (f e) else (σ.lane session).entries.lookup id' := by
      rw [hself]
      exact Lane.lookup_modify_of_some he f
    have haccepted : (σ'.lane session).accepted = (σ.lane session).accepted := by
      funext id'
      rw [Lane.accepted, hself]
      exact Settled.accepted_modify _ id f id'
    have hsettled : Settled P { σ'.lane session with injections := kept ++ rest }
        (turns ++ [turn]) := by
      have hrelease := h.settled.release rfl he hsteers hsid hturn (f := f) ⟨rfl, rfl, rfl, rfl⟩
      rw [hself]
      exact hrelease.perm (perm_append_singleton turn turns)
    -- what is left steers the messages that it steered
    have hrest : (rest.filter p).filterMap (σ'.steeredBy session target) =
        (rest.filter p).filterMap (σ.steeredBy session target) := by
      refine filterMap_congr fun y hy => Option.ext fun id' => ?_
      have hy := (mem_filter.1 hy).1
      have hne : y.id ≠ x.id := by
        intro heq
        have hle : (Lane.injectionsOf { σ.lane session with injections := kept ++ x :: rest }
            x.id).length ≤ 1 := by
          obtain ⟨hone, -⟩ | ⟨hnil, -⟩ := hsteering.2
          · exact hone.le
          · rw [hnil]
            exact zero_le_one
        have hpos := length_pos_of_mem
          (mem_filter.2 ⟨hy, decide_eq_true heq⟩ : y ∈ rest.filter (·.id = x.id))
        rw [Lane.injectionsOf, filter_append, filter_cons, if_pos (by simp),
          length_append, length_cons] at hle
        omega
      rw [steeredBy_eq_some hsettled.owned, howner y id']
      simp only [hentries]
      by_cases heq : id' = id
      · subst heq
        rw [if_pos rfl, he]
        simp [hf, Entry.steers, hsid, Ne.symm hne]
      · rw [if_neg heq]
    refine ⟨hsettled, ?_, ?_, ?_⟩
    · intro turn' hturn' id' e' hid' he'
      rw [hentries] at he'
      split_ifs at he' with heq
      · cases he'
        rfl
      · obtain hturn' | hturn' := mem_append.1 hturn'
        · exact h.status turn' hturn' id' e' hid' he'
        · rw [mem_singleton.1 hturn', hid] at hid'
          exact absurd (Option.some.inj hid').symm heq
    · intro turn' hturn'
      rw [Lane.mine, haccepted]
      obtain hturn' | hturn' := mem_append.1 hturn'
      · exact h.mine turn' hturn'
      · rw [mem_singleton.1 hturn']
        exact Lane.mine_iff.2 ⟨id, hid, by rw [Lane.accepted, he]; rfl⟩
    · rw [filterMap_cons_some ((howner x id).2 ⟨e, he, hsteers, hsid⟩)] at hnames
      rw [hrest, filterMap_append, filterMap_cons_some hid, append_assoc]
      exact hnames

/-- All injections that `p` admits are released. -/
theorem releasing_foldl {p : RoundInjection A → Bool} {names : List String}
    (hp : ∀ x, p x → x.eligible target) (rest : List (RoundInjection A))
    {kept : List (RoundInjection A)} {r : List (QueuedTurn A) × DialogScheduler A}
    (h : Releasing P session target p names kept rest r) :
    Releasing P session target p names (kept ++ rest.filter (!p ·)) []
      ((rest.filter p).foldl (DialogScheduler.releaseNext session target) r) := by
  induction rest generalizing kept r with
  | nil =>
    rw [filter_nil, filter_nil, append_nil]
    exact h
  | cons x rest ih =>
    obtain ⟨turns, σ⟩ := r
    by_cases hx : p x
    · rw [filter_cons_of_pos hx, filter_cons_of_neg (by simp [hx]), foldl_cons]
      exact ih (releaseNext_releasing hx (hp x hx) h)
    · have hnext : Releasing P session target p names (kept ++ [x]) rest (turns, σ) := by
        refine ⟨?_, h.status, h.mine, ?_⟩
        · rw [← append_cons]
          exact h.settled
        · rw [← h.names, filter_cons_of_neg hx]
      rw [filter_cons_of_neg hx, filter_cons_of_pos (by simp [hx]), append_cons]
      exact ih hnext

/-- The injections that `release_steering_turns` takes. -/
def DialogScheduler.managed (σ : DialogScheduler A) (session target : String)
    (x : RoundInjection A) : Bool :=
  (σ.hostQueue.pendingSteeringIds session target).contains x.id && x.eligible target

/-- The scheduler without them. -/
def DialogScheduler.withoutManaged (σ : DialogScheduler A) (session target : String) :
    DialogScheduler A :=
  { σ with
    roundInjectionBuffer := σ.roundInjectionBuffer.insert session
      ((σ.roundInjectionBuffer.list session).filter (!σ.managed session target ·)) }

variable (σ : DialogScheduler A)

theorem releaseTurns_eq : σ.releaseTurns session target =
    ((σ.roundInjectionBuffer.list session).filter (σ.managed session target)).foldl
      (DialogScheduler.releaseNext session target) ([], σ.withoutManaged session target) := rfl

theorem lane_withoutManaged (session target : String) : (σ.withoutManaged session target).lane =
    Function.update σ.lane session { σ.lane session with
      injections := (σ.lane session).injections.filter (!σ.managed session target ·) } :=
  DialogScheduler.lane_buffer σ session _

theorem releaseTurns_same (session target : String) : (∀ session', session' ≠ session →
      (σ.releaseTurns session target).2.lane session' = σ.lane session') ∧
    ((σ.releaseTurns session target).2.lane session).accepted = (σ.lane session).accepted ∧
    ((σ.releaseTurns session target).2.lane session).order = (σ.lane session).order ∧
    ((σ.releaseTurns session target).2.lane session).turns = (σ.lane session).turns := by
  have hreads := releaseNext_foldl_reads session target ([], σ.withoutManaged session target)
    ((σ.roundInjectionBuffer.list session).filter (σ.managed session target))
  rw [← releaseTurns_eq] at hreads
  have hlane := lane_withoutManaged σ session target
  refine ⟨fun session' hne => ?_, ?_, ?_, ?_⟩
  · rw [hreads.others session' hne, hlane, Function.update_of_ne hne]
  · rw [hreads.accepted, hlane, Function.update_self]
    rfl
  · rw [hreads.same.1, hlane, Function.update_self]
  · rw [hreads.same.2.1, hlane, Function.update_self]

theorem releaseTurns_releasing {σ : DialogScheduler A} (target : String) (h : Settled P (σ.lane session) []) :
    Settled P ((σ.releaseTurns session target).2.lane session) (σ.releaseTurns session target).1 ∧
      (∀ turn ∈ (σ.releaseTurns session target).1, ∀ id e, turn.turnId = some id →
        ((σ.releaseTurns session target).2.lane session).entries.lookup id = some e →
          e.view.status = .queued) ∧
      (∀ turn ∈ (σ.releaseTurns session target).1,
        ((σ.releaseTurns session target).2.lane session).mine turn) ∧
      (σ.releaseTurns session target).1.filterMap (·.turnId) =
        (σ.roundInjectionBuffer.list session).filterMap (σ.steeredBy session target) := by
  have hself : (σ.withoutManaged session target).lane session = { σ.lane session with
      injections := (σ.lane session).injections.filter (!σ.managed session target ·) } := by
    rw [lane_withoutManaged, Function.update_self]
  -- every injection that steers a message is released
  have hall : ((σ.roundInjectionBuffer.list session).filter (σ.managed session target)).filterMap
      (σ.steeredBy session target) =
      (σ.roundInjectionBuffer.list session).filterMap (σ.steeredBy session target) := by
    rw [filterMap_filter]
    refine filterMap_congr fun x hx => ?_
    split_ifs with hmanaged
    · rfl
    cases hid : σ.steeredBy session target x with
    | none => rfl
    | some id =>
      obtain ⟨e, he, hsteers, hsid⟩ := (steeredBy_eq_some h.owned target x id).1 hid
      refine absurd ?_ hmanaged
      rw [DialogScheduler.managed, Bool.and_eq_true, contains_iff_mem,
        HostQueueState.pendingSteeringIds, mem_filterMap]
      refine ⟨⟨(id, e), mem_filter.2 ⟨AssocMap.mem_iter.2 he, hsteers⟩, hsid⟩, ?_⟩
      obtain ⟨-, -, -, -, hexact, -⟩ := h.owned.steering he hsteers hsid
      rw [RoundInjection.eligible, hexact x (mem_filter.2 ⟨hx, by simp⟩)]
      exact decide_eq_true rfl
  have hstart : Releasing P session target (σ.managed session target)
      ((σ.roundInjectionBuffer.list session).filterMap (σ.steeredBy session target)) []
      (σ.roundInjectionBuffer.list session) ([], σ.withoutManaged session target) := by
    refine ⟨?_, by rintro turn ⟨⟩, by rintro turn ⟨⟩, hall⟩
    rw [hself]
    exact h
  have hend := releasing_foldl (p := σ.managed session target)
    (fun x hx => (Bool.and_eq_true_iff.1 hx).2) _ hstart
  have hinjections := (releaseNext_foldl_reads session target ([], σ.withoutManaged session target)
    ((σ.roundInjectionBuffer.list session).filter (σ.managed session target))).same.2.2
  rw [← releaseTurns_eq] at hend hinjections
  rw [hself] at hinjections
  change ((σ.releaseTurns session target).2.lane session).injections =
    (σ.lane session).injections.filter (!σ.managed session target ·) at hinjections
  refine ⟨?_, hend.status, hend.mine, ?_⟩
  · have hsettled := hend.settled
    rw [nil_append, append_nil] at hsettled
    change Settled P { ((σ.releaseTurns session target).2.lane session) with
      injections := (σ.lane session).injections.filter (!σ.managed session target ·) } _ at hsettled
    rw [← hinjections] at hsettled
    exact hsettled
  · have hnames := hend.names
    rw [filter_nil, filterMap_nil, append_nil] at hnames
    exact hnames

/-- The messages that a release puts back are shown in front of the queued ones, in the order of
their injections. -/
def DialogScheduler.ReleasesInOrder (σ : DialogScheduler A) (session target : String) : Prop :=
  ((σ.roundInjectionBuffer.list session).filterMap (σ.steeredBy session target) ++
    (σ.lane session).dispatched).Sublist (σ.lane session).order

instance (session target : String) : Decidable (σ.ReleasesInOrder session target) :=
  inferInstanceAs (Decidable (List.Sublist _ _))

theorem Moves.releaseSteeringTurns {σ : DialogScheduler A}
    (horder : P → σ.ReleasesInOrder session target) :
    Moves P session σ [] (σ.releaseSteeringTurns session target).2 [] := by
  obtain ⟨hothers, haccepted, hshown, hturns⟩ :=
    releaseTurns_same σ session target
  change Moves P session σ [] ((σ.releaseTurns session target).1.reverse.foldl
    (fun σ turn => σ.requeueFront session turn) (σ.releaseTurns session target).2) []
  refine requeueAll ⟨hothers, fun h => (releaseTurns_releasing target h).1⟩ fun h => ?_
  obtain ⟨-, hstatus, hmine, hnames⟩ := releaseTurns_releasing target h
  refine ⟨hstatus, fun hP => ?_, hmine⟩
  have hmessage : ((σ.releaseTurns session target).2.lane session).message =
      (σ.lane session).message := by
    funext turn
    rw [Lane.message, Lane.message, haccepted]
  have hsame : (σ.releaseTurns session target).1.filterMap
      ((σ.releaseTurns session target).2.lane session).message =
      (σ.releaseTurns session target).1.filterMap (·.turnId) := by
    refine filterMap_congr fun turn hturn => ?_
    obtain ⟨id, hid, haccepted⟩ := Lane.mine_iff.1 (hmine turn hturn)
    rw [hid, Lane.message_eq_some.2 ⟨hid, haccepted⟩]
  rw [hsame, hnames, hshown, Lane.dispatched, hturns, hmessage]
  exact horder hP

end Release

/-! ## Failed turns -/

section Clear

variable {session : String} {σ : DialogScheduler A}

/-- Holding a turn changes its own receipt only. -/
theorem hold_reads (σ : DialogScheduler A) (session : String) (turn : QueuedTurn A) (reason : String) :
    Reads session σ (σ.hold session turn reason) ∧ ∀ id, turn.turnId ≠ some id →
      ((σ.hold session turn reason).lane session).entries.lookup id =
        (σ.lane session).entries.lookup id := by
  cases hturn : turn.turnId with
  | none =>
    rw [DialogScheduler.hold_none σ session hturn]
    exact ⟨Reads.refl, fun _ _ => rfl⟩
  | some id =>
    rw [DialogScheduler.hold, HostQueueState.hold, hturn]
    have hlane := DialogScheduler.lane_modifyEntry σ session id fun e : Entry A =>
      { e with view := { e.view with status := .blocked, reason := some reason },
               held := some turn }
    refine ⟨⟨fun session' hne => ?_, ?_, ?_⟩, fun id' hne => ?_⟩
    · rw [hlane, Function.update_of_ne hne]
    · funext id'
      rw [Lane.accepted, hlane, Function.update_self]
      exact Settled.accepted_modify _ id _ id'
    · rw [hlane, Function.update_self]
      exact ⟨rfl, rfl, rfl⟩
    · rw [hlane, Function.update_self]
      refine (AssocMap.lookup_modify _ _ _ _).trans (if_neg ?_)
      rintro rfl
      exact hne rfl

theorem hold_foldl_reads (σ : DialogScheduler A) (session : String) (turns : List (QueuedTurn A)) (reason : String) :
    Reads session σ (turns.foldl (fun σ turn => σ.hold session turn reason) σ) ∧
      ∀ id, (∀ turn ∈ turns, turn.turnId ≠ some id) →
        ((turns.foldl (fun σ turn => σ.hold session turn reason) σ).lane session).entries.lookup id =
          (σ.lane session).entries.lookup id := by
  induction turns generalizing σ with
  | nil => exact ⟨Reads.refl, fun _ _ => rfl⟩
  | cons turn turns ih =>
    obtain ⟨hreads, hsame⟩ := hold_reads σ session turn reason
    obtain ⟨hreads', hsame'⟩ := ih (σ := σ.hold session turn reason)
    refine ⟨hreads.trans hreads', fun id hne => ?_⟩
    rw [forall_mem_cons] at hne
    exact (hsame' id hne.2).trans (hsame id hne.1)

/-- Whether a queued turn has one of the given ids. -/
def hasId (ids : List String) (item : QueuedDialogTurn (QueuedTurn A)) : Bool :=
  item.turn.turnId.any ids.contains

/-- `removeAll` takes the turns with the given ids and leaves the others. -/
theorem removeAll_spec (σ : DialogScheduler A) (session : String) (ids : List String) :
    ∃ q, σ.removeAll session ids =
        (((σ.queues.get session).filter (hasId ids)).map (·.turn), { σ with queues := q }) ∧
      ∀ session', q.get session' =
        if session' = session then (σ.queues.get session).filter (!hasId ids ·)
        else σ.queues.get session' := by
  induction hn : σ.queues.depth session using Nat.strong_induction_on generalizing σ with
  | _ n ih =>
    subst hn
    rw [DialogScheduler.removeAll]
    obtain ⟨q', heq, hget, hnot⟩ | ⟨q', front, item, back, heq, hturns, hfront, hitem, hget⟩ :=
      σ.queues.removeFirstMatching_cases session fun turn => turn.turnId.any ids.contains
    · split
      · next turn q'' heq' =>
        rw [heq] at heq'
        cases heq'
      · next q'' heq' =>
        rw [heq] at heq'
        cases heq'
        have hnone : (σ.queues.get session).filter (hasId ids) = [] :=
          filter_eq_nil_iff.2 hnot
        refine ⟨q', ?_, fun session' => ?_⟩
        · rw [hnone, map_nil]
        · rw [hget]
          split_ifs with heq
          · rw [filter_eq_self.2 fun item hitem => by simpa [hasId] using hnot item hitem, heq]
          · rfl
    · split
      · next turn q'' heq' =>
        rw [heq] at heq'
        cases heq'
        have hrest : q'.get session = front ++ back := by rw [hget, if_pos rfl]
        have hdepth : q'.depth session < σ.queues.depth session := by
          rw [DialogTurnQueue.depth, DialogTurnQueue.depth, hrest, hturns]
          simp
        obtain ⟨q, hq, hgetq⟩ := ih _ hdepth { σ with queues := q' } rfl
        have hfront' : front.filter (hasId ids) = [] := filter_eq_nil_iff.2 hfront
        have hfront'' : front.filter (!hasId ids ·) = front :=
          filter_eq_self.2 fun x hx => by simpa [hasId] using hfront x hx
        have hitem' : hasId ids item := hitem
        refine ⟨q, ?_, fun session' => ?_⟩
        · rw [hq, hrest, hturns, filter_append, filter_append, hfront',
            filter_cons_of_pos hitem']
          rfl
        · rw [hgetq, hrest, hget, hturns, filter_append, filter_append, hfront'',
            filter_cons_of_neg (by simp [hitem'])]
          split_ifs <;> rfl
      · next q'' heq' =>
        rw [heq] at heq'
        cases heq'

/-- `TurnOutcomeQueueAction::ClearQueue`. -/
theorem Moves.clearQueueAfter {turn : String} :
    Moves P session σ [] (σ.clearQueueAfter session turn) [] := by
  rw [DialogScheduler.clearQueueAfter]
  set ids := σ.hostQueue.admittedAfter session turn with hids
  obtain ⟨q, hremove, hget⟩ := removeAll_spec σ session ids
  rw [hremove]
  set newer := (σ.queues.get session).filter (hasId ids)
  set older := (σ.queues.get session).filter (!hasId ids ·)
  have hlane := DialogScheduler.lane_queues σ session hget
  have htake : Moves P session σ [] { σ with queues := q } (newer.map (·.turn)) := by
    refine of_update hlane fun h => ?_
    have hperm : (newer ++ older).Perm (σ.lane session).turns := filter_append_perm _ _
    have htaken := h.take hperm filter_sublist
    rwa [append_nil] at htaken
  refine requeueAll (htake.trans clearQueue) fun h => ?_
  -- the older turns are held, and the newer ones are as they were
  have hclear : (q.clear session).1 = older.map (·.turn) := by
    rw [DialogTurnQueue.clear, hget, if_pos rfl]
  obtain ⟨hreads, hsame⟩ := hold_foldl_reads { σ with queues := (q.clear session).2 } session
    (older.map (·.turn)) "Previous turn failed; retry or cancel this message"
  rw [← hclear] at hreads hsame
  change Reads session _ (DialogScheduler.clearQueue { σ with queues := q } session true) at hreads
  have hcleared := DialogScheduler.lane_queues { σ with queues := q } session
    fun session' => q.get_clear session session'
  have hself : ({ σ with queues := (q.clear session).2 } : DialogScheduler A).lane session =
      { σ.lane session with turns := [] } := by
    refine (congrFun hcleared session).trans ?_
    rw [Function.update_self, hlane, Function.update_self]
  set σ' := DialogScheduler.clearQueue { σ with queues := q } session true
  have haccepted : (σ'.lane session).accepted = (σ.lane session).accepted := by
    rw [hreads.accepted, hself]
    rfl
  have hmessage : (σ'.lane session).message = (σ.lane session).message := by
    funext turn
    rw [Lane.message, Lane.message, haccepted]
  refine ⟨?_, fun hP => ?_, ?_⟩
  · intro turn hturn id e hid he
    obtain ⟨item, hitem, rfl⟩ := mem_map.1 hturn
    obtain ⟨hitem, hnewer⟩ := mem_filter.1 hitem
    have hlookup := hsame id (fun turn' hturn' hid' => by
      obtain ⟨item', hitem', rfl⟩ := mem_map.1 (hclear ▸ hturn')
      have holder := (mem_filter.1 hitem').2
      rw [hasId, hid'] at holder
      rw [hasId, hid] at hnewer
      rw [hnewer] at holder
      cases holder)
    rw [hself] at hlookup
    exact h.owned.status_of_mem hitem hid (hlookup.symm.trans he)
  · have hturns : (σ'.lane session).turns = [] := by rw [hreads.same.2.1, hself]
    have horder : (σ'.lane session).order = (σ.lane session).order := by
      rw [hreads.same.1, hself]
    rw [hmessage, horder, Lane.dispatched, hturns, filterMap_nil, append_nil,
      filterMap_map]
    exact (filter_sublist.filterMap _).trans (h.ordered hP).sublist
  · intro turn hturn
    obtain ⟨item, hitem, rfl⟩ := mem_map.1 hturn
    obtain ⟨id, hid, hmem⟩ := (Option.any_eq_true _ _).1 (mem_filter.1 hitem).2
    rw [contains_iff_mem, hids, HostQueueState.admittedAfter, mem_map] at hmem
    obtain ⟨⟨id', e⟩, hentry, rfl⟩ := hmem
    have he : (σ.lane session).entries.lookup id' = some e :=
      AssocMap.mem_iter.1 (mem_filter.1 hentry).1
    refine Lane.mine_iff.2 ⟨id', hid, ?_⟩
    rw [haccepted, Lane.accepted, he]
    rfl

end Clear

end HostQueue

end OpenBitFun
