import OpenBitFun.HostMessageSettled

/-!
# How the steps of the scheduler move messages

`Moves` relates two schedulers between which a step changes the lane of one session and keeps the
invariant, where turns are in hand before and after. The primitive steps are such moves, and so is a
dispatch that discards no turn of a message.
-/

namespace OpenBitFun

open List

namespace HostQueue

variable {A : Type} {P : Prop}

/-! ## Moves -/

/-- A step that changes the lane of one session, and what it has in hand. -/
structure Moves (P : Prop) (session : String) (σ : DialogScheduler A) (hand : List (QueuedTurn A))
    (σ' : DialogScheduler A) (hand' : List (QueuedTurn A)) : Prop where
  /-- The lanes of the other sessions are as before. -/
  others : ∀ session', session' ≠ session → σ'.lane session' = σ.lane session'
  /-- The invariant is kept. -/
  settled : Settled P (σ.lane session) hand → Settled P (σ'.lane session) hand'

namespace Moves

variable {σ σ' σ'' : DialogScheduler A} {session : String} {hand hand' hand'' : List (QueuedTurn A)}
  {turn : QueuedTurn A}

theorem of_lane (h : σ'.lane = σ.lane) : Moves P session σ hand σ' hand :=
  ⟨fun session' _ => by rw [h], fun hsettled => by rwa [h]⟩

theorem refl : Moves P session σ hand σ hand := of_lane rfl

theorem trans (h : Moves P session σ hand σ' hand') (h' : Moves P session σ' hand' σ'' hand'') :
    Moves P session σ hand σ'' hand'' :=
  ⟨fun session' hne => (h'.others session' hne).trans (h.others session' hne),
    fun hsettled => h'.settled (h.settled hsettled)⟩

/-- A step is given by the lane that it leaves. -/
theorem of_update {l : Lane A} (h : σ'.lane = Function.update σ.lane session l)
    (hsettled : Settled P (σ.lane session) hand → Settled P l hand') :
    Moves P session σ hand σ' hand' := by
  refine ⟨fun session' hne => by rw [h, Function.update_of_ne hne], fun hold => ?_⟩
  rw [h, Function.update_self]
  exact hsettled hold

theorem hold (reason : String) :
    Moves P session σ (turn :: hand) (σ.hold session turn reason) hand := by
  cases hturn : turn.turnId with
  | none =>
    rw [DialogScheduler.hold_none σ session hturn]
    exact ⟨fun _ _ => rfl, fun h => h.drop (by simp [Lane.mine, hturn])⟩
  | some id =>
    refine of_update (DialogScheduler.lane_hold σ session hturn reason) fun h => ?_
    exact h.hold hturn reason

theorem finishRemoved :
    Moves P session σ (turn :: hand) (σ.finishRemovedQueuedTurn session turn) hand := by
  cases hturn : turn.turnId with
  | none =>
    rw [DialogScheduler.finishRemovedQueuedTurn_none σ session hturn]
    exact ⟨fun _ _ => rfl, fun h => h.drop (by simp [Lane.mine, hturn])⟩
  | some id =>
    refine of_update (DialogScheduler.lane_cancelled σ session hturn) fun h => ?_
    exact h.cancel hturn

/-- `start_turn`: a turn that does not start stays in hand. -/
theorem startTurn (σ : DialogScheduler A) (session : String) (turn : QueuedTurn A)
    (hand : List (QueuedTurn A)) (env : Surroundings A) :
    (∃ id, (σ.startTurn env session turn).1 = .ok id ∧
        Moves P session σ (turn :: hand) (σ.startTurn env session turn).2 hand) ∨
      (∃ e, σ.startTurn env session turn = (.error e, σ)) := by
  rw [DialogScheduler.startTurn]
  cases env.startTurnInner with
  | error e => exact .inr ⟨e, rfl⟩
  | ok _ =>
    cases hturn : turn.turnId with
    | none => exact .inl ⟨_, rfl, fun _ _ => rfl, fun h => h.drop (by simp [Lane.mine, hturn])⟩
    | some id =>
      exact .inl ⟨id, rfl, of_update (DialogScheduler.lane_started σ session id)
        fun h => h.start hturn⟩

end Moves

/-! ## Dispatches -/

section Dispatch

variable {σ σ' : DialogScheduler A} {session : String} {turn : QueuedTurn A}
  {q q' : DialogTurnQueue (QueuedTurn A)} {env : Surroundings A} {held : Bool}

/-- A turn is taken out of the dispatch queue in such a way that it may be put back in front. -/
structure Takes (P : Prop) (session : String) (σ σ' : DialogScheduler A) (turn : QueuedTurn A) :
    Prop where
  /-- The turn is in hand. -/
  moves : Moves P session σ [] σ' [turn]
  /-- Its message is queued. -/
  status : Settled P (σ.lane session) [] → ∀ id e, turn.turnId = some id →
    (σ'.lane session).entries.lookup id = some e → e.view.status = .queued
  /-- No other message is queued in front of it. -/
  sublist : Settled P (σ.lane session) [] → P → ∀ id, turn.turnId = some id →
    (σ'.lane session).accepted id →
      (id :: (σ'.lane session).dispatched).Sublist (σ'.lane session).order
  /-- It keeps no message of a higher priority back. -/
  low : Settled P (σ.lane session) [] → P →
    DialogQueuePriority.normal.rank ≤ turn.policy.queuePriority.rank ∨
      ∀ item ∈ (σ'.lane session).turns, ¬(σ'.lane session).mine item.turn

theorem Takes.requeue_of_lane {σ'' : DialogScheduler A} (h : Takes P session σ σ' turn)
    (hsame : σ''.lane = σ'.lane) : Moves P session σ [] (σ''.requeueFront session turn) [] := by
  have hlane := DialogScheduler.lane_requeueFront σ'' session turn
  rw [hsame] at hlane
  refine ⟨fun session' hne => ?_, fun hsettled => ?_⟩
  · rw [hlane, Function.update_of_ne hne]
    exact h.moves.others session' hne
  · rw [hlane, Function.update_self]
    exact (h.moves.settled hsettled).requeue (h.status hsettled) (h.sublist hsettled)
      (h.low hsettled)

theorem Takes.requeue (h : Takes P session σ σ' turn) :
    Moves P session σ [] (σ'.requeueFront session turn) [] := h.requeue_of_lane rfl

/-- Taking a turn that has no message's turn in front of it. -/
theorem Takes.of_first {front back : List (QueuedDialogTurn (QueuedTurn A))}
    {item : QueuedDialogTurn (QueuedTurn A)} (hturns : σ.queues.get session = front ++ item :: back)
    (hget : ∀ session', q'.get session' =
      if session' = session then front ++ back else σ.queues.get session')
    (hfront : Settled P (σ.lane session) [] → P →
      ∀ x ∈ front, ¬(σ.lane session).mine x.turn) :
    Takes P session σ { σ with queues := q' } item.turn := by
  have hlane := DialogScheduler.lane_queues σ session hget
  have hperm : ([item] ++ (front ++ back)).Perm (σ.lane session).turns := by
    rw [show (σ.lane session).turns = front ++ item :: back from hturns]
    change (item :: (front ++ back)).Perm (front ++ item :: back)
    exact perm_middle.symm
  have hitem : item ∈ (σ.lane session).turns := hperm.mem_iff.1 mem_cons_self
  have hrest : (front ++ back).Sublist (σ.lane session).turns := by
    rw [show (σ.lane session).turns = front ++ item :: back from hturns]
    exact (sublist_cons_self item back).append_left front
  refine ⟨Moves.of_update hlane fun h => h.take hperm hrest, ?_, ?_, ?_⟩
  · intro h id e hid he
    rw [hlane, Function.update_self] at he
    exact h.owned.status_of_mem hitem hid he
  · intro h hP id hid haccepted
    rw [hlane, Function.update_self] at haccepted ⊢
    have hsub := (h.ordered hP).sublist
    have hnone : front.filterMap ((σ.lane session).message ·.turn) = [] :=
      filterMap_eq_nil_iff.2 fun x hx => Lane.message_eq_none.2 (hfront h hP x hx)
    have hmessage : (σ.lane session).message item.turn = some id :=
      Lane.message_eq_some.2 ⟨hid, haccepted⟩
    rw [Lane.dispatched, show (σ.lane session).turns = front ++ item :: back from hturns,
      filterMap_append, hnone] at hsub
    simp only [filterMap_cons, hmessage, nil_append] at hsub
    change (id :: List.filterMap (fun x => (σ.lane session).message x.turn)
      (front ++ back)).Sublist _
    rw [filterMap_append, hnone]
    exact hsub
  · intro h hP
    rw [hlane, Function.update_self]
    refine Classical.or_iff_not_imp_left.2 fun hlow x hx hmine => ?_
    obtain hx | hx := mem_append.1 hx
    · exact hfront h hP x hx hmine
    · have hhigher := (h.ordered hP).higher
      rw [show (σ.lane session).turns = front ++ item :: back from hturns] at hhigher
      have hrank := (pairwise_cons.1 (pairwise_append.1 hhigher).2.1).1 x hx hmine
      rw [(h.ordered hP).priorities item hitem] at hrank
      exact hlow hrank

/-- `nextTurn` finds nothing, or takes a turn behind turns that are not a user's. -/
theorem nextTurn_cases (σ : DialogScheduler A) (session : String) (held : Bool) :
    (∃ q', DialogScheduler.nextTurn σ.queues session held = (none, q') ∧
        ({ σ with queues := q' } : DialogScheduler A).lane = σ.lane) ∨
      ∃ q' turn, DialogScheduler.nextTurn σ.queues session held = (some turn, q') ∧
        Takes P session σ { σ with queues := q' } turn := by
  rw [DialogScheduler.nextTurn]
  have hsame : ∀ {q' : DialogTurnQueue (QueuedTurn A)},
      (∀ session', q'.get session' = σ.queues.get session') →
        ({ σ with queues := q' } : DialogScheduler A).lane = σ.lane := by
    intro q' hget
    funext session'
    rw [DialogScheduler.lane, hget]
    rfl
  split_ifs
  · obtain ⟨q', heq, hget, -⟩ | ⟨q', front, item, back, heq, hturns, hfront, -, hget⟩ :=
      σ.queues.removeFirstMatching_cases session (·.isUserSubmission)
    · exact .inl ⟨q', heq, hsame hget⟩
    · refine .inr ⟨q', item.turn, heq, Takes.of_first hturns hget fun h hP x hx hmine => ?_⟩
      -- the turns of messages are submitted by the user
      have hin : x ∈ σ.queues.get session := hturns ▸ mem_append_left _ hx
      have hpolicy := (h.ordered hP).queued x hin hmine
      refine hfront x hx ?_
      rw [QueuedTurn.isUserSubmission, hpolicy]
      rfl
  · obtain ⟨q', heq, hget, -⟩ | ⟨q', item, back, heq, hturns, hget⟩ :=
      σ.queues.dequeueNext_cases session
    · exact .inl ⟨q', heq, hsame hget⟩
    · have hfirst : σ.queues.get session = [] ++ item :: back := hturns
      exact .inr ⟨q', item.turn, heq, Takes.of_first hfirst hget (by rintro - - x ⟨⟩)⟩

theorem Takes.after {σ'' : DialogScheduler A} (h : Moves P session σ [] σ' [])
    (htakes : Takes P session σ' σ'' turn) : Takes P session σ σ'' turn :=
  ⟨h.trans htakes.moves, fun hsettled => htakes.status (h.settled hsettled),
    fun hsettled => htakes.sublist (h.settled hsettled),
    fun hsettled => htakes.low (h.settled hsettled)⟩

/-- What the loop of a dispatch does to the lane. -/
def Picks (P : Prop) (session : String) (σ : DialogScheduler A) :
    Except String (Option (QueuedTurn A)) × DialogTurnQueue (QueuedTurn A) → Prop
  | (.ok (some turn), q) => Takes P session σ { σ with queues := q } turn
  | (_, q) => Moves P session σ [] { σ with queues := q } []

theorem Picks.after (hmoves : Moves P session σ [] { σ with queues := q } []) :
    ∀ {r}, Picks P session { σ with queues := q } r → Picks P session σ r
  | (.ok (some _), _), h => Takes.after hmoves h
  | (.ok none, _), h => hmoves.trans h
  | (.error _, _), h => hmoves.trans h

/-- The loop keeps the invariant where it discards no turn of a message. -/
theorem pickNext_picks (q : DialogTurnQueue (QueuedTurn A)) (σ : DialogScheduler A)
    (hq : σ.queues = q)
    (hdiscarded : ∀ turn ∈ DialogScheduler.discarded env session held q,
      ¬(σ.lane session).mine turn) :
    Picks P session σ (DialogScheduler.pickNext env session held q) := by
  induction hn : q.depth session using Nat.strong_induction_on generalizing q σ with
  | _ n ih =>
    subst hq hn
    rw [DialogScheduler.discarded] at hdiscarded
    rw [DialogScheduler.pickNext]
    obtain ⟨q', hnext, hlane⟩ | ⟨q', turn, hnext, htakes⟩ :=
      nextTurn_cases (P := P) σ session held
    · split
      · next q'' heq =>
        rw [hnext] at heq
        cases heq
        exact Moves.of_lane hlane
      · next turn q'' heq =>
        rw [hnext] at heq
        cases heq
    · have hdepth := DialogScheduler.nextTurn_depth hnext
      split
      · next q'' heq =>
        rw [hnext] at heq
        cases heq
      · next turn' q'' heq =>
        rw [hnext] at heq
        cases heq
        split_ifs with hgoal
        · cases hcurrent : env.goalContinuationIsCurrent turn with
          | error e => exact htakes.requeue
          | ok current =>
            cases current with
            | true => exact htakes
            | false =>
              -- the turn is discarded
              split at hdiscarded
              · next q'' heq =>
                rw [hnext] at heq
                cases heq
              · next turn' q'' heq =>
                rw [hnext] at heq
                cases heq
                simp only [hgoal, if_true, hcurrent, forall_mem_cons] at hdiscarded
                have hdrop : Moves P session σ [] { σ with queues := q' } [] :=
                  ⟨htakes.moves.others, fun h => (htakes.moves.settled h).drop hdiscarded.1⟩
                exact (ih _ hdepth q' { σ with queues := q' } rfl hdiscarded.2 rfl).after hdrop
        · exact htakes

/-- A receipt that does not exist holds nothing. -/
theorem lane_hold_false {reason : String} {hostQueue : HostQueueState A}
    (h : σ.hostQueue.hold session turn reason = (false, hostQueue)) :
    ({ σ with hostQueue } : DialogScheduler A).lane = σ.lane := by
  have hhold : ({ σ with hostQueue } : DialogScheduler A) = σ.hold session turn reason := by
    rw [DialogScheduler.hold, h]
  cases hturn : turn.turnId with
  | none => rw [hhold, DialogScheduler.hold_none σ session hturn]
  | some id =>
    have hnone : (σ.lane session).entries.lookup id = none := by
      have hcontains : (σ.hostQueue.hold session turn reason).1 =
          ((σ.lane session).entries.lookup id).isSome := by
        rw [HostQueueState.hold, hturn]
        rfl
      rw [h] at hcontains
      exact Option.isSome_eq_false_iff.1 hcontains.symm |> Option.isNone_iff_eq_none.1
    rw [hhold, DialogScheduler.lane_hold σ session hturn, Settled.modify_of_none hnone]
    exact Function.update_eq_self _ _

theorem Moves.tryStartNextQueued
    (hdiscarded : ∀ turn ∈ σ.dispatchDiscards env session, ¬(σ.lane session).mine turn) :
    Moves P session σ [] (σ.tryStartNextQueued env session).2 [] := by
  rw [DialogScheduler.dispatchDiscards] at hdiscarded
  rw [DialogScheduler.tryStartNextQueued]
  split_ifs at hdiscarded ⊢
  · exact refl
  cases hholds : env.holdsDispatch with
  | error e => exact refl
  | ok holds =>
    cases holds with
    | true => exact refl
    | false =>
      rw [hholds] at hdiscarded
      have hpicks := pickNext_picks (P := P) σ.queues σ rfl hdiscarded
      revert hpicks
      generalize DialogScheduler.pickNext env session _ σ.queues = r
      obtain ⟨e | turn | turn, q⟩ := r
      · exact id
      · exact id
      · intro htakes
        obtain ⟨id, hstart, hmoves⟩ | ⟨e, hstart⟩ :=
          startTurn (P := P) { σ with queues := q } session turn [] env
        · simp only
          generalize DialogScheduler.startTurn env _ session turn = r at hstart hmoves
          obtain ⟨r, σ'⟩ := r
          cases hstart
          exact htakes.moves.trans hmoves
        · simp only [hstart]
          generalize hhold : σ.hostQueue.hold session turn e = r
          obtain ⟨held, hostQueue⟩ := r
          cases held with
          | true =>
            refine htakes.moves.trans ?_
            have hheld : Moves P session { σ with queues := q } [turn]
                (DialogScheduler.hold { σ with queues := q } session turn e) [] := hold e
            rw [DialogScheduler.hold, hhold] at hheld
            exact hheld
          | false =>
            have hlane := lane_hold_false (σ := { σ with queues := q }) hhold
            exact htakes.requeue_of_lane hlane

end Dispatch

end HostQueue

end OpenBitFun
