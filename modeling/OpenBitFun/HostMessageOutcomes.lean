import OpenBitFun.HostMessageSteps

/-!
# Injections, outcomes and maintenance

A running turn takes injections and acknowledges them; when it ends, the messages that it did not
take are blocked. Maintenance cancels what is pending.
-/

namespace OpenBitFun

open List

namespace HostQueue

variable {A : Type} {P : Prop} {σ : DialogScheduler A} {session : String}

/-! ## Injections that are taken -/

theorem ownerOf_eq_some {x id : String} (h : σ.ownerOf session x = some id) :
    ∃ e, (σ.lane session).entries.lookup id = some e ∧ e.view.steeringId = some x := by
  rw [DialogScheduler.ownerOf, Option.map_eq_some_iff] at h
  obtain ⟨⟨id, e⟩, hfind, rfl⟩ := h
  refine ⟨e, AssocMap.mem_iter.1 (mem_of_find?_eq_some hfind), ?_⟩
  simpa using find?_some hfind

theorem ownerOf_isSome {x id : String} {e : Entry A}
    (he : (σ.lane session).entries.lookup id = some e) (hsid : e.view.steeringId = some x) :
    (σ.ownerOf session x).isSome := by
  rw [DialogScheduler.ownerOf, Option.isSome_map, find?_isSome]
  exact ⟨(id, e), AssocMap.mem_iter.2 he, by simpa using hsid⟩

theorem Moves.takePending (turn : String) (isMatch : RoundInjection A → Bool) :
    Moves P session σ [] (σ.takePending session turn isMatch) [] := by
  set p : RoundInjection A → Bool := fun x => isMatch x && x.eligible turn with hp
  have hlane : (σ.takePending session turn isMatch).lane = Function.update σ.lane session
      { σ.lane session with
        injections := (σ.lane session).injections.filter fun x => !p x
        taken := (σ.lane session).taken ++
          ((σ.lane session).injections.filter p).map fun x => (turn, x)
        executed := (σ.lane session).executed ++
          ((σ.lane session).injections.filter p).filterMap fun x => σ.ownerOf session x.id } := by
    funext session'
    rw [Function.update_apply, DialogScheduler.takePending, DialogScheduler.lane]
    simp only [DialogScheduler.drainMatchingForTurn, AssocMap.list_insert]
    split_ifs with h
    · rw [h]
      rfl
    · rfl
  refine of_update hlane fun h => h.takeInjections ?_ ?_ ?_
  · exact fun x hx => (Bool.and_eq_true_iff.1 hx).2
  · exact fun x id hid => ownerOf_eq_some hid
  · exact fun x id e he hsid => ownerOf_isSome he hsid

theorem Moves.acknowledgeConsumed (turn injection : String) :
    Moves P session σ [] (σ.acknowledgeConsumed session turn injection) [] := by
  set rest := (σ.lane session).taken.filter fun taken =>
    !(taken.1 = turn && taken.2.id = injection) with hrest
  -- the messages that are still being steered need none of the injections that go
  have hforget : ∀ {l : Lane A}, Settled P l [] → l.taken = (σ.lane session).taken →
      (∀ id e, l.entries.lookup id = some e → e.steers turn →
        e.view.steeringId ≠ some injection) → Settled P { l with taken := rest } [] := by
    intro l hl htaken hne
    refine hl.forget (List.Sublist.refl _) (htaken ▸ filter_sublist)
      fun id e target sid he hsteers hsid => ⟨rfl, fun x hx => ?_⟩
    obtain ⟨hmem, hxsid⟩ := mem_filter.1 hx
    refine mem_filter.2 ⟨htaken ▸ hmem, ?_⟩
    have hxsid : x.id = sid := of_decide_eq_true hxsid
    by_contra hgone
    obtain ⟨rfl, hxid⟩ : target = turn ∧ x.id = injection := by simpa using hgone
    exact hne id e he hsteers (by rw [hsid, ← hxsid, hxid])
  have hlane : ∀ σ' : DialogScheduler A, σ'.taken = σ.taken →
      ({ σ' with
        taken := σ.taken.insert session ((σ.taken.list session).filter fun taken =>
          !(taken.1 = turn && taken.2.id = injection)) } : DialogScheduler A).lane =
      Function.update σ'.lane session { σ'.lane session with taken := rest } := by
    intro σ' htaken
    funext session'
    rw [Function.update_apply, DialogScheduler.lane, AssocMap.list_insert]
    split_ifs with h
    · rw [h]
      rfl
    · rw [← htaken]
      rfl
  rw [DialogScheduler.acknowledgeConsumed, HostQueueState.consumed]
  generalize hfind : (σ.hostQueue.entriesOf session).iter.find? _ = found
  cases found with
  | none =>
    refine of_update (hlane σ rfl) fun h => hforget h rfl fun id e he hsteers hsid => ?_
    have := find?_eq_none.1 hfind (id, e) (AssocMap.mem_iter.2 he)
    simp [hsteers, hsid] at this
  | some entry =>
    obtain ⟨id, e⟩ := entry
    have he : (σ.lane session).entries.lookup id = some e :=
      AssocMap.mem_iter.1 (mem_of_find?_eq_some hfind)
    obtain ⟨hsteers, hsid⟩ : e.steers turn ∧ e.view.steeringId = some injection := by
      simpa using find?_some hfind
    have hmodify := DialogScheduler.lane_modifyEntry σ session id fun e : Entry A =>
      { e with view := { e.view with status := .steered }, held := none }
    have hfinal := hlane { σ with
      hostQueue := σ.hostQueue.modifyEntry session id fun e =>
        { e with view := { e.view with status := .steered }, held := none } } rfl
    rw [hmodify, Function.update_idem, Function.update_self] at hfinal
    refine of_update hfinal fun h => hforget (h.consume he hsteers hsid) rfl ?_
    intro id' e' he' hsteers' hsid'
    rw [Lane.lookup_modify_of_some he] at he'
    split_ifs at he' with heq
    · cases he'
      simp [Entry.steers] at hsteers'
    · exact heq (h.owned.steeringIds id' e' id e injection he' he hsid' hsid)

theorem Moves.markAfterTerminalTurn (turn previous : String) :
    Moves P session σ [] { σ with
      hostQueue := σ.hostQueue.markAfterTerminalTurn session turn previous } [] := by
  have hlane : ({ σ with
      hostQueue := σ.hostQueue.markAfterTerminalTurn session turn previous } :
        DialogScheduler A).lane = Function.update σ.lane session { σ.lane session with
      entries := (σ.lane session).entries.modify turn
        ({ · with afterTerminalTurn := some previous }) } :=
    DialogScheduler.lane_modify (g := fun entries => entries.modify turn
      ({ · with afterTerminalTurn := some previous })) σ session (fun _ => rfl) (fun _ => rfl) rfl
  exact of_update hlane fun h => h.touch turn fun _ _ => ⟨rfl, rfl, rfl, rfl, rfl⟩

/-- `enqueue` refuses a turn, or queues it behind those of its priority. -/
theorem enqueue_cases (σ : DialogScheduler A) (session : String) (turn : QueuedTurn A) :
    (∃ e σ', σ.enqueue session turn = (.error e, σ') ∧ σ'.lane = σ.lane) ∨
      ∃ q, σ.enqueue session turn = (.ok (), { σ with queues := q }) ∧
        ({ σ with queues := q } : DialogScheduler A).lane = Function.update σ.lane session
          { σ.lane session with
            turns := DialogTurnQueue.insertByPriority (σ.lane session).turns
              ⟨turn.policy.queuePriority, turn⟩ } := by
  rw [DialogScheduler.enqueue]
  split_ifs with hfull
  · exact .inl ⟨_, _, rfl, rfl⟩
  obtain ⟨hresult, -, hget⟩ := σ.queues.enqueue_spec session turn turn.policy.queuePriority
  have hroom : σ.queues.depth session < σ.queues.maxDepth := by
    rw [DialogScheduler.queueDepth] at hfull
    omega
  rw [if_neg (Nat.not_le.2 hroom)] at hresult
  generalize σ.queues.enqueue session turn turn.policy.queuePriority = r at hresult hget ⊢
  obtain ⟨r, q⟩ := r
  cases hresult
  refine .inr ⟨q, rfl, DialogScheduler.lane_queues σ session fun session' => ?_⟩
  rw [hget]
  simp only [hroom, and_true]
  rfl

theorem Moves.enqueue {turn : QueuedTurn A}
    (hforeign : ∀ id ∈ turn.turnId, σ.hostQueue.contains session id = false) :
    Moves P session σ [] (σ.enqueue session turn).2 [] := by
  obtain ⟨e, σ', heq, hlane⟩ | ⟨q, heq, hlane⟩ := enqueue_cases σ session turn
  · rw [heq]
    exact of_lane hlane
  · rw [heq]
    refine of_update hlane fun h => h.enqueue fun id hid => ?_
    exact Option.isNone_iff_eq_none.1 (Option.isSome_eq_false_iff.1 (hforeign id hid))

/-! ## Outcomes -/

theorem foldl_removeInjection (σ : DialogScheduler A) (session : String) (ids : List String) :
    (ids.foldl (fun σ id => σ.removeInjection session id) σ).lane =
      Function.update σ.lane session { σ.lane session with
        injections := ids.foldl (fun injections id => injections.eraseP (·.id = id))
          (σ.lane session).injections } := by
  induction ids generalizing σ with
  | nil => exact (Function.update_eq_self _ _).symm
  | cons id ids ih =>
    have hlane : (σ.removeInjection session id).lane = Function.update σ.lane session
        { σ.lane session with
          injections := (σ.lane session).injections.eraseP (·.id = id) } :=
      DialogScheduler.lane_buffer σ session _
    rw [foldl_cons, ih, hlane, Function.update_idem, Function.update_self]
    rfl

/-- What is left of a list of injections when some are removed by their ids. -/
theorem foldl_eraseP_sublist (ids : List String) (injections : List (RoundInjection A)) :
    (ids.foldl (fun injections id => injections.eraseP (·.id = id)) injections).Sublist
      injections := by
  induction ids generalizing injections with
  | nil => exact List.Sublist.refl _
  | cons id ids ih => exact (ih _).trans eraseP_sublist

theorem filter_foldl_eraseP {sid : String} {ids : List String} (hsid : sid ∉ ids)
    (injections : List (RoundInjection A)) :
    (ids.foldl (fun injections id => injections.eraseP (·.id = id)) injections).filter
      (·.id = sid) = injections.filter (·.id = sid) := by
  induction ids generalizing injections with
  | nil => rfl
  | cons id ids ih =>
    rw [mem_cons, not_or] at hsid
    rw [foldl_cons, ih hsid.2]
    refine filter_eraseP_of_disjoint (fun x hx => ?_) injections
    have hx : x.id = id := of_decide_eq_true hx
    simpa [hx] using Ne.symm hsid.1

/-- The only injection with an id that is removed is gone. -/
theorem filter_foldl_eraseP_of_mem {sid : String} {ids : List String} (hsid : sid ∈ ids)
    {injections : List (RoundInjection A)} (hone : (injections.filter (·.id = sid)).length ≤ 1) :
    (ids.foldl (fun injections id => injections.eraseP (·.id = id)) injections).filter
      (·.id = sid) = [] := by
  induction ids generalizing injections with
  | nil => cases hsid
  | cons id ids ih =>
    by_cases heq : sid = id
    · subst heq
      refine eq_nil_of_sublist_nil (List.Sublist.trans
        ((foldl_eraseP_sublist ids _).filter _) ?_)
      have htail : (injections.filter (·.id = sid)).tail = [] :=
        eq_nil_of_length_eq_zero (by rw [length_tail]; omega)
      rw [filter_eraseP_self, htail]
    · refine ih ((mem_cons.1 hsid).resolve_left heq) (le_trans ?_ hone)
      exact (eraseP_sublist.filter _).length_le

/-- The injections that stay when a turn ends. -/
def remaining (σ : DialogScheduler A) (session turn : String) (status : TurnOutcomeStatus) :
    List (RoundInjection A) :=
  let injections := (σ.hostQueue.pendingSteeringIds session turn).foldl
    (fun injections id => injections.eraseP (·.id = id)) (σ.roundInjectionBuffer.list session)
  if status = .interrupted then injections.filter (·.target ≠ .currentRunningTurn)
  else injections.filter fun x => !(true && x.eligible turn)

theorem lane_settleOutcome (σ : DialogScheduler A) (session turn : String)
    (status : TurnOutcomeStatus) :
    (σ.settleOutcome session turn status).lane = Function.update σ.lane session
      { σ.lane session with
        entries := (σ.lane session).entries.mapValues (HostQueueState.outcomeEntry turn status)
        injections := remaining σ session turn status } := by
  have houtcome : ({ σ with
      hostQueue := (σ.hostQueue.outcome session turn status).2 } : DialogScheduler A).lane =
      Function.update σ.lane session { σ.lane session with
        entries := (σ.lane session).entries.mapValues
          (HostQueueState.outcomeEntry turn status) } :=
    DialogScheduler.lane_modify
      (g := fun entries => entries.mapValues (HostQueueState.outcomeEntry turn status))
      σ session (fun _ => rfl) (fun _ => rfl) rfl
  have hremove := foldl_removeInjection { σ with
      hostQueue := (σ.hostQueue.outcome session turn status).2 } session
    (σ.hostQueue.pendingSteeringIds session turn)
  rw [houtcome, Function.update_idem, Function.update_self] at hremove
  rw [DialogScheduler.settleOutcome, remaining]
  split_ifs with hstatus
  · exact DialogScheduler.lane_filterBuffer hremove _
  · exact DialogScheduler.lane_filterBuffer hremove _

/-- The outcome of a turn that has acknowledged what it took. -/
theorem Moves.settleOutcome {turn : String} (status : TurnOutcomeStatus)
    (htaken : ∀ x ∈ σ.taken.list session, x.1 ≠ turn) :
    Moves P session σ [] (σ.settleOutcome session turn status) [] := by
  refine of_update (lane_settleOutcome σ session turn status) fun h => ?_
  set ids := σ.hostQueue.pendingSteeringIds session turn with hids
  -- what stays is part of what was there
  have hfilter : ∃ p : RoundInjection A → Bool, remaining σ session turn status =
      (ids.foldl (fun injections id => injections.eraseP (·.id = id))
        (σ.lane session).injections).filter p ∧
      ∀ x target, x.target = .exactTurn target → target ≠ turn → p x := by
    rw [remaining]
    split_ifs
    · exact ⟨_, rfl, fun x target hx _ => by simp [hx]⟩
    · exact ⟨_, rfl, fun x target hx hne => by simp [RoundInjection.eligible, hx, hne]⟩
  obtain ⟨p, hremaining, hexact⟩ := hfilter
  have hsub : (remaining σ session turn status).Sublist (σ.lane session).injections := by
    rw [hremaining]
    exact filter_sublist.trans (foldl_eraseP_sublist _ _)
  have hmem : ∀ sid, sid ∈ ids ↔ ∃ id e, (σ.lane session).entries.lookup id = some e ∧
      e.steers turn ∧ e.view.steeringId = some sid := by
    intro sid
    rw [hids, HostQueueState.pendingSteeringIds, mem_filterMap]
    constructor
    · rintro ⟨⟨id, e⟩, hentry, hsid⟩
      obtain ⟨hentry, hsteers⟩ := mem_filter.1 hentry
      exact ⟨id, e, AssocMap.mem_iter.1 hentry, hsteers, hsid⟩
    · rintro ⟨id, e, he, hsteers, hsid⟩
      exact ⟨(id, e), mem_filter.2 ⟨AssocMap.mem_iter.2 he, hsteers⟩, hsid⟩
  refine ⟨h.owned.outcome status hsub htaken ?_ ?_, fun hP => ?_⟩
  · intro id e sid he hsteers hsid
    obtain ⟨-, -, -, -, -, hsteering⟩ := h.owned.steering he hsteers hsid
    have hone : ((σ.lane session).injections.filter (·.id = sid)).length ≤ 1 := by
      obtain ⟨hone, -⟩ | ⟨hnil, -⟩ := hsteering
      · exact hone.le
      · rw [Lane.injectionsOf] at hnil
        rw [hnil]
        exact zero_le_one
    refine eq_nil_of_sublist_nil ?_
    rw [hremaining, ← filter_foldl_eraseP_of_mem ((hmem sid).2 ⟨id, e, he, hsteers, hsid⟩) hone]
    exact filter_sublist.filter _
  · intro id e target sid he hsteers hne hsid
    obtain ⟨-, -, -, -, htarget, -⟩ := h.owned.steering he hsteers hsid
    have hnot : sid ∉ ids := by
      rw [hmem]
      rintro ⟨id', e', he', hsteers', hsid'⟩
      obtain rfl := h.owned.steeringIds id e id' e' sid he he' hsid hsid'
      rw [he] at he'
      cases he'
      simp only [Entry.steers, decide_eq_true_eq] at hsteers hsteers'
      rw [hsteers.2] at hsteers'
      exact hne (Option.some.inj hsteers'.2)
    have hkept := filter_foldl_eraseP hnot (σ.lane session).injections
    rw [hremaining, filter_filter, Lane.injectionsOf, ← hkept]
    refine filter_congr fun x hx => ?_
    cases hxsid : decide (x.id = sid) with
    | false => rfl
    | true =>
      have hin : x ∈ (σ.lane session).injectionsOf sid := by
        rw [Lane.injectionsOf, ← hkept]
        exact mem_filter.2 ⟨hx, hxsid⟩
      rw [hexact x target (htarget x hin) hne]
      rfl
  · refine (h.ordered hP).change rfl ?_ (List.Sublist.refl _) ?_ (h.ordered hP).carried
    · funext id
      rw [Lane.accepted, AssocMap.lookup_mapValues, Option.isSome_map]
      rfl
    · intro id e' held he' hheld
      rw [AssocMap.lookup_mapValues] at he'
      obtain ⟨e, he, rfl⟩ := Option.map_eq_some_iff.1 he'
      refine (h.ordered hP).held id e held he ?_
      rw [← hheld, HostQueueState.outcomeEntry]
      split_ifs <;> rfl

/-! ## Maintenance -/

/-- The receipts when a session is retired. -/
structure Retired (before after : AssocMap String (Entry A)) : Prop where
  /-- There are no others. -/
  accepted : ∀ id, (after.lookup id).isSome = (before.lookup id).isSome
  /-- None is pending, and none holds a turn. -/
  entries : ∀ id e', after.lookup id = some e' → ∃ e, before.lookup id = some e ∧
    e'.view.turnId = e.view.turnId ∧ e'.view.steeringId = e.view.steeringId ∧ e'.held = none ∧
      e'.view.status = if e.view.status.isPending then .cancelled else e.view.status

/-- Cancelling a message that was pending once more. -/
theorem Retired.cancel {before after : AssocMap String (Entry A)} (h : Retired before after)
    {id : String} {e : Entry A} (he : before.lookup id = some e)
    (hpending : e.view.status.isPending) :
    Retired before (after.modify id fun e =>
      { e with view := { e.view with status := .cancelled, reason := none }, held := none }) := by
  refine ⟨fun id' => ?_, fun id' e' he' => ?_⟩
  · rw [AssocMap.lookup_modify, ← h.accepted]
    split_ifs with heq
    · rw [Option.isSome_map, heq]
    · rfl
  · rw [AssocMap.lookup_modify] at he'
    split_ifs at he' with heq
    · obtain ⟨e'', he'', rfl⟩ := Option.map_eq_some_iff.1 he'
      obtain ⟨e₀, he₀, hname, hsid, -, -⟩ := h.entries id e'' he''
      rw [he] at he₀
      cases he₀
      exact ⟨e, heq ▸ he, hname, hsid, rfl, by rw [if_pos hpending]⟩
    · exact h.entries id' e' he'

/-- The turns that were held are cancelled one after another. -/
theorem finishRemoved_foldl {before : AssocMap String (Entry A)} (turns : List (QueuedTurn A))
    (hturns : ∀ turn ∈ turns, ∃ id e, turn.turnId = some id ∧ before.lookup id = some e ∧
      e.view.status.isPending)
    {σ : DialogScheduler A} (h : Retired before (σ.lane session).entries) :
    ∃ entries, (turns.foldl (fun σ turn => σ.finishRemovedQueuedTurn session turn) σ).lane =
      Function.update σ.lane session { σ.lane session with entries } ∧
        Retired before entries := by
  induction turns generalizing σ with
  | nil => exact ⟨(σ.lane session).entries, (Function.update_eq_self _ _).symm, h⟩
  | cons turn turns ih =>
    rw [forall_mem_cons] at hturns
    obtain ⟨⟨id, e, hid, he, hpending⟩, hturns⟩ := hturns
    have hcancel := DialogScheduler.lane_cancelled σ session hid
    obtain ⟨entries, hrest, hretired⟩ := ih (σ := σ.finishRemovedQueuedTurn session turn) hturns (by
      rw [hcancel, Function.update_self]
      exact h.cancel he hpending)
    rw [hcancel, Function.update_idem, Function.update_self] at hrest
    exact ⟨entries, hrest, hretired⟩

/-- The receipts of a session that is retired. -/
def retireEntry (e : Entry A) : Entry A :=
  if e.view.status.isPending then
    { e with view := { e.view with status := .cancelled }, held := none }
  else e

theorem retired_mapValues {l : Lane A} (h : l.Owned []) :
    Retired l.entries (l.entries.mapValues fun _ e => retireEntry e) := by
  refine ⟨fun id => ?_, fun id e' he' => ?_⟩
  · rw [AssocMap.lookup_mapValues, Option.isSome_map]
  · rw [AssocMap.lookup_mapValues] at he'
    obtain ⟨e, he, rfl⟩ := Option.map_eq_some_iff.1 he'
    refine ⟨e, he, ?_⟩
    have hlocated := h.located id e he
    rw [retireEntry]
    cases hstatus : e.view.status <;>
      simp only [DialogQueueStatus.isPending, if_true, Bool.false_eq_true, if_false, true_and] <;>
      rw [Lane.Located, hstatus] at hlocated <;>
      exact ⟨hlocated.2.2.1, hstatus⟩

/-- The queue is cleared, and no turn is kept. -/
theorem lane_clearQueue_false (σ : DialogScheduler A) (session : String) :
    (σ.clearQueue session false).lane =
      Function.update σ.lane session { σ.lane session with turns := [] } := by
  rw [DialogScheduler.clearQueue]
  simp only [Bool.false_eq_true, if_false, foldl_fixed]
  exact DialogScheduler.lane_queues σ session fun session' => σ.queues.get_clear session session'

/-- The injections for the turn that ran are dropped. -/
theorem lane_drainActive (σ : DialogScheduler A) (session : String) (activeTurn : Option String) :
    ∃ injections : List (RoundInjection A), injections.Sublist (σ.lane session).injections ∧
      (match activeTurn with
        | some turn => (σ.drainMatchingForTurn session turn fun _ => true).2
        | none => σ).lane =
        Function.update σ.lane session { σ.lane session with injections } := by
  cases activeTurn with
  | none => exact ⟨_, List.Sublist.refl _, (Function.update_eq_self _ _).symm⟩
  | some turn =>
    exact ⟨_, filter_sublist,
      DialogScheduler.lane_filterBuffer (Function.update_eq_self _ _).symm _⟩

theorem Moves.beginSessionMaintenance (epoch : String) (activeTurn : Option String) :
    Moves P session σ [] (σ.beginSessionMaintenance session epoch activeTurn) [] := by
  set turns := (σ.hostQueue.retire session epoch).1 with hturns
  set σ₀ : DialogScheduler A := { σ with hostQueue := (σ.hostQueue.retire session epoch).2 }
  have hretire : σ₀.lane = Function.update σ.lane session { σ.lane session with
      entries := (σ.lane session).entries.mapValues fun _ e => retireEntry e } :=
    DialogScheduler.lane_modify (g := fun entries => entries.mapValues fun _ e => retireEntry e)
      σ session (fun _ => rfl) (fun _ => rfl) rfl
  set σ₁ := turns.foldl (fun σ turn => σ.finishRemovedQueuedTurn session turn) σ₀
  have hclear := lane_clearQueue_false σ₁ session
  obtain ⟨injections, hsub, hdrain⟩ := lane_drainActive (σ₁.clearQueue session false) session
    activeTurn
  change (σ.beginSessionMaintenance session epoch activeTurn).lane = _ at hdrain
  rw [hclear, Function.update_idem, Function.update_self] at hdrain
  rw [hclear, Function.update_self] at hsub
  refine ⟨fun session' hne => ?_, fun h => ?_⟩
  · have hcancels : Moves P session σ₀ (turns ++ []) σ₁ [] :=
      foldl (fun _ _ _ => finishRemoved) turns
    have hothers := hcancels.others session' hne
    rw [hdrain, Function.update_of_ne hne, hothers, hretire, Function.update_of_ne hne]
  · -- the receipts that held a turn were pending
    have hheld : ∀ turn ∈ turns, ∃ id e, turn.turnId = some id ∧
        (σ.lane session).entries.lookup id = some e ∧ e.view.status.isPending := by
      intro turn hturn
      rw [hturns, HostQueueState.retire, mem_filterMap] at hturn
      obtain ⟨⟨id, e⟩, hentry, hturn⟩ := hturn
      have he : (σ.lane session).entries.lookup id = some e := AssocMap.mem_iter.1 hentry
      simp only [Option.ite_none_right_eq_some] at hturn
      exact ⟨id, e, h.owned.held id e turn he hturn.2, he, hturn.1⟩
    have hself : σ₀.lane session = { σ.lane session with
        entries := (σ.lane session).entries.mapValues fun _ e => retireEntry e } := by
      rw [hretire, Function.update_self]
    have hstart : Retired (σ.lane session).entries (σ₀.lane session).entries := by
      rw [hself]
      exact retired_mapValues h.owned
    obtain ⟨entries, hcancelled, hretired⟩ := finishRemoved_foldl turns hheld hstart
    rw [hretire, Function.update_idem, Function.update_self] at hcancelled
    have hself₁ := congrFun hcancelled session
    rw [Function.update_self] at hself₁
    change σ₁.lane session = _ at hself₁
    rw [hself₁] at hdrain hsub
    rw [hdrain, Function.update_self]
    refine ⟨h.owned.retire hsub hretired.accepted hretired.entries, fun hP => ?_⟩
    refine (h.ordered hP).change rfl ?_ (nil_sublist _) ?_ (h.ordered hP).carried
    · funext id
      exact hretired.accepted id
    · intro id e' held he' hturn
      obtain ⟨-, -, -, -, hnone, -⟩ := hretired.entries id e' he'
      rw [hnone] at hturn
      cases hturn

end HostQueue

end OpenBitFun
