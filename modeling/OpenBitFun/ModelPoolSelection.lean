import Mathlib
import OpenBitFun.ModelPool
import OpenBitFun.Rotation

/-!
# Which member of a pool is selected

A cooling member is probed by one attempt at a time, whatever the other sessions and pools do
(`reserve_probes_singly`). Sessions that are not bound to a member are spread over the members of a
balanced pool in a circle: the cursor of the pool says where the circle stands, and survives the
removal of members, because it keeps the old order (`balanced_rotation`).
-/

namespace OpenBitFun

open List

namespace ModelPool

namespace ModelPoolRouter

variable {s s' : ModelPoolRouter} {candidate selected : Candidate} {candidates : List Candidate}
  {excluded : List String} {sessionId poolId : String} {strategy : ModelPoolStrategy}
  {nowMs leaseMs : ℕ}

/-! ## Readiness -/

theorem isProbing_iff : s.isProbing candidate nowMs = true ↔
    ∃ key active, s.reservations.lookup key = some active ∧ nowMs < active.expiresAtMs ∧
      active.binding.modelId = candidate.modelId ∧
      active.binding.configurationFingerprint = candidate.fingerprint := by
  rw [isProbing, any_eq_true]
  refine ⟨?_, ?_⟩
  · rintro ⟨⟨key, active⟩, hmem, htest⟩
    simp only [Bool.and_eq_true, decide_eq_true_eq, beq_iff_eq] at htest
    exact ⟨key, active, AssocMap.mem_iter.mp hmem, htest.1.1, htest.1.2, htest.2⟩
  · rintro ⟨key, active, hactive, hexpires, hmodel, hfingerprint⟩
    refine ⟨(key, active), AssocMap.mem_iter.mpr hactive, ?_⟩
    simp only [Bool.and_eq_true, decide_eq_true_eq, beq_iff_eq]
    exact ⟨⟨hexpires, hmodel⟩, hfingerprint⟩

theorem isProbing_dropExpired :
    (s.dropExpired nowMs).isProbing candidate nowMs = s.isProbing candidate nowMs := by
  rw [Bool.eq_iff_iff, isProbing_iff, isProbing_iff]
  refine exists₂_congr fun key active => ?_
  rw [dropExpired, AssocMap.lookup_retain, Option.filter_eq_some_iff, decide_eq_true_eq, and_assoc]
  refine and_congr_right fun _ => ⟨fun h => h.2, fun h => ⟨h.1, h⟩⟩

theorem ready_dropExpired :
    (s.dropExpired nowMs).ready candidate nowMs = s.ready candidate nowMs := by
  rw [ready, isProbing_dropExpired]
  rfl

theorem selectable_dropExpired :
    (s.dropExpired nowMs).selectable excluded nowMs = s.selectable excluded nowMs := by
  funext candidate
  rw [selectable, ready_dropExpired]
  rfl

/-- What is known of a candidate that is ready. -/
structure Admissible (s : ModelPoolRouter) (candidate : Candidate) (nowMs : ℕ) : Prop where
  eligible : candidate.eligible = true
  /-- its configuration does not need attention -/
  not_needsAttention : ∀ health ∈ s.healthOf candidate, health.status ≠ .needsAttention
  /-- its cooldown is over -/
  cooled : ∀ health ∈ s.healthOf candidate, health.status = .coolingDown →
    ∃ retryAtMs, health.retryAtMs = some retryAtMs ∧ retryAtMs ≤ nowMs
  /-- and nobody else tries it -/
  alone : ∀ health ∈ s.healthOf candidate, health.status = .coolingDown →
    ∀ key active, s.reservations.lookup key = some active →
      active.binding.modelId = candidate.modelId →
      active.binding.configurationFingerprint = candidate.fingerprint →
      active.expiresAtMs ≤ nowMs

theorem admissible_of_ready (h : s.ready candidate nowMs = true) :
    s.Admissible candidate nowMs := by
  rw [ready] at h
  cases heligible : candidate.eligible with
  | false => simp [heligible] at h
  | true =>
    rw [heligible, Bool.not_true, if_neg Bool.false_ne_true] at h
    cases hhealth : s.healthOf candidate with
    | none => exact ⟨heligible, by simp [hhealth], by simp [hhealth], by simp [hhealth]⟩
    | some health =>
      rw [hhealth] at h
      dsimp only at h
      refine ⟨heligible, ?_, ?_, ?_⟩
      · rintro _ hmem hstatus
        obtain rfl := Option.some.inj (hhealth.symm.trans hmem)
        rw [hstatus] at h
        cases h
      · rintro _ hmem hstatus
        obtain rfl := Option.some.inj (hhealth.symm.trans hmem)
        rw [hstatus] at h
        obtain ⟨hretry, -⟩ := Bool.and_eq_true_iff.mp h
        obtain ⟨retryAtMs, hretryAtMs, hle⟩ := Option.any_eq_true _ _ |>.mp hretry
        exact ⟨retryAtMs, hretryAtMs, of_decide_eq_true hle⟩
      · rintro _ hmem hstatus key active hactive hmodel hfingerprint
        obtain rfl := Option.some.inj (hhealth.symm.trans hmem)
        rw [hstatus] at h
        obtain ⟨-, hprobing⟩ := Bool.and_eq_true_iff.mp h
        by_contra hexpires
        rw [Bool.not_eq_true'] at hprobing
        rw [isProbing_iff.mpr ⟨key, active, hactive, by omega, hmodel, hfingerprint⟩] at hprobing
        cases hprobing

/-! ## The selection -/

theorem mem_of_sticky (h : s.sticky sessionId poolId candidates excluded nowMs = some selected) :
    selected ∈ candidates ∧ s.selectable excluded nowMs selected = true := by
  obtain ⟨binding, -, hfind⟩ := Option.bind_eq_some_iff.mp h
  exact mem_filter.mp (mem_of_find?_eq_some hfind)

/-- What is selected is a candidate that can be selected. -/
theorem mem_of_select
    (h : s.select sessionId poolId strategy candidates excluded nowMs = some selected) :
    selected ∈ candidates ∧ s.selectable excluded nowMs selected = true := by
  rw [select] at h
  cases hsticky : s.sticky sessionId poolId candidates excluded nowMs with
  | some bound =>
    rw [hsticky] at h
    obtain rfl := Option.some.inj h
    exact mem_of_sticky hsticky
  | none =>
    rw [hsticky] at h
    exact ⟨mem_rotate.mp (mem_of_find?_eq_some h), find?_some h⟩

/-- Nothing is selected exactly when no candidate can be. -/
theorem select_eq_none : s.select sessionId poolId strategy candidates excluded nowMs = none ↔
    ∀ candidate ∈ candidates, s.selectable excluded nowMs candidate = false := by
  refine ⟨fun h candidate hcandidate => ?_, fun h => ?_⟩
  · rw [select] at h
    cases hsticky : s.sticky sessionId poolId candidates excluded nowMs with
    | some bound =>
      rw [hsticky] at h
      cases h
    | none =>
      rw [hsticky] at h
      exact eq_false_of_ne_true
        (find?_eq_none.mp h candidate (mem_rotate.mpr hcandidate))
  · rw [← Option.not_isSome_iff_eq_none, Option.isSome_iff_exists]
    rintro ⟨selected, hselected⟩
    obtain ⟨hmem, hselectable⟩ := mem_of_select hselected
    rw [h selected hmem] at hselectable
    cases hselectable

/-- **Cooling members are probed singly.** In any state, and so in every state of a run: the member
that `reserve` returns is an eligible candidate that is not excluded and does not need attention,
and if it is cooling, then its cooldown is over and no unexpired reservation holds it. When the
strategy is supported and the session has no unexpired reservation, `reserve` finds the pool
unavailable if and only if no candidate is eligible, not excluded and ready. A reservation that
is refused changes neither bindings nor health nor cursors nor the generation. -/
theorem reserve_probes_singly (s : ModelPoolRouter) (sessionId poolId : String)
    (strategy : ModelPoolStrategy) (candidates : List Candidate) (excluded : List String)
    (nowMs leaseMs : ℕ) :
    (∀ r s', s.reserve sessionId poolId strategy candidates excluded nowMs leaseMs = (.ok r, s') →
      ∃ member ∈ candidates, r.binding.modelId = member.modelId ∧
        r.binding.configurationFingerprint = member.fingerprint ∧
        member.modelId ∉ excluded ∧ s.Admissible member nowMs) ∧
    ((∃ retryAtMs s', s.reserve sessionId poolId strategy candidates excluded nowMs leaseMs =
        (.error (.unavailable retryAtMs), s')) ↔
      strategy ≠ .unsupported ∧
      (∀ active, s.reservations.lookup sessionId = some active → active.expiresAtMs ≤ nowMs) ∧
      ∀ candidate ∈ candidates, ¬(candidate.eligible = true ∧ candidate.modelId ∉ excluded ∧
        s.ready candidate nowMs = true)) ∧
    ∀ e s', s.reserve sessionId poolId strategy candidates excluded nowMs leaseMs =
        (.error e, s') →
      s'.bindings = s.bindings ∧ s'.health = s.health ∧ s'.cursors = s.cursors ∧
        s'.generation = s.generation := by
  have houtcome := reserve_outcome s sessionId poolId strategy candidates excluded nowMs leaseMs
  generalize s.reserve sessionId poolId strategy candidates excluded nowMs leaseMs = outcome
    at houtcome
  have hready : ∀ candidate, s.selectable excluded nowMs candidate = true ↔
      candidate.modelId ∉ excluded ∧ s.ready candidate nowMs = true := by
    intro candidate
    rw [selectable, Bool.and_eq_true, Bool.not_eq_true', contains_eq_mem,
      decide_eq_false_iff_not]
  have hactive_iff : (s.dropExpired nowMs).reservations.lookup sessionId = none ↔
      ∀ active, s.reservations.lookup sessionId = some active → active.expiresAtMs ≤ nowMs := by
    rw [dropExpired, AssocMap.lookup_retain, Option.filter_eq_none_iff]
    simp only [decide_eq_true_eq, not_lt, gt_iff_lt]
  refine ⟨?_, ⟨?_, ?_⟩, ?_⟩
  · rintro r s' rfl
    cases houtcome with
    | reserved selected hstrategy hactive hselect =>
      obtain ⟨hmem, hselectable⟩ := mem_of_select hselect
      rw [selectable_dropExpired, hready] at hselectable
      exact ⟨selected, hmem, rfl, rfl, hselectable.1, admissible_of_ready hselectable.2⟩
  · rintro ⟨retryAtMs, s', rfl⟩
    cases houtcome with
    | unavailable hstrategy hactive hselect =>
      refine ⟨hstrategy, hactive_iff.mp hactive, fun candidate hcandidate hadmits => ?_⟩
      have hnot := select_eq_none.mp hselect candidate hcandidate
      rw [selectable_dropExpired, (hready candidate).mpr hadmits.2] at hnot
      cases hnot
  · rintro ⟨hstrategy, hexpired, hnone⟩
    cases houtcome with
    | unsupported hunsupported => exact absurd hunsupported hstrategy
    | inProgress _ hactive =>
      rw [hactive_iff.mpr hexpired] at hactive
      cases hactive
    | unavailable => exact ⟨_, _, rfl⟩
    | reserved selected _ _ hselect =>
      obtain ⟨hmem, hselectable⟩ := mem_of_select hselect
      rw [selectable_dropExpired, hready] at hselectable
      exact absurd ⟨(admissible_of_ready hselectable.2).eligible, hselectable⟩
        (hnone selected hmem)
  · rintro e s' rfl
    cases houtcome <;> exact ⟨rfl, rfl, rfl, rfl⟩

/-- A pool without members and with an unknown strategy is not found unavailable. -/
theorem reserve_unsupported_empty :
    (∀ candidate ∈ ([] : List Candidate), ¬(candidate.eligible = true ∧
      candidate.modelId ∉ ([] : List String) ∧ new.ready candidate 0 = true)) ∧
    ¬∃ retryAtMs s', new.reserve "session" "pool" .unsupported [] [] 0 100 =
      (.error (.unavailable retryAtMs), s') := by
  refine ⟨fun candidate hmem => absurd hmem not_mem_nil, ?_⟩
  rintro ⟨retryAtMs, s', h⟩
  have hresult := congrArg Prod.fst h
  cases hresult

/-! ## The circle of a balanced pool -/

/-- The models of the candidates. -/
def ids (candidates : List Candidate) : List String := candidates.map (·.modelId)

@[simp] theorem length_ids (candidates : List Candidate) :
    (ids candidates).length = candidates.length :=
  length_map _

theorem position_eq_some {modelId : String} {i : ℕ} (h : position candidates modelId = some i) :
    i < candidates.length ∧ (ids candidates)[i]? = some modelId := by
  obtain ⟨hlt, htest, -⟩ := findIdx?_eq_some_iff_getElem.mp h
  refine ⟨hlt, ?_⟩
  rw [ids, getElem?_map, getElem?_eq_getElem hlt, Option.map_some, beq_iff_eq.mp htest]

theorem position_eq_none {modelId : String} :
    position candidates modelId = none ↔ modelId ∉ ids candidates := by
  rw [position, findIdx?_eq_none_iff, ids, mem_map]
  simp only [beq_eq_false_iff_ne, ne_eq, not_exists, not_and]

/-- Where no model occurs twice, a model is found where it is. -/
theorem position_of_getElem? (hnodup : (ids candidates).Nodup) {modelId : String} {i : ℕ}
    (h : (ids candidates)[i]? = some modelId) : position candidates modelId = some i := by
  cases hposition : position candidates modelId with
  | none => exact absurd (mem_of_getElem? h) (position_eq_none.mp hposition)
  | some j =>
    obtain ⟨-, hj⟩ := position_eq_some hposition
    rw [Option.some_inj]
    exact (List.getElem?_inj (List.getElem?_eq_some_iff.mp hj).1 hnodup).mp (hj.trans h.symm)

theorem cursorStart_lt {cursor : Cursor} {i : ℕ} (h : cursorStart candidates cursor = some i) :
    i < candidates.length := by
  rw [cursorStart] at h
  cases hposition : position candidates cursor.nextId with
  | some j =>
    rw [hposition] at h
    obtain rfl := Option.some.inj h
    exact (position_eq_some hposition).1
  | none =>
    rw [hposition] at h
    obtain ⟨id, -, hid⟩ := exists_of_findSome?_eq_some h
    exact (position_eq_some hid).1

/-- The start position is a position of the list, or zero. -/
theorem start_mod (s : ModelPoolRouter) (poolId : String) (candidates : List Candidate) :
    s.start poolId .balanced candidates % candidates.length =
      s.start poolId .balanced candidates := by
  rw [start, if_pos rfl]
  cases hcursor : (s.cursors.lookup poolId).bind (cursorStart candidates) with
  | none => exact Nat.zero_mod _
  | some i =>
    obtain ⟨cursor, -, hi⟩ := Option.bind_eq_some_iff.mp hcursor
    exact Nat.mod_eq_of_lt (cursorStart_lt hi)

/-- **The cursor survives removals**: it stands at the first member from its next one on, in the
old order, that is still there. -/
theorem cursorStart_eq {cursor : Cursor} (hnext : cursor.nextId ∈ cursor.order) :
    cursorStart candidates cursor =
      ((cursor.order.rotate (cursor.order.idxOf cursor.nextId)).find? (· ∈ ids candidates)).bind
        (position candidates) := by
  have hlt : cursor.order.idxOf cursor.nextId < cursor.order.length :=
    idxOf_lt_length_of_mem hnext
  have hscan : ∀ order : List String, order.findSome? (position candidates) =
      (order.find? (· ∈ ids candidates)).bind (position candidates) := by
    intro order
    induction order with
    | nil => rfl
    | cons id order ih =>
      rw [findSome?_cons, find?_cons]
      cases hid : position candidates id with
      | none =>
        rw [decide_eq_false (position_eq_none.mp hid)]
        exact ih
      | some i =>
        have hmem : id ∈ ids candidates := by
          by_contra hnot
          rw [position_eq_none.mpr hnot] at hid
          cases hid
        rw [decide_eq_true hmem]
        exact hid.symm
  have hidx : cursor.order.idxOf? cursor.nextId = some (cursor.order.idxOf cursor.nextId) :=
    findIdx?_eq_some_iff_findIdx_eq.mpr ⟨hlt, rfl⟩
  rw [cursorStart, hidx]
  dsimp only [Option.getD_some]
  rw [hscan]
  cases hposition : position candidates cursor.nextId with
  | none => rfl
  | some i =>
    -- the next member is still there, and heads the rotated order
    have hmem : cursor.nextId ∈ ids candidates := by
      by_contra hnot
      rw [position_eq_none.mpr hnot] at hposition
      cases hposition
    have hhead := head?_rotate hlt
    rw [getElem?_eq_getElem hlt, getElem_idxOf] at hhead
    obtain ⟨order, horder⟩ := head?_eq_some_iff.mp hhead
    rw [horder, find?_cons, decide_eq_true hmem]
    exact hposition.symm

/-! ## Selections when every candidate is ready -/

/-- The session is bound to a candidate of the pool. -/
def BoundTo (s : ModelPoolRouter) (sessionId poolId : String) (member : Candidate) : Prop :=
  ∃ binding, s.bindings.lookup sessionId = some binding ∧ binding.poolId = poolId ∧
    binding.modelId = member.modelId ∧ binding.configurationFingerprint = member.fingerprint

/-- The test whether a session is bound to one of the candidates. -/
def isBound (s : ModelPoolRouter) (sessionId poolId : String) (candidates : List Candidate) :
    Bool :=
  (s.bindings.lookup sessionId).any fun binding => binding.poolId == poolId &&
    candidates.any fun candidate => candidate.modelId == binding.modelId &&
      candidate.fingerprint == binding.configurationFingerprint

theorem isBound_iff : s.isBound sessionId poolId candidates = true ↔
    ∃ member ∈ candidates, s.BoundTo sessionId poolId member := by
  rw [isBound, Option.any_eq_true]
  simp only [Bool.and_eq_true, beq_iff_eq, any_eq_true, BoundTo]
  refine ⟨?_, ?_⟩
  · rintro ⟨binding, hbinding, hpool, member, hmem, hmodel, hfingerprint⟩
    exact ⟨member, hmem, binding, hbinding, hpool, hmodel.symm, hfingerprint.symm⟩
  · rintro ⟨member, hmem, binding, hbinding, hpool, hmodel, hfingerprint⟩
    exact ⟨binding, hbinding, hpool, member, hmem, hmodel.symm, hfingerprint.symm⟩

variable (s) in
/-- All candidates are ready, and none is excluded. -/
def AllReady (candidates : List Candidate) (excluded : List String) (nowMs : ℕ) : Prop :=
  ∀ candidate ∈ candidates, s.selectable excluded nowMs candidate = true

theorem sticky_dropExpired :
    (s.dropExpired nowMs).sticky sessionId poolId candidates excluded nowMs =
      s.sticky sessionId poolId candidates excluded nowMs := by
  rw [sticky, selectable_dropExpired]
  rfl

theorem select_dropExpired :
    (s.dropExpired nowMs).select sessionId poolId strategy candidates excluded nowMs =
      s.select sessionId poolId strategy candidates excluded nowMs := by
  rw [select, sticky_dropExpired, selectable_dropExpired]
  rfl

/-- A bound session keeps to a candidate it is bound to, an unbound one to none. -/
theorem sticky_of_allReady (hready : s.AllReady candidates excluded nowMs) :
    (∃ member ∈ candidates, s.BoundTo sessionId poolId member ∧
      s.sticky sessionId poolId candidates excluded nowMs = some member) ∨
    s.isBound sessionId poolId candidates = false ∧
      s.sticky sessionId poolId candidates excluded nowMs = none := by
  have hall : candidates.filter (s.selectable excluded nowMs) = candidates :=
    filter_eq_self.mpr hready
  cases hsticky : s.sticky sessionId poolId candidates excluded nowMs with
  | some member =>
    refine .inl ⟨member, (mem_of_sticky hsticky).1, ?_, rfl⟩
    obtain ⟨binding, hbinding, hfind⟩ := Option.bind_eq_some_iff.mp hsticky
    rw [Option.filter_eq_some_iff, beq_iff_eq] at hbinding
    have htest := find?_some hfind
    rw [Bool.and_eq_true, beq_iff_eq, beq_iff_eq] at htest
    exact ⟨binding, hbinding.1, hbinding.2, htest.1.symm, htest.2.symm⟩
  | none =>
    refine .inr ⟨eq_false_of_ne_true fun hbound => ?_, rfl⟩
    obtain ⟨member, hmem, binding, hbinding, hpool, hmodel, hfingerprint⟩ := isBound_iff.mp hbound
    rw [sticky, hall, hbinding, Option.filter_some_pos (by rw [hpool, beq_self_eq_true]),
      Option.bind_some] at hsticky
    have hnot := find?_eq_none.mp hsticky member hmem
    rw [hmodel, hfingerprint, beq_self_eq_true, beq_self_eq_true] at hnot
    exact hnot rfl

/-- Where no model occurs twice, a session is bound to one candidate at most. -/
theorem BoundTo.unique (hnodup : (ids candidates).Nodup) {member member' : Candidate}
    (hmem : member ∈ candidates) (hmem' : member' ∈ candidates)
    (h : s.BoundTo sessionId poolId member) (h' : s.BoundTo sessionId poolId member') :
    member = member' := by
  obtain ⟨binding, hbinding, -, hmodel, -⟩ := h
  obtain ⟨binding', hbinding', -, hmodel', -⟩ := h'
  obtain rfl := Option.some.inj (hbinding.symm.trans hbinding')
  exact inj_on_of_nodup_map hnodup hmem hmem' (hmodel.symm.trans hmodel')

/-- The outcome of a balanced `reserve` when all candidates are ready. -/
theorem reserve_of_allReady (hready : s.AllReady candidates excluded nowMs) {r : Reservation}
    (h : s.reserve sessionId poolId .balanced candidates excluded nowMs leaseMs = (.ok r, s')) :
    (∃ member ∈ candidates, s.BoundTo sessionId poolId member ∧
      s.isBound sessionId poolId candidates = true ∧ r.binding.modelId = member.modelId ∧
      s'.cursors = s.cursors) ∨
    s.isBound sessionId poolId candidates = false ∧
      (ids candidates)[s.start poolId .balanced candidates]? = some r.binding.modelId ∧
      s'.cursors = s.cursors.insert poolId (cursorAfter candidates r.binding.modelId) := by
  have houtcome := reserve_outcome s sessionId poolId .balanced candidates excluded nowMs leaseMs
  rw [h] at houtcome
  cases houtcome with
  | reserved selected hstrategy hactive hselect =>
    rw [select_dropExpired] at hselect
    have hmem := (mem_of_select hselect).1
    rcases sticky_of_allReady hready with ⟨member, hmember, hbound, hsticky⟩ | ⟨hbound, hsticky⟩
    · rw [select, hsticky] at hselect
      obtain rfl := Option.some.inj hselect
      refine .inl ⟨member, hmember, hbound, isBound_iff.mpr ⟨member, hmember, hbound⟩, rfl, ?_⟩
      rw [cursorsAfter, sticky_dropExpired, hsticky]
      rfl
    · refine .inr ⟨hbound, ?_, ?_⟩
      · rw [select, hsticky] at hselect
        have hlt : s.start poolId .balanced candidates < candidates.length := by
          rw [← start_mod]
          exact Nat.mod_lt _ (length_pos_of_mem hmem)
        have hhead := head?_rotate hlt
        -- the first candidate of the rotated list is ready already
        rcases hrotate : candidates.rotate (s.start poolId .balanced candidates) with _ | ⟨c, cs⟩
        · rw [hrotate, getElem?_eq_getElem hlt] at hhead
          cases hhead
        · have hc : s.selectable excluded nowMs c = true := by
            apply hready
            rw [← mem_rotate, hrotate]
            exact mem_cons_self
          have hfirst : (c :: cs).find? (s.selectable excluded nowMs) = some selected := by
            rw [← hrotate]
            exact hselect
          rw [find?_cons, hc] at hfirst
          obtain rfl := Option.some.inj hfirst
          rw [hrotate, head?_cons] at hhead
          rw [ids, getElem?_map, ← hhead]
          rfl
      · rw [cursorsAfter, sticky_dropExpired, hsticky]
        rfl

/-! ## Runs of a balanced pool -/

/-- What happens on a balanced pool. -/
inductive RotationEvent where
  /-- a session that was not bound got a member -/
  | assigned (modelId : String)
  /-- a bound session got a member -/
  | kept (modelId : String)
  /-- a request was refused, or an attempt ended -/
  | other
  deriving DecidableEq, Repr

/-- What the result of a `reserve` is for the circle. -/
def eventOf (bound : Bool) : Except SelectionError Reservation → RotationEvent
  | .ok r => if bound then .kept r.binding.modelId else .assigned r.binding.modelId
  | .error _ => .other

/-- The members that unbound sessions got, in order. -/
def assignments (tr : List RotationEvent) : List String :=
  tr.filterMap fun
    | .assigned modelId => some modelId
    | _ => none

/-- The operations on a balanced pool whose candidates are all ready at every `reserve`. -/
inductive Rotates (poolId : String) (candidates : List Candidate) (s : ModelPoolRouter) :
    RotationEvent → ModelPoolRouter → Prop
  | reserve (sessionId : String) (excluded : List String) (nowMs leaseMs : ℕ)
      (hready : s.AllReady candidates excluded nowMs)
      (result : Except SelectionError Reservation) (s' : ModelPoolRouter)
      (heq : s.reserve sessionId poolId .balanced candidates excluded nowMs leaseMs =
        (result, s')) :
    Rotates poolId candidates s (eventOf (s.isBound sessionId poolId candidates) result) s'
  | accept (r : Reservation) : Rotates poolId candidates s .other (s.accept r).2
  | cancel (r : Reservation) : Rotates poolId candidates s .other (s.cancel r)

theorem release_cursors (s : ModelPoolRouter) (r : Reservation) :
    (s.release r).2.cursors = s.cursors := by
  rw [release]
  split <;> rfl

theorem accept_cursors (s : ModelPoolRouter) (r : Reservation) :
    (s.accept r).2.cursors = s.cursors := by
  rw [← release_cursors s r, accept]
  rcases s.release r with ⟨_ | _, t⟩ <;> rfl

theorem start_congr (h : s'.cursors = s.cursors) (poolId : String) (candidates : List Candidate) :
    s'.start poolId .balanced candidates = s.start poolId .balanced candidates := by
  rw [start, start, h]

/-- The cursor behind position `i` of the circle. -/
theorem cursorAfter_eq (hnodup : (ids candidates).Nodup) {modelId : String} {i : ℕ}
    (h : (ids candidates)[i]? = some modelId) :
    (ids candidates)[(i + 1) % candidates.length]? =
        some (cursorAfter candidates modelId).nextId ∧
      (cursorAfter candidates modelId).order = ids candidates := by
  have hi : i < candidates.length := by
    rw [← length_ids candidates]
    exact (List.getElem?_eq_some_iff.mp h).1
  have hlt : (i + 1) % candidates.length < candidates.length := Nat.mod_lt _ (by omega)
  refine ⟨?_, rfl⟩
  rw [cursorAfter, position_of_getElem? hnodup h, ids, getElem?_map, Option.getD_some,
    getElem?_eq_getElem hlt]
  rfl

/-- After a selection the circle starts one position further. -/
theorem start_after (hnodup : (ids candidates).Nodup) {modelId : String} {i : ℕ}
    (h : (ids candidates)[i]? = some modelId)
    (hcursors : s'.cursors = s.cursors.insert poolId (cursorAfter candidates modelId)) :
    s'.start poolId .balanced candidates = (i + 1) % candidates.length := by
  obtain ⟨hnext, -⟩ := cursorAfter_eq hnodup h
  rw [start, if_pos rfl, hcursors, AList.lookup_insert, Option.bind_some, cursorStart,
    position_of_getElem? hnodup hnext]
  rfl

/-- Where the circle stands after a run, and what was assigned on it. -/
structure OnCircle (poolId : String) (candidates : List Candidate) (start : ℕ)
    (tr : List RotationEvent) (s : ModelPoolRouter) : Prop where
  assigned : assignments tr = cyclic (ids candidates) start (assignments tr).length
  standsAt : s.start poolId .balanced candidates =
    (start + (assignments tr).length) % candidates.length
  cursor : assignments tr ≠ [] → ∃ cursor, s.cursors.lookup poolId = some cursor ∧
    (ids candidates)[s.start poolId .balanced candidates]? = some cursor.nextId ∧
      cursor.order = ids candidates

theorem assignments_append (tr tr' : List RotationEvent) :
    assignments (tr ++ tr') = assignments tr ++ assignments tr' :=
  filterMap_append

/-- An event that assigns nothing leaves the circle where it is. -/
theorem OnCircle.stay {start : ℕ} {tr : List RotationEvent} {e : RotationEvent}
    (h : OnCircle poolId candidates start tr s) (hcursors : s'.cursors = s.cursors)
    (he : assignments [e] = []) : OnCircle poolId candidates start (tr ++ [e]) s' := by
  have hsame : assignments (tr ++ [e]) = assignments tr := by
    rw [assignments_append, he, append_nil]
  refine ⟨?_, ?_, ?_⟩
  · rw [hsame]
    exact h.assigned
  · rw [hsame, start_congr hcursors]
    exact h.standsAt
  · rw [hsame, hcursors, start_congr hcursors]
    exact h.cursor

theorem OnCircle.step (hnodup : (ids candidates).Nodup) {start : ℕ} {tr : List RotationEvent}
    {e : RotationEvent} (h : OnCircle poolId candidates start tr s)
    (hstep : Rotates poolId candidates s e s') : OnCircle poolId candidates start (tr ++ [e]) s' := by
  cases hstep with
  | accept r => exact h.stay (accept_cursors s r) rfl
  | cancel r => exact h.stay (release_cursors s r) rfl
  | reserve sessionId excluded nowMs leaseMs hready result s' heq =>
    cases result with
    | error e =>
      refine h.stay ?_ rfl
      obtain ⟨-, -, hcursors, -⟩ := (reserve_probes_singly s sessionId poolId .balanced candidates
        excluded nowMs leaseMs).2.2 e s' heq
      exact hcursors
    | ok r =>
      rcases reserve_of_allReady hready heq with ⟨-, -, -, hbound, -, hcursors⟩ |
        ⟨hbound, hmodel, hcursors⟩
      · rw [hbound]
        exact h.stay hcursors rfl
      · rw [hbound]
        have hassigned : assignments (tr ++ [eventOf false (.ok r)]) =
            assignments tr ++ [r.binding.modelId] :=
          assignments_append _ _
        have hstart := start_after hnodup hmodel hcursors
        refine ⟨?_, ?_, fun _ => ?_⟩
        · rw [hassigned, length_append, length_singleton, cyclic_succ, ← h.assigned,
            length_ids, ← h.standsAt, hmodel]
          rfl
        · rw [hassigned, length_append, length_singleton, hstart, h.standsAt,
            Nat.mod_add_mod, Nat.add_assoc]
        · obtain ⟨hnext, horder⟩ := cursorAfter_eq hnodup hmodel
          refine ⟨_, ?_, ?_, horder⟩
          · rw [hcursors, AList.lookup_insert]
          · rw [hstart]
            exact hnext

theorem OnCircle.run (hnodup : (ids candidates).Nodup) {tr : List RotationEvent}
    (hrun : Run (Rotates poolId candidates) s tr s') :
    OnCircle poolId candidates (s.start poolId .balanced candidates) tr s' := by
  apply hrun.history
  · exact ⟨rfl, (start_mod s poolId candidates).symm, fun h => absurd rfl h⟩
  · intro tr s e s' h hstep
    exact h.step hnodup hstep

/-- A selection after members were removed: the first member that is left, from the place of the
circle on. -/
theorem OnCircle.assign_remaining (hnodup : (ids candidates).Nodup) {start : ℕ}
    {tr : List RotationEvent} (h : OnCircle poolId candidates start tr s)
    (hassigned : assignments tr ≠ []) {remaining : List Candidate}
    (hremaining : (ids remaining).Nodup) (hsub : ids remaining ⊆ ids candidates)
    (hready : s.AllReady remaining excluded nowMs)
    (hunbound : s.isBound sessionId poolId remaining = false) {r : Reservation}
    (hreserve : s.reserve sessionId poolId .balanced remaining excluded nowMs leaseMs =
      (.ok r, s')) :
    ((ids candidates).rotate (s.start poolId .balanced candidates)).find? (· ∈ ids remaining) =
      some r.binding.modelId := by
  obtain ⟨cursor, hlookup, hnext, horder⟩ := h.cursor hassigned
  obtain ⟨hlt, hget⟩ := List.getElem?_eq_some_iff.mp hnext
  rcases reserve_of_allReady hready hreserve with ⟨-, -, -, hbound, -⟩ | ⟨-, hmodel, -⟩
  · rw [hunbound] at hbound
    cases hbound
  · have hmem : cursor.nextId ∈ cursor.order := horder ▸ mem_of_getElem? hnext
    have hidx : cursor.order.idxOf cursor.nextId = s.start poolId .balanced candidates := by
      rw [horder, ← hget, List.Nodup.idxOf_getElem hnodup]
    -- some member is left, as one of them was selected
    cases hfind : ((ids candidates).rotate (s.start poolId .balanced candidates)).find?
      (· ∈ ids remaining) with
    | none =>
      have hleft := mem_of_getElem? hmodel
      have hnot := find?_eq_none.mp hfind _ (mem_rotate.mpr (hsub hleft))
      exact absurd (decide_eq_true hleft) hnot
    | some id =>
      have htest := find?_some hfind
      have hid : id ∈ ids remaining := of_decide_eq_true htest
      obtain ⟨i, hi⟩ := mem_iff_getElem?.mp hid
      have hstart : s.start poolId .balanced remaining = i := by
        rw [ModelPoolRouter.start, if_pos rfl, hlookup, Option.bind_some, cursorStart_eq hmem,
          hidx, horder, hfind, Option.bind_some, position_of_getElem? hremaining hi,
          Option.getD_some]
      rw [hstart, hi] at hmodel
      exact hmodel

/-- **Balanced rotation.** Over every run on a balanced pool whose candidates are distinct and all
ready at every `reserve`: unbound sessions are given the members in a circle, so that the members'
numbers of assignments differ by at most one; a session that is bound to a candidate gets that one;
and when members are removed, the next unbound session gets the first member left, from the place
of the circle on, in the old order. -/
theorem balanced_rotation (poolId : String) (candidates : List Candidate)
    (hnodup : (ids candidates).Nodup) {s s' : ModelPoolRouter} {tr : List RotationEvent}
    (hrun : Run (Rotates poolId candidates) s tr s') :
    assignments tr = cyclic (ids candidates) (s.start poolId .balanced candidates)
        (assignments tr).length ∧
    (∀ a ∈ ids candidates, ∀ b ∈ ids candidates,
      (assignments tr).count a ≤ (assignments tr).count b + 1) ∧
    (∀ sessionId excluded nowMs leaseMs r t, s'.AllReady candidates excluded nowMs →
      s'.reserve sessionId poolId .balanced candidates excluded nowMs leaseMs = (.ok r, t) →
      ∀ member ∈ candidates, s'.BoundTo sessionId poolId member →
        r.binding.modelId = member.modelId) ∧
    (assignments tr ≠ [] → ∀ remaining, (ids remaining).Nodup → ids remaining ⊆ ids candidates →
      ∀ sessionId excluded nowMs leaseMs r t, s'.AllReady remaining excluded nowMs →
      s'.isBound sessionId poolId remaining = false →
      s'.reserve sessionId poolId .balanced remaining excluded nowMs leaseMs = (.ok r, t) →
      ((ids candidates).rotate ((s.start poolId .balanced candidates +
        (assignments tr).length) % candidates.length)).find? (· ∈ ids remaining) =
          some r.binding.modelId) := by
  have hcircle := OnCircle.run hnodup hrun
  refine ⟨hcircle.assigned, fun a ha b hb => ?_, ?_, ?_⟩
  · rw [hcircle.assigned]
    exact count_cyclic_le hnodup ha hb _ _
  · intro sessionId excluded nowMs leaseMs r t hready hreserve member hmember hbound
    rcases reserve_of_allReady hready hreserve with ⟨member', hmember', hbound', -, hmodel, -⟩ |
      ⟨hunbound, -⟩
    · rw [hmodel, hbound'.unique hnodup hmember' hmember hbound]
    · rw [isBound_iff.mpr ⟨member, hmember, hbound⟩] at hunbound
      cases hunbound
  · intro hassigned remaining hremaining hsub sessionId excluded nowMs leaseMs r t hready hunbound
      hreserve
    rw [← hcircle.standsAt]
    exact hcircle.assign_remaining hnodup hassigned hremaining hsub hready hunbound hreserve

/-- Three members. -/
def trio : List Candidate := [⟨"a", "v1", true⟩, ⟨"b", "v1", true⟩, ⟨"c", "v1", true⟩]

/-- The router after one more session was served. -/
def serve (s : ModelPoolRouter) (sessionId : String) : ModelPoolRouter :=
  (s.reserve sessionId "pool" .balanced trio [] 0 100).2

/-- Four sessions and three members. -/
theorem balanced_rotation_four :
    ∃ tr, Run (Rotates "pool" trio) new tr ((((new.serve "1").serve "2").serve "3").serve "4") ∧
      assignments tr = ["a", "b", "c", "a"] ∧
      assignments tr = cyclic (ids trio) 0 4 := by
  have hstep : ∀ s : ModelPoolRouter, ∀ sessionId, s.AllReady trio [] 0 →
      Rotates "pool" trio s (eventOf (s.isBound sessionId "pool" trio)
        (s.reserve sessionId "pool" .balanced trio [] 0 100).1) (s.serve sessionId) :=
    fun s sessionId hready => .reserve sessionId [] 0 100 hready _ _ rfl
  have hrun := (((Run.single (hstep new "1" (by unfold AllReady; decide +kernel))).step
    (hstep _ "2" (by unfold AllReady; decide +kernel))).step
    (hstep _ "3" (by unfold AllReady; decide +kernel))).step
    (hstep _ "4" (by unfold AllReady; decide +kernel))
  refine ⟨_, hrun, by decide +kernel, ?_⟩
  exact (balanced_rotation "pool" trio (by decide +kernel) hrun).1

/-! ## Another member -/

/-- **An alternative is announced exactly when it can be reserved**, though the announcement reads
the pool with the expired reservations, and the reservation without them. -/
theorem hasAvailableAlternative_iff (poolId currentModelId : String) (candidates : List Candidate)
    (excluded : List String) (leaseMs : ℕ) (hstrategy : strategy ≠ .unsupported)
    (hfree : ∀ active, s.reservations.lookup sessionId = some active →
      active.expiresAtMs ≤ nowMs) :
    s.hasAvailableAlternative currentModelId candidates excluded nowMs = true ↔
      ∃ r s', s.reserve sessionId poolId strategy candidates (currentModelId :: excluded) nowMs
        leaseMs = (.ok r, s') ∧ r.binding.modelId ≠ currentModelId := by
  have halternative : s.hasAvailableAlternative currentModelId candidates excluded nowMs =
      candidates.any ((s.dropExpired nowMs).selectable (currentModelId :: excluded) nowMs) := by
    rw [selectable_dropExpired]
    refine congrArg candidates.any (funext fun candidate => Bool.eq_iff_iff.mpr ?_)
    simp [selectable]
  have houtcome := reserve_outcome s sessionId poolId strategy candidates
    (currentModelId :: excluded) nowMs leaseMs
  generalize s.reserve sessionId poolId strategy candidates (currentModelId :: excluded) nowMs
    leaseMs = outcome at houtcome
  rw [halternative, any_eq_true]
  refine ⟨fun ⟨candidate, hmem, hselectable⟩ => ?_, fun ⟨r, s', hreserve, _⟩ => ?_⟩
  · cases houtcome with
    | unsupported hunsupported => exact absurd hunsupported hstrategy
    | inProgress _ hactive =>
      obtain ⟨active, hactive⟩ := Option.isSome_iff_exists.mp hactive
      rw [dropExpired, AssocMap.lookup_retain, Option.filter_eq_some_iff] at hactive
      exact absurd (hfree active hactive.1) (Nat.not_le.mpr (of_decide_eq_true hactive.2))
    | unavailable _ _ hselect =>
      rw [select_eq_none.mp hselect candidate hmem] at hselectable
      cases hselectable
    | reserved selected _ _ hselect =>
      have hselected := (mem_of_select hselect).2
      refine ⟨_, _, rfl, fun hsame => ?_⟩
      simp [selectable, ← hsame, reservationOf] at hselected
  · subst hreserve
    cases houtcome with
    | reserved selected _ _ hselect => exact ⟨selected, mem_of_select hselect⟩

theorem hasAvailableAlternative_iff_of_three :
    new.hasAvailableAlternative "a" trio [] 0 = true ↔ ∃ r s',
      new.reserve "1" "pool" .balanced trio ["a"] 0 100 = (.ok r, s') ∧ r.binding.modelId ≠ "a" :=
  hasAvailableAlternative_iff "pool" "a" trio [] 100 (by decide) nofun

end ModelPoolRouter

end ModelPool

end OpenBitFun
