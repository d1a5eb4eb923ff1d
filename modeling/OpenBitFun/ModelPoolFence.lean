import OpenBitFun.ModelPool

/-!
# The generation fence of the model pool

Runs of the router together with the reservations it has handed out. A reservation is live while
the table holds it for its session. Two facts carry the fence: no reservation and no health record
has a generation above the router's, and no two reservations have the same one. So the test of
`release`, which compares generations only, tells the session's reservation from every earlier
one (`Inv.release_iff_live`), and a result that comes late finds a newer record.

What one operation can do from such a state is `Moved`; the invariant and everything that is said
about later states follow from it. A manual retry of a member raises the generation of the
member's record. It has nothing to raise where no record is stored, and there an attempt that was
reserved before can still record its failure (`stale_attempts_fenced`).
-/

namespace OpenBitFun

open List

namespace ModelPool

/-! ## Runs -/

/-- The operations of the router. -/
inductive Operation where
  | reserve (sessionId poolId : String) (strategy : ModelPoolStrategy)
      (candidates : List Candidate) (excluded : List String) (nowMs leaseMs : ℕ)
  | renew (reservation : Reservation) (nowMs leaseMs : ℕ)
  | cancel (reservation : Reservation)
  | accept (reservation : Reservation)
  | fail (reservation : Reservation) (error : AiProviderError) (nowMs retryDelayMs : ℕ)
  | configurationFailed (reservation : Reservation)
  | retryMember (modelId : String)
  | clearSession (sessionId : String)
  | restoreBinding (sessionId : String) (binding : ModelPoolBinding)
  | releaseSessionReservation (sessionId : String)

/-- The reservation an operation is called with. -/
def Operation.reservation? : Operation → Option Reservation
  | .renew r _ _ | .cancel r | .accept r | .fail r _ _ _ | .configurationFailed r => some r
  | _ => none

/-- The reservation whose result an operation reports. -/
def Operation.result? : Operation → Option Reservation
  | .accept r | .fail r _ _ _ | .configurationFailed r => some r
  | _ => none

/-- What an operation returns. -/
inductive Answer where
  | reserved (result : Except SelectionError Reservation)
  | settled (settled : Bool)
  | done

/-- The router, and the reservations it has handed out. -/
structure World where
  router : ModelPoolRouter
  issued : List Reservation

/-- The reservation of a successful `reserve`. -/
def granted : Except SelectionError Reservation → List Reservation
  | .ok reservation => [reservation]
  | .error _ => []

/-- Performs an operation. -/
def World.perform (w : World) : Operation → Answer × World
  | .reserve sessionId poolId strategy candidates excluded nowMs leaseMs =>
    let outcome := w.router.reserve sessionId poolId strategy candidates excluded nowMs leaseMs
    (.reserved outcome.1, ⟨outcome.2, w.issued ++ granted outcome.1⟩)
  | .renew r nowMs leaseMs => (.done, { w with router := w.router.renew r nowMs leaseMs })
  | .cancel r => (.done, { w with router := w.router.cancel r })
  | .accept r =>
    let outcome := w.router.accept r
    (.settled outcome.1, { w with router := outcome.2 })
  | .fail r error nowMs retryDelayMs =>
    let outcome := w.router.fail r error nowMs retryDelayMs
    (.settled outcome.1, { w with router := outcome.2 })
  | .configurationFailed r => (.done, { w with router := w.router.configurationFailed r })
  | .retryMember modelId => (.done, { w with router := w.router.retryMember modelId })
  | .clearSession sessionId => (.done, { w with router := w.router.clearSession sessionId })
  | .restoreBinding sessionId binding =>
    (.done, { w with router := w.router.restoreBinding sessionId binding })
  | .releaseSessionReservation sessionId =>
    (.done, { w with router := w.router.releaseSessionReservation sessionId })

/-- One step: an operation, called with a reservation that was handed out before, and its answer.
Generations stay below `u64::MAX`. -/
def Step (w : World) (call : Operation × Answer) (w' : World) : Prop :=
  (∀ r ∈ call.1.reservation?, r ∈ w.issued) ∧ w.perform call.1 = (call.2, w') ∧
    w'.router.generation < u64Max

/-- The router as it is created or loaded: nothing is reserved yet, and no record is newer than
the router. -/
structure Start (w : World) : Prop where
  issued : w.issued = []
  reservations : ∀ sessionId, w.router.reservations.lookup sessionId = none
  health_le : ∀ modelId health, w.router.health.lookup modelId = some health →
    health.generation ≤ w.router.generation
  generation_lt : w.router.generation < u64Max

/-- The table holds a reservation for its session. -/
def World.Live (w : World) (r : Reservation) : Prop :=
  ∃ active, w.router.reservations.lookup r.sessionId = some active ∧ active.binding = r.binding

/-! ## The invariant -/

/-- What holds of the router and the reservations it has handed out. -/
structure World.Inv (w : World) : Prop where
  /-- no record is newer than the router -/
  health_le : ∀ modelId health, w.router.health.lookup modelId = some health →
    health.generation ≤ w.router.generation
  /-- no reservation is newer than the router -/
  issued_le : ∀ r ∈ w.issued, r.binding.generation ≤ w.router.generation
  /-- no two reservations have the same generation -/
  generations_nodup : (w.issued.map (·.binding.generation)).Nodup
  /-- the table holds reservations that were handed out, under their sessions -/
  table : ∀ sessionId active, w.router.reservations.lookup sessionId = some active →
    active.sessionId = sessionId ∧
      ∃ r ∈ w.issued, r.sessionId = sessionId ∧ r.binding = active.binding
  /-- the generations do not saturate -/
  generation_lt : w.router.generation < u64Max

theorem Start.inv {w : World} (h : Start w) : w.Inv where
  health_le := h.health_le
  issued_le := by
    rw [h.issued]
    exact fun r hr => absurd hr not_mem_nil
  generations_nodup := by
    rw [h.issued]
    exact nodup_nil
  table := by
    intro sessionId active hactive
    rw [h.reservations] at hactive
    cases hactive
  generation_lt := h.generation_lt

variable {w w' : World} {r r' : Reservation} {modelId : String}

/-- Reservations are told apart by their generations. -/
theorem World.Inv.eq_of_generation (h : w.Inv) (hr : r ∈ w.issued) (hr' : r' ∈ w.issued)
    (hgeneration : r.binding.generation = r'.binding.generation) : r = r' :=
  inj_on_of_nodup_map h.generations_nodup hr hr' hgeneration

/-- What one operation can do. -/
structure Moved (w w' : World) : Prop where
  /-- generations grow -/
  generation_le : w.router.generation ≤ w'.router.generation
  /-- at most one reservation is handed out, with a new generation -/
  issued : w'.issued = w.issued ∨ ∃ r, w'.issued = w.issued ++ [r] ∧
    w.router.generation < r.binding.generation ∧ r.binding.generation ≤ w'.router.generation
  /-- what the table holds it held before, or was just handed out -/
  table : ∀ sessionId active', w'.router.reservations.lookup sessionId = some active' →
    (∃ active, w.router.reservations.lookup sessionId = some active ∧
      active.sessionId = active'.sessionId ∧ active.binding = active'.binding) ∨
    w'.issued = w.issued ++ [active'] ∧ active'.sessionId = sessionId
  /-- a record is replaced by a newer one only -/
  health : ∀ modelId, w'.router.health.lookup modelId = w.router.health.lookup modelId ∨
    ∃ health', w'.router.health.lookup modelId = some health' ∧
      health'.generation ≤ w'.router.generation ∧
      ∀ health, w.router.health.lookup modelId = some health →
        health.generation < health'.generation

theorem World.Inv.moved (h : w.Inv) (hmoved : Moved w w')
    (hlt : w'.router.generation < u64Max) : w'.Inv where
  health_le := by
    intro modelId health hhealth
    rcases hmoved.health modelId with heq | ⟨health', hhealth', hle, -⟩
    · rw [heq] at hhealth
      exact (h.health_le modelId health hhealth).trans hmoved.generation_le
    · rw [hhealth', Option.some_inj] at hhealth
      exact hhealth ▸ hle
  issued_le := by
    intro r hr
    rcases hmoved.issued with heq | ⟨new, heq, -, hle⟩
    · rw [heq] at hr
      exact (h.issued_le r hr).trans hmoved.generation_le
    · rw [heq, mem_append, mem_singleton] at hr
      rcases hr with hr | rfl
      · exact (h.issued_le r hr).trans hmoved.generation_le
      · exact hle
  generations_nodup := by
    rcases hmoved.issued with heq | ⟨new, heq, hlt, -⟩
    · rw [heq]
      exact h.generations_nodup
    · rw [heq, map_append, map_singleton, ← concat_eq_append, nodup_concat]
      refine ⟨fun hmem => ?_, h.generations_nodup⟩
      obtain ⟨r, hr, hgeneration⟩ := mem_map.mp hmem
      exact absurd (h.issued_le r hr) (by omega)
  table := by
    intro sessionId active' hactive'
    rcases hmoved.table sessionId active' hactive' with ⟨active, hactive, hsession, hbinding⟩ |
      ⟨heq, hsession⟩
    · obtain ⟨hkey, r, hr, hrsession, hrbinding⟩ := h.table sessionId active hactive
      refine ⟨hsession ▸ hkey, r, ?_, hrsession, hrbinding.trans hbinding⟩
      rcases hmoved.issued with heq | ⟨new, heq, -, -⟩
      · exact heq ▸ hr
      · exact heq ▸ mem_append_left _ hr
    · refine ⟨hsession, active', ?_, hsession, rfl⟩
      rw [heq]
      exact mem_append_right _ (mem_singleton_self _)
  generation_lt := hlt

/-- A reservation that is not live does not become live again. -/
theorem World.Inv.not_live_moved (h : w.Inv) (hmoved : Moved w w') (hr : r ∈ w.issued)
    (hlive : ¬w.Live r) : ¬w'.Live r := by
  rintro ⟨active', hactive', hbinding⟩
  rcases hmoved.table r.sessionId active' hactive' with ⟨active, hactive, -, heq⟩ | ⟨heq, -⟩
  · exact hlive ⟨active, hactive, heq.trans hbinding⟩
  · -- what was just handed out has another generation
    rcases hmoved.issued with hsame | ⟨new, hnew, hgeneration, -⟩
    · rw [hsame] at heq
      exact absurd (congrArg List.length heq) (by simp)
    · rw [hnew, append_cancel_left_eq, singleton_inj] at heq
      have hle := h.issued_le r hr
      rw [heq, hbinding] at hgeneration
      omega

/-! ## Results of attempts -/

namespace ModelPoolRouter

variable {s s' : ModelPoolRouter}

/-- The test of `release`. -/
def released (s : ModelPoolRouter) (r : Reservation) : Bool :=
  (s.reservations.lookup r.sessionId).any fun active =>
    active.binding.generation == r.binding.generation

theorem release_eq (s : ModelPoolRouter) (r : Reservation) : s.release r =
    if s.released r then (true, { s with reservations := s.reservations.erase r.sessionId })
    else (false, s) :=
  rfl

/-- What the result of a released reservation does: it ends the reservation, and is recorded where
no record is as new. -/
structure Settles (r : Reservation) (s s' : ModelPoolRouter) : Prop where
  generation : s'.generation = s.generation
  reservations : s'.reservations = s.reservations.erase r.sessionId
  health : s'.health = s.health ∨
    (∀ health, s.health.lookup r.binding.modelId = some health →
      health.generation < r.binding.generation) ∧
    ∃ health', health'.generation = r.binding.generation ∧
      s'.health = s.health.insert r.binding.modelId health'

theorem lt_of_hasNewerHealth {r : Reservation} (h : s.hasNewerHealth r = false)
    (health : Health) (hhealth : s.health.lookup r.binding.modelId = some health) :
    health.generation < r.binding.generation := by
  rw [hasNewerHealth, hhealth, Option.any_some, decide_eq_false_iff_not] at h
  omega

theorem accept_cases (s : ModelPoolRouter) (r : Reservation) :
    (s.released r = false ∧ s.accept r = (false, s)) ∨
    (s.released r = true ∧ Settles r s (s.accept r).2) := by
  rw [accept, release_eq]
  cases hreleased : s.released r with
  | false => exact .inl ⟨rfl, rfl⟩
  | true =>
    refine .inr ⟨rfl, rfl, rfl, ?_⟩
    simp only [if_true]
    split
    · rename_i hnewer
      exact .inr ⟨lt_of_hasNewerHealth (s := s) ((Bool.not_eq_true' _).mp hnewer), _, rfl, rfl⟩
    · exact .inl rfl

theorem configurationFailed_cases (s : ModelPoolRouter) (r : Reservation) :
    (s.released r = false ∧ s.configurationFailed r = s) ∨
    (s.released r = true ∧ Settles r s (s.configurationFailed r)) := by
  rw [configurationFailed, release_eq]
  cases hreleased : s.released r with
  | false => exact .inl ⟨rfl, rfl⟩
  | true =>
    refine .inr ⟨rfl, ?_⟩
    simp only [if_true]
    split
    · exact ⟨rfl, rfl, .inl rfl⟩
    · rename_i hnewer
      refine ⟨rfl, rfl, .inr ?_⟩
      exact ⟨lt_of_hasNewerHealth (s := s) (eq_false_of_ne_true hnewer), _, rfl, rfl⟩

theorem fail_cases (s : ModelPoolRouter) (r : Reservation) (error : AiProviderError)
    (nowMs retryDelayMs : ℕ) :
    (s.released r = false ∧ s.fail r error nowMs retryDelayMs = (false, s)) ∨
    (s.released r = true ∧ Settles r s (s.fail r error nowMs retryDelayMs).2) := by
  rw [fail, release_eq]
  cases hreleased : s.released r with
  | false => exact .inl ⟨rfl, rfl⟩
  | true =>
    refine .inr ⟨rfl, ?_⟩
    simp only [if_true]
    cases failureStatus error.category with
    | inr answer => exact ⟨rfl, rfl, .inl rfl⟩
    | inl status =>
      dsimp only
      split
      · exact ⟨rfl, rfl, .inl rfl⟩
      · rename_i hnewer
        refine ⟨rfl, rfl, .inr ?_⟩
        exact ⟨lt_of_hasNewerHealth (s := s) (eq_false_of_ne_true hnewer), _, rfl, rfl⟩

end ModelPoolRouter

open ModelPoolRouter

/-- The result of a reservation: nothing happens when it is not released, and it settles
otherwise. -/
theorem result_cases {call : Operation × Answer} (hstep : Step w call w')
    (hresult : r ∈ call.1.result?) :
    (w.router.released r = false ∧ w' = w ∧
      (call.2 = .settled false ∨ call = (.configurationFailed r, .done))) ∨
    (w.router.released r = true ∧ w'.issued = w.issued ∧ Settles r w.router w'.router) := by
  obtain ⟨operation, answer⟩ := call
  obtain ⟨-, hperform, -⟩ := hstep
  cases operation with
  | accept r =>
    cases hresult
    cases hperform
    rcases accept_cases w.router r with ⟨hreleased, heq⟩ | ⟨hreleased, hsettles⟩
    · refine .inl ⟨hreleased, ?_, ?_⟩
      · rw [heq]
      · rw [heq]
        exact .inl rfl
    · exact .inr ⟨hreleased, rfl, hsettles⟩
  | fail r error nowMs retryDelayMs =>
    cases hresult
    cases hperform
    rcases fail_cases w.router r error nowMs retryDelayMs with ⟨hreleased, heq⟩ |
      ⟨hreleased, hsettles⟩
    · refine .inl ⟨hreleased, ?_, ?_⟩
      · rw [heq]
      · rw [heq]
        exact .inl rfl
    · exact .inr ⟨hreleased, rfl, hsettles⟩
  | configurationFailed r =>
    cases hresult
    cases hperform
    rcases configurationFailed_cases w.router r with ⟨hreleased, heq⟩ | ⟨hreleased, hsettles⟩
    · refine .inl ⟨hreleased, ?_, .inr rfl⟩
      rw [heq]
    · exact .inr ⟨hreleased, rfl, hsettles⟩
  | reserve => cases hresult
  | renew => cases hresult
  | cancel => cases hresult
  | retryMember => cases hresult
  | clearSession => cases hresult
  | restoreBinding => cases hresult
  | releaseSessionReservation => cases hresult

/-- The generation that `release` compares tells the live reservation. -/
theorem World.Inv.released_iff_live (h : w.Inv) (hr : r ∈ w.issued) :
    w.router.released r = true ↔ w.Live r := by
  rw [released, Option.any_eq_true]
  refine exists_congr fun active => and_congr_right fun hactive => ?_
  rw [beq_iff_eq]
  refine ⟨fun hgeneration => ?_, fun hbinding => by rw [hbinding]⟩
  obtain ⟨-, r', hr', -, hbinding⟩ := h.table r.sessionId active hactive
  rw [← hbinding] at hgeneration ⊢
  rw [h.eq_of_generation hr' hr hgeneration]

/-! ## What one operation can do -/

/-- An operation that hands nothing out, records no health and adds nothing to the table. -/
theorem Moved.quiet (hgeneration : w.router.generation ≤ w'.router.generation)
    (hissued : w'.issued = w.issued) (hhealth : w'.router.health = w.router.health)
    (htable : ∀ sessionId active', w'.router.reservations.lookup sessionId = some active' →
      ∃ active, w.router.reservations.lookup sessionId = some active ∧
        active.sessionId = active'.sessionId ∧ active.binding = active'.binding) :
    Moved w w' where
  generation_le := hgeneration
  issued := .inl hissued
  table := fun sessionId active' hactive' => .inl (htable sessionId active' hactive')
  health := fun modelId => .inl (by rw [hhealth])

/-- What an erased table holds it held before. -/
theorem table_of_erase (m : AssocMap String Reservation) (key sessionId : String)
    (active' : Reservation) (h : (m.erase key).lookup sessionId = some active') :
    ∃ active, m.lookup sessionId = some active ∧ active.sessionId = active'.sessionId ∧
      active.binding = active'.binding := by
  rw [AssocMap.lookup_erase] at h
  split at h
  · cases h
  · exact ⟨active', h, rfl, rfl⟩

theorem Moved.refl (w : World) : Moved w w :=
  .quiet le_rfl rfl rfl fun _ active' h => ⟨active', h, rfl, rfl⟩

/-- A result settles a reservation that was handed out. -/
theorem World.Inv.moved_of_settles (h : w.Inv) (hr : r ∈ w.issued)
    (hissued : w'.issued = w.issued) (hsettles : Settles r w.router w'.router) :
    Moved w w' where
  generation_le := hsettles.generation.ge
  issued := .inl hissued
  table := by
    intro sessionId active' hactive'
    rw [hsettles.reservations] at hactive'
    exact .inl (table_of_erase _ _ _ _ hactive')
  health := by
    intro modelId
    rcases hsettles.health with heq | ⟨hnewer, health', hgeneration, heq⟩
    · exact .inl (by rw [heq])
    · rw [heq, AssocMap.lookup_insert]
      by_cases hmodel : modelId = r.binding.modelId
      · refine .inr ⟨health', if_pos hmodel, ?_, ?_⟩
        · rw [hgeneration, hsettles.generation]
          exact h.issued_le r hr
        · rw [hmodel, hgeneration]
          exact hnewer
      · exact .inl (if_neg hmodel)

/-- What a table without the expired entries holds it held before. -/
theorem table_of_dropExpired (s : ModelPoolRouter) (nowMs : ℕ) (sessionId : String)
    (active' : Reservation)
    (h : (s.dropExpired nowMs).reservations.lookup sessionId = some active') :
    ∃ active, s.reservations.lookup sessionId = some active ∧
      active.sessionId = active'.sessionId ∧ active.binding = active'.binding := by
  rw [dropExpired, AssocMap.lookup_retain, Option.filter_eq_some_iff] at h
  exact ⟨active', h.1, rfl, rfl⟩

theorem World.Inv.moved_reserve (h : w.Inv) (sessionId poolId : String)
    (strategy : ModelPoolStrategy) (candidates : List Candidate) (excluded : List String)
    (nowMs leaseMs : ℕ) :
    Moved w (w.perform
      (.reserve sessionId poolId strategy candidates excluded nowMs leaseMs)).2 := by
  rw [World.perform]
  have houtcome := reserve_outcome w.router sessionId poolId strategy candidates excluded nowMs
    leaseMs
  generalize w.router.reserve sessionId poolId strategy candidates excluded nowMs leaseMs =
    outcome at houtcome
  have hquiet : Moved w ⟨w.router.dropExpired nowMs, w.issued⟩ :=
    .quiet le_rfl rfl rfl (table_of_dropExpired w.router nowMs)
  cases houtcome with
  | unsupported => simpa [granted] using hquiet
  | inProgress => simpa [granted] using hquiet
  | unavailable => simpa [granted] using hquiet
  | reserved selected =>
    have hgeneration : saturatingAdd (w.router.dropExpired nowMs).generation 1 =
        w.router.generation + 1 := saturatingAdd_one h.generation_lt
    refine ⟨?_, .inr ⟨_, rfl, ?_, ?_⟩, ?_, fun modelId => .inl rfl⟩
    · exact (Nat.le_succ _).trans hgeneration.ge
    · exact hgeneration.ge
    · exact le_rfl
    · intro key active' hactive'
      rw [AssocMap.lookup_insert] at hactive'
      split at hactive'
      · rename_i hkey
        cases hactive'
        exact .inr ⟨rfl, hkey.symm⟩
      · exact .inl (table_of_dropExpired w.router nowMs key active' hactive')

theorem moved_renew (r : Reservation) (nowMs leaseMs : ℕ) :
    Moved w { w with router := w.router.renew r nowMs leaseMs } := by
  rw [renew]
  cases hactive : w.router.reservations.lookup r.sessionId with
  | none => exact .refl w
  | some active =>
    dsimp only
    split
    · refine .quiet le_rfl rfl rfl fun key active' hactive' => ?_
      rw [AssocMap.lookup_insert] at hactive'
      split at hactive'
      · rename_i hkey
        cases hactive'
        exact ⟨active, hkey ▸ hactive, rfl, rfl⟩
      · exact ⟨active', hactive', rfl, rfl⟩
    · exact .refl w

theorem moved_cancel (r : Reservation) : Moved w { w with router := w.router.cancel r } := by
  rw [cancel, release_eq]
  split
  · exact .quiet le_rfl rfl rfl (table_of_erase w.router.reservations r.sessionId)
  · exact .refl w

/-- A manual retry gives the member's record a new generation. -/
theorem World.Inv.moved_retryMember (h : w.Inv) (modelId : String) :
    Moved w { w with router := w.router.retryMember modelId } := by
  have hgeneration : saturatingAdd w.router.generation 1 = w.router.generation + 1 :=
    saturatingAdd_one h.generation_lt
  refine ⟨(Nat.le_succ _).trans hgeneration.ge, .inl rfl,
    fun _ active' hactive' => .inl ⟨active', hactive', rfl, rfl⟩, fun other => ?_⟩
  rw [retryMember, AssocMap.lookup_modify]
  split
  · rename_i hother
    rw [hother]
    cases hhealth : w.router.health.lookup modelId with
    | none => exact .inl rfl
    | some health =>
      refine .inr ⟨_, rfl, le_rfl, fun old hold => ?_⟩
      have hle := h.health_le modelId old (hhealth ▸ hold)
      exact (Nat.lt_succ_of_le hle).trans_le hgeneration.ge
  · exact .inl rfl

/-- **What one operation can do**, from a state with the invariant. -/
theorem World.Inv.moved_of_step (h : w.Inv) {call : Operation × Answer} (hstep : Step w call w') :
    Moved w w' := by
  by_cases hresult : call.1.result?.isSome
  · obtain ⟨r, hr⟩ := Option.isSome_iff_exists.mp hresult
    rcases result_cases hstep hr with ⟨-, rfl, -⟩ | ⟨-, hissued, hsettles⟩
    · exact .refl _
    · refine h.moved_of_settles (hstep.1 r ?_) hissued hsettles
      obtain ⟨operation, answer⟩ := call
      cases operation <;> first | cases hr; done | exact hr
  · obtain ⟨operation, answer⟩ := call
    obtain ⟨-, hperform, -⟩ := hstep
    obtain rfl : (w.perform operation).2 = w' := congrArg Prod.snd hperform
    cases operation with
    | reserve sessionId poolId strategy candidates excluded nowMs leaseMs =>
      exact h.moved_reserve sessionId poolId strategy candidates excluded nowMs leaseMs
    | renew r nowMs leaseMs => exact moved_renew r nowMs leaseMs
    | cancel r => exact moved_cancel r
    | retryMember modelId => exact h.moved_retryMember modelId
    | clearSession sessionId =>
      exact .quiet le_rfl rfl rfl (table_of_erase w.router.reservations sessionId)
    | releaseSessionReservation sessionId =>
      exact .quiet le_rfl rfl rfl (table_of_erase w.router.reservations sessionId)
    | restoreBinding sessionId binding =>
      exact .quiet (le_max_left _ _) rfl rfl fun _ active' hactive' =>
        ⟨active', hactive', rfl, rfl⟩
    | accept => exact absurd rfl hresult
    | fail => exact absurd rfl hresult
    | configurationFailed => exact absurd rfl hresult

theorem World.Inv.step (h : w.Inv) {call : Operation × Answer} (hstep : Step w call w') :
    w'.Inv :=
  h.moved (h.moved_of_step hstep) hstep.2.2

variable {tr : List (Operation × Answer)}

/-- **The invariant holds in every state of a run.** -/
theorem World.Inv.run (h : w.Inv) (hrun : Run Step w tr w') : w'.Inv :=
  hrun.invariant h fun _ _ _ hinv hstep => hinv.step hstep

/-! ## Later states -/

/-- What was handed out stays handed out. -/
theorem World.Inv.issued_mono (h : w.Inv) (hrun : Run Step w tr w') (hr : r ∈ w.issued) :
    r ∈ w'.issued := by
  induction hrun with
  | refl => exact hr
  | step hrun hstep ih =>
    rcases ((h.run hrun).moved_of_step hstep).issued with heq | ⟨new, heq, -⟩
    · exact heq ▸ ih
    · exact heq ▸ mem_append_left _ ih

/-- A reservation that is not live any more stays so. -/
theorem World.Inv.not_live_run (h : w.Inv) (hrun : Run Step w tr w') (hr : r ∈ w.issued)
    (hlive : ¬w.Live r) : ¬w'.Live r := by
  induction hrun with
  | refl => exact hlive
  | step hrun hstep ih =>
    have hinv := h.run hrun
    exact hinv.not_live_moved (hinv.moved_of_step hstep) (h.issued_mono hrun hr) ih

/-- The generation of a record never decreases. -/
theorem World.Inv.health_mono (h : w.Inv) (hrun : Run Step w tr w') {health : Health}
    (hhealth : w.router.health.lookup modelId = some health) :
    ∃ health', w'.router.health.lookup modelId = some health' ∧
      health.generation ≤ health'.generation := by
  induction hrun with
  | refl => exact ⟨health, hhealth, le_rfl⟩
  | step hrun hstep ih =>
    obtain ⟨health', hhealth', hle⟩ := ih
    rcases ((h.run hrun).moved_of_step hstep).health modelId with heq |
      ⟨health'', hhealth'', -, hlt⟩
    · exact ⟨health', heq ▸ hhealth', hle⟩
    · exact ⟨health'', hhealth'', hle.trans (hlt health' hhealth').le⟩

/-! ## The fence -/

/-- The result of a reservation that is not live does nothing. -/
theorem World.Inv.stale_result (h : w.Inv) {call : Operation × Answer} (hstep : Step w call w')
    (hresult : r ∈ call.1.result?) (hr : r ∈ w.issued) (hlive : ¬w.Live r) :
    w' = w ∧ (call.2 = .settled false ∨ call = (.configurationFailed r, .done)) := by
  rcases result_cases hstep hresult with ⟨-, heq, hanswer⟩ | ⟨hreleased, -⟩
  · exact ⟨heq, hanswer⟩
  · exact absurd ((h.released_iff_live hr).mp hreleased) hlive

/-- A result is recorded for its own model, and where no record is as new. -/
theorem health_of_result {call : Operation × Answer} (hstep : Step w call w')
    (hresult : r ∈ call.1.result?)
    (hnewer : modelId = r.binding.modelId → ∃ health,
      w.router.health.lookup modelId = some health ∧ r.binding.generation ≤ health.generation) :
    w'.router.health.lookup modelId = w.router.health.lookup modelId := by
  rcases result_cases hstep hresult with ⟨-, heq, -⟩ | ⟨-, -, hsettles⟩
  · rw [heq]
  · rcases hsettles.health with heq | ⟨holder, health', -, heq⟩
    · rw [heq]
    · rw [heq, AssocMap.lookup_insert]
      split
      · rename_i hmodel
        obtain ⟨health, hhealth, hle⟩ := hnewer hmodel
        exact absurd (holder health (hmodel ▸ hhealth)) (by omega)
      · rfl

/-- A live reservation's failure is recorded where there is no record. -/
theorem ModelPoolRouter.fail_records {s : ModelPoolRouter} {error : AiProviderError}
    {status : ModelPoolHealthStatus} {nowMs retryDelayMs : ℕ} (hreleased : s.released r = true)
    (hnone : s.health.lookup r.binding.modelId = none)
    (hstatus : failureStatus error.category = .inl status) :
    (s.fail r error nowMs retryDelayMs).2.health.lookup r.binding.modelId ≠ none := by
  rw [fail, release_eq, hreleased, hstatus]
  have hnewer : hasNewerHealth { s with reservations := s.reservations.erase r.sessionId } r =
      false := by
    rw [hasNewerHealth, hnone, Option.any_none]
  simp only [if_true, hnewer, Bool.false_eq_true, if_false]
  rw [AList.lookup_insert]
  exact Option.some_ne_none _

/-- After a manual retry of a member, no result of an attempt that was reserved before it changes
the member's record. -/
def NeverUndone (w w' : World) (modelId : String) : Prop :=
  ∀ tr w₁ call w₂, Run Step w' tr w₁ → Step w₁ call w₂ →
    ∀ r ∈ call.1.result?, r ∈ w.issued →
      w₂.router.health.lookup modelId = w₁.router.health.lookup modelId

/-- There is a record to retry, or no attempt that could still leave one. -/
def World.Retryable (w : World) (modelId : String) : Prop :=
  (w.router.health.lookup modelId).isSome ∨
    ∀ r ∈ w.issued, w.Live r → r.binding.modelId ≠ modelId

/-- The reservations and the table are as before a manual retry. -/
theorem live_retryMember {answer : Answer} (hstep : Step w (.retryMember modelId, answer) w') :
    w'.Live r ↔ w.Live r := by
  obtain ⟨-, hperform, -⟩ := hstep
  cases hperform
  exact Iff.rfl

/-- **A manual retry is never undone exactly where it has something to fence off with**, or where
there is nothing to fence off. -/
theorem World.Inv.neverUndone_iff (h : w.Inv) {answer : Answer}
    (hstep : Step w (.retryMember modelId, answer) w') :
    NeverUndone w w' modelId ↔ w.Retryable modelId := by
  have hinv' := h.step hstep
  have hissued' : w'.issued = w.issued := by
    obtain ⟨-, hperform, -⟩ := hstep
    cases hperform
    rfl
  have hhealth' : w'.router.health = (w.router.retryMember modelId).health := by
    obtain ⟨-, hperform, -⟩ := hstep
    cases hperform
    rfl
  refine ⟨fun hnever => ?_, fun hretryable tr w₁ call w₂ hrun hcall r hresult hr => ?_⟩
  · by_contra hnot
    rw [World.Retryable, not_or, Bool.not_eq_true, Option.isSome_eq_false_iff,
      Option.isNone_iff_eq_none] at hnot
    obtain ⟨hnone, hlive⟩ := hnot
    push Not at hlive
    obtain ⟨r, hr, hlive, rfl⟩ := hlive
    have hnone' : w'.router.health.lookup r.binding.modelId = none := by
      rw [hhealth', retryMember, AssocMap.lookup_modify, if_pos rfl, hnone, Option.map_none]
    have hreleased : w'.router.released r = true :=
      (hinv'.released_iff_live (hissued' ▸ hr)).mpr ((live_retryMember hstep).mpr hlive)
    -- the attempt fails after the retry
    have hgeneration : (w'.router.fail r ⟨.auth, none⟩ 0 0).2.generation < u64Max := by
      rcases fail_cases w'.router r ⟨.auth, none⟩ 0 0 with ⟨-, heq⟩ | ⟨-, hsettles⟩
      · rw [heq]
        exact hinv'.generation_lt
      · rw [hsettles.generation]
        exact hinv'.generation_lt
    have hfail : Step w' (.fail r ⟨.auth, none⟩ 0 0,
        .settled (w'.router.fail r ⟨.auth, none⟩ 0 0).1)
        { w' with router := (w'.router.fail r ⟨.auth, none⟩ 0 0).2 } := by
      refine ⟨fun _ hr' => ?_, rfl, hgeneration⟩
      cases hr'
      exact hissued' ▸ hr
    have hsame := hnever [] w' _ _ .refl hfail r rfl hr
    exact fail_records hreleased hnone' rfl (hsame.trans hnone')
  · have hr₁ : r ∈ w₁.issued := hinv'.issued_mono hrun (hissued' ▸ hr)
    rcases hretryable with hsome | hdead
    · -- the record has a newer generation from the retry on
      apply health_of_result hcall hresult
      intro _
      obtain ⟨health, hhealth⟩ := Option.isSome_iff_exists.mp hsome
      have hretried : w'.router.health.lookup modelId =
          some { health with
            generation := saturatingAdd w.router.generation 1
            status := .unverified
            reason := none
            retryAtMs := none } := by
        rw [hhealth', retryMember, AssocMap.lookup_modify, if_pos rfl, hhealth, Option.map_some]
      obtain ⟨health₁, hhealth₁, hle⟩ := hinv'.health_mono hrun hretried
      refine ⟨health₁, hhealth₁, ?_⟩
      have hissued_le := h.issued_le r hr
      have hnew : saturatingAdd w.router.generation 1 = w.router.generation + 1 :=
        saturatingAdd_one h.generation_lt
      simp only [hnew] at hle
      omega
    · by_cases hmodel : modelId = r.binding.modelId
      · -- the attempt was over before the retry
        have hlive : ¬w'.Live r := fun hlive =>
          hdead r hr ((live_retryMember hstep).mp hlive) hmodel.symm
        have hlive₁ := hinv'.not_live_run hrun (hissued' ▸ hr) hlive
        rw [((hinv'.run hrun).stale_result hcall hresult hr₁ hlive₁).1]
      · exact health_of_result hcall hresult fun hmodel' => absurd hmodel' hmodel

/-- What the fence guarantees in a state. -/
structure World.Fenced (w : World) : Prop where
  /-- a session has at most one live reservation -/
  live_unique : ∀ r ∈ w.issued, ∀ r' ∈ w.issued, w.Live r → w.Live r' →
    r.sessionId = r'.sessionId → r = r'
  /-- a reservation that is not live any more stays so -/
  stale_for_good : ∀ tr w', Run Step w tr w' → ∀ r ∈ w.issued, ¬w.Live r → ¬w'.Live r
  /-- its result changes nothing, and is answered by `false` where there is an answer -/
  stale : ∀ call w', Step w call w' → ∀ r ∈ call.1.result?, ¬w.Live r →
    w'.router.bindings = w.router.bindings ∧ w'.router.health = w.router.health ∧
      (call.2 = .settled false ∨ call = (.configurationFailed r, .done))
  /-- the generation of a record never decreases -/
  health_mono : ∀ tr w', Run Step w tr w' → ∀ modelId health,
    w.router.health.lookup modelId = some health →
    ∃ health', w'.router.health.lookup modelId = some health' ∧
      health.generation ≤ health'.generation
  /-- a result replaces no record of its generation or a later one -/
  evidence : ∀ call w', Step w call w' → ∀ r ∈ call.1.result?, ∀ modelId health,
    w.router.health.lookup modelId = some health → r.binding.generation ≤ health.generation →
    w'.router.health.lookup modelId = some health
  /-- a manual retry is never undone by an earlier attempt, exactly if there is a record to
  retry, or no live attempt with the member -/
  retry : ∀ modelId answer w', Step w (.retryMember modelId, answer) w' →
    (NeverUndone w w' modelId ↔ w.Retryable modelId)

theorem Operation.reservation?_of_result? {operation : Operation} (h : r ∈ operation.result?) :
    r ∈ operation.reservation? := by
  cases operation <;> first | exact h | cases h

/-- **Stale attempts are fenced off** in every state of every run. -/
theorem stale_attempts_fenced {w₀ w : World} {tr : List (Operation × Answer)} (hstart : Start w₀)
    (hrun : Run Step w₀ tr w) : w.Fenced := by
  have h := hstart.inv.run hrun
  refine ⟨fun r hr r' hr' hlive hlive' hsession => ?_, fun tr w' hrun r hr => h.not_live_run hrun hr,
    fun call w' hstep r hresult hlive => ?_, fun tr w' hrun modelId health => h.health_mono hrun,
    fun call w' hstep r hresult modelId health hhealth hle => ?_,
    fun modelId answer w' hstep => h.neverUndone_iff hstep⟩
  · obtain ⟨active, hactive, hbinding⟩ := hlive
    obtain ⟨active', hactive', hbinding'⟩ := hlive'
    rw [hsession, hactive', Option.some_inj] at hactive
    apply h.eq_of_generation hr hr'
    rw [← hbinding, ← hbinding', hactive]
  · have hissued := hstep.1 r (Operation.reservation?_of_result? hresult)
    obtain ⟨rfl, hanswer⟩ := h.stale_result hstep hresult hissued hlive
    exact ⟨rfl, rfl, hanswer⟩
  · rw [health_of_result hstep hresult fun _ => ⟨health, hhealth, hle⟩]
    exact hhealth

/-! ## Scripts -/

/-- The world of a new router. -/
def World.new : World := ⟨.new, []⟩

theorem start_new : Start .new where
  issued := rfl
  reservations := fun _ => rfl
  health_le := by
    intro modelId health hhealth
    cases hhealth
  generation_lt := by decide

/-- Performs operations one after the other. -/
def World.performAll (w : World) : List Operation → List (Operation × Answer) × World
  | [] => ([], w)
  | operation :: operations =>
    let outcome := w.perform operation
    let rest := outcome.2.performAll operations
    ((operation, outcome.1) :: rest.1, rest.2)

/-- The test whether operations can be performed one after the other. -/
def World.admits (w : World) : List Operation → Bool
  | [] => true
  | operation :: operations =>
    operation.reservation?.all (w.issued.contains ·) &&
      (w.perform operation).2.router.generation < u64Max &&
      (w.perform operation).2.admits operations

theorem run_performAll {script : List Operation} (h : w.admits script = true) :
    Run Step w (w.performAll script).1 (w.performAll script).2 := by
  induction script generalizing w with
  | nil => exact .refl
  | cons operation script ih =>
    rw [World.admits, Bool.and_eq_true, Bool.and_eq_true, decide_eq_true_eq] at h
    obtain ⟨⟨hissued, hlt⟩, hrest⟩ := h
    refine (ih hrest).cons ⟨fun r hr => ?_, rfl, hlt⟩
    have hcontains := (Option.all_eq_true _ _).mp hissued r hr
    rwa [contains_iff_mem] at hcontains

/-- A pool with one member. -/
def soleCandidate : Candidate := ⟨"model", "v1", true⟩

/-- Reserves the member for the session. -/
def reserveSole (sessionId : String) : Operation :=
  .reserve sessionId "pool" .ordered [soleCandidate] [] 0 100

/-- The first reservation of the member. -/
def firstReservation : Reservation := ⟨"session", ⟨"pool", "model", "v1", 1⟩, 100⟩

/-- A member without a record is retried while an attempt with it is running, and the attempt's
failure disables the member. -/
theorem retry_undone :
    let w := (World.new.performAll [reserveSole "session"]).2
    let w' := (w.perform (.retryMember "model")).2
    let w₂ := (w'.perform (.fail firstReservation ⟨.auth, none⟩ 0 0)).2
    Run Step .new (World.new.performAll [reserveSole "session"]).1 w ∧
    Step w (.retryMember "model", .done) w' ∧
    Step w' (.fail firstReservation ⟨.auth, none⟩ 0 0, .settled true) w₂ ∧
    firstReservation ∈ w.issued ∧
    w'.router.ready soleCandidate 0 = true ∧ w₂.router.ready soleCandidate 0 = false := by
  refine ⟨run_performAll (by decide +kernel), ⟨nofun, rfl, by decide +kernel⟩,
    ⟨?_, rfl, by decide +kernel⟩, by decide +kernel, by decide +kernel, by decide +kernel⟩
  intro r hr
  cases hr
  decide +kernel

/-- A run in which the member has a record when it is retried. -/
theorem stale_attempts_fenced_after_failure :
    (World.new.performAll [reserveSole "session", .fail firstReservation ⟨.auth, none⟩ 0 0,
      .retryMember "model", reserveSole "other"]).2.Fenced :=
  stale_attempts_fenced start_new (run_performAll (by decide +kernel))

end ModelPool

end OpenBitFun
