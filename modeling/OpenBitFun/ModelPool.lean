import OpenBitFun.AssocMap
import OpenBitFun.Run

/-!
# The model pool router

The router that gives the model requests of sessions to the members of a pool
(`model_pool.rs`). A session reserves a member for one attempt; the attempt's result is accepted or
recorded as a failure of the member, if the reservation is still the session's. Reservations and
health records carry a generation, and a result is only evidence about a member where no later
record is stored.

Generations and times are `u64`: additions saturate.
-/

namespace OpenBitFun

namespace ModelPool

/-- `u64::MAX`. -/
def u64Max : ℕ := 2 ^ 64 - 1

/-- `u64::saturating_add`. -/
def saturatingAdd (a b : ℕ) : ℕ := min (a + b) u64Max

theorem saturatingAdd_one {a : ℕ} (h : a < u64Max) : saturatingAdd a 1 = a + 1 :=
  min_eq_left h

/-! ## Data -/

/-- `ModelPoolStrategy`. -/
inductive ModelPoolStrategy where
  | ordered
  | balanced
  | unsupported
  deriving DecidableEq, Repr

/-- `ModelPoolHealthStatus`. -/
inductive ModelPoolHealthStatus where
  | unverified
  | available
  | coolingDown
  | probing
  | needsAttention
  | disabled
  | missing
  deriving DecidableEq, Repr

/-- `ErrorCategory`. -/
inductive ErrorCategory where
  | network
  | auth
  | rateLimit
  | contextOverflow
  | timeout
  | providerQuota
  | providerBilling
  | providerUnavailable
  | permission
  | invalidRequest
  | contentPolicy
  | modelError
  | unknown
  deriving DecidableEq, Repr

/-- The name of a category as it is serialized. -/
def ErrorCategory.name : ErrorCategory → String
  | .network => "network"
  | .auth => "auth"
  | .rateLimit => "rate_limit"
  | .contextOverflow => "context_overflow"
  | .timeout => "timeout"
  | .providerQuota => "provider_quota"
  | .providerBilling => "provider_billing"
  | .providerUnavailable => "provider_unavailable"
  | .permission => "permission"
  | .invalidRequest => "invalid_request"
  | .contentPolicy => "content_policy"
  | .modelError => "model_error"
  | .unknown => "unknown"

/-- `AiProviderError`, as far as the router reads it. -/
structure AiProviderError where
  category : ErrorCategory
  retryAfterMs : Option ℕ
  deriving DecidableEq, Repr

/-- `Candidate`. -/
structure Candidate where
  modelId : String
  fingerprint : String
  eligible : Bool
  deriving DecidableEq, Repr

/-- `Health`. -/
structure Health where
  generation : ℕ
  fingerprint : String
  status : ModelPoolHealthStatus
  reason : Option String
  retryAtMs : Option ℕ
  deriving DecidableEq, Repr

/-- `Cursor`. -/
structure Cursor where
  nextId : String
  order : List String
  deriving DecidableEq, Repr

/-- `ModelPoolBinding`. -/
structure ModelPoolBinding where
  poolId : String
  modelId : String
  configurationFingerprint : String
  generation : ℕ
  deriving DecidableEq, Repr

/-- `Reservation`. -/
structure Reservation where
  sessionId : String
  binding : ModelPoolBinding
  expiresAtMs : ℕ
  deriving DecidableEq, Repr

/-- `SelectionError`. -/
inductive SelectionError where
  | unsupportedStrategy
  | requestInProgress
  | unavailable (retryAtMs : Option ℕ)
  deriving DecidableEq, Repr

/-- `ModelPoolMemberStatus`; the context budget is filled in elsewhere. -/
structure ModelPoolMemberStatus where
  modelId : String
  status : ModelPoolHealthStatus
  reason : Option String
  retryAtMs : Option ℕ
  deriving DecidableEq, Repr

/-- `ModelPoolRouter`. -/
structure ModelPoolRouter where
  bindings : AssocMap String ModelPoolBinding
  health : AssocMap String Health
  cursors : AssocMap String Cursor
  generation : ℕ
  reservations : AssocMap String Reservation

namespace ModelPoolRouter

/-- `ModelPoolRouter::default`. -/
def new : ModelPoolRouter := ⟨∅, ∅, ∅, 0, ∅⟩

/-! ## Selections by hand -/

/-- `release_session_reservation`. -/
def releaseSessionReservation (s : ModelPoolRouter) (sessionId : String) : ModelPoolRouter :=
  { s with reservations := s.reservations.erase sessionId }

/-- `retry_member`. -/
def retryMember (s : ModelPoolRouter) (modelId : String) : ModelPoolRouter :=
  let generation := saturatingAdd s.generation 1
  { s with
    generation := generation
    health := s.health.modify modelId fun health =>
      { health with
        generation := generation
        status := .unverified
        reason := none
        retryAtMs := none } }

/-- `restore_binding`. -/
def restoreBinding (s : ModelPoolRouter) (sessionId : String) (binding : ModelPoolBinding) :
    ModelPoolRouter :=
  { s with
    generation := max s.generation binding.generation
    bindings := match s.bindings.lookup sessionId with
      | some existing =>
        if binding.generation > existing.generation then s.bindings.insert sessionId binding
        else s.bindings
      | none => s.bindings.insert sessionId binding }

/-- `clear_session`. -/
def clearSession (s : ModelPoolRouter) (sessionId : String) : ModelPoolRouter :=
  { s with
    bindings := s.bindings.erase sessionId
    reservations := s.reservations.erase sessionId }

/-! ## Readiness -/

/-- The health of a candidate's model, if it was recorded for the candidate's configuration. -/
def healthOf (s : ModelPoolRouter) (candidate : Candidate) : Option Health :=
  (s.health.lookup candidate.modelId).filter (·.fingerprint == candidate.fingerprint)

/-- The test whether some session holds an unexpired reservation of the candidate. -/
def isProbing (s : ModelPoolRouter) (candidate : Candidate) (nowMs : ℕ) : Bool :=
  s.reservations.iter.any fun (_, reservation) =>
    reservation.expiresAtMs > nowMs && reservation.binding.modelId == candidate.modelId &&
      reservation.binding.configurationFingerprint == candidate.fingerprint

/-- `member_status`. -/
def memberStatus (s : ModelPoolRouter) (candidate : Candidate) (nowMs : ℕ) :
    ModelPoolMemberStatus :=
  match s.healthOf candidate with
  | some health =>
    let status :=
      if health.status = .coolingDown && health.retryAtMs.any (· ≤ nowMs) &&
          s.isProbing candidate nowMs then .probing
      else health.status
    ⟨candidate.modelId, status, health.reason, health.retryAtMs⟩
  | none => ⟨candidate.modelId, .unverified, none, none⟩

/-- `ready`. -/
def ready (s : ModelPoolRouter) (candidate : Candidate) (nowMs : ℕ) : Bool :=
  if !candidate.eligible then false
  else match s.healthOf candidate with
    | none => true
    | some health =>
      match health.status with
      | .needsAttention => false
      | .coolingDown => health.retryAtMs.any (· ≤ nowMs) && !s.isProbing candidate nowMs
      | _ => true

/-- `has_available_alternative`. -/
def hasAvailableAlternative (s : ModelPoolRouter) (currentModelId : String)
    (candidates : List Candidate) (excluded : List String) (nowMs : ℕ) : Bool :=
  candidates.any fun candidate =>
    candidate.modelId != currentModelId && !excluded.contains candidate.modelId &&
      s.ready candidate nowMs

/-! ## Reserving -/

/-- The closure `ready` of `reserve`. -/
def selectable (s : ModelPoolRouter) (excluded : List String) (nowMs : ℕ)
    (candidate : Candidate) : Bool :=
  !excluded.contains candidate.modelId && s.ready candidate nowMs

/-- The candidate a session is bound to, if it can be selected. -/
def sticky (s : ModelPoolRouter) (sessionId poolId : String) (candidates : List Candidate)
    (excluded : List String) (nowMs : ℕ) : Option Candidate :=
  ((s.bindings.lookup sessionId).filter (·.poolId == poolId)).bind fun binding =>
    (candidates.filter (s.selectable excluded nowMs)).find? fun candidate =>
      candidate.modelId == binding.modelId &&
        candidate.fingerprint == binding.configurationFingerprint

/-- The position of a model among the candidates. -/
def position (candidates : List Candidate) (modelId : String) : Option ℕ :=
  candidates.findIdx? (·.modelId == modelId)

/-- The position the cursor of a pool stands at: that of its next member, or else of the first
member after it in the old order that is still there. -/
def cursorStart (candidates : List Candidate) (cursor : Cursor) : Option ℕ :=
  (position candidates cursor.nextId).orElse fun _ =>
    let oldStart := (cursor.order.idxOf? cursor.nextId).getD 0
    (cursor.order.rotate oldStart).findSome? (position candidates)

/-- The position the search for a member starts at. -/
def start (s : ModelPoolRouter) (poolId : String) (strategy : ModelPoolStrategy)
    (candidates : List Candidate) : ℕ :=
  if strategy = .balanced then ((s.cursors.lookup poolId).bind (cursorStart candidates)).getD 0
  else 0

/-- The selected candidate: the bound one, or else the first from the start position on. -/
def select (s : ModelPoolRouter) (sessionId poolId : String) (strategy : ModelPoolStrategy)
    (candidates : List Candidate) (excluded : List String) (nowMs : ℕ) : Option Candidate :=
  (s.sticky sessionId poolId candidates excluded nowMs).orElse fun _ =>
    (candidates.rotate (s.start poolId strategy candidates)).find? (s.selectable excluded nowMs)

/-- The earliest time a cooling candidate may be tried again. -/
def retryHint (s : ModelPoolRouter) (candidates : List Candidate) (nowMs : ℕ) : Option ℕ :=
  (((candidates.filter (·.eligible)).filterMap fun candidate =>
    (s.healthOf candidate).bind (·.retryAtMs)).filter (· > nowMs)).min?

/-- The cursor behind a selected model. -/
def cursorAfter (candidates : List Candidate) (modelId : String) : Cursor :=
  let selectedIndex := (position candidates modelId).getD 0
  { nextId := ((candidates[(selectedIndex + 1) % candidates.length]?).map (·.modelId)).getD ""
    order := candidates.map (·.modelId) }

/-- The first lines of `reserve`: expired reservations are dropped. -/
def dropExpired (s : ModelPoolRouter) (nowMs : ℕ) : ModelPoolRouter :=
  { s with reservations := s.reservations.retain (·.expiresAtMs > nowMs) }

/-- The reservation `reserve` hands out. -/
def reservationOf (s : ModelPoolRouter) (sessionId poolId : String) (selected : Candidate)
    (nowMs leaseMs : ℕ) : Reservation where
  sessionId := sessionId
  binding :=
    { poolId := poolId
      modelId := selected.modelId
      configurationFingerprint := selected.fingerprint
      generation := saturatingAdd s.generation 1 }
  expiresAtMs := saturatingAdd nowMs (max leaseMs 1)

/-- The cursors after a selection: a balanced one moves the pool's, unless the session was bound. -/
def cursorsAfter (s : ModelPoolRouter) (sessionId poolId : String) (strategy : ModelPoolStrategy)
    (candidates : List Candidate) (excluded : List String) (nowMs : ℕ) (selected : Candidate) :
    AssocMap String Cursor :=
  if (s.sticky sessionId poolId candidates excluded nowMs).isNone && strategy = .balanced
  then s.cursors.insert poolId (cursorAfter candidates selected.modelId)
  else s.cursors

/-- `reserve`, with the state it leaves. -/
def reserve (s : ModelPoolRouter) (sessionId poolId : String) (strategy : ModelPoolStrategy)
    (candidates : List Candidate) (excluded : List String) (nowMs leaseMs : ℕ) :
    Except SelectionError Reservation × ModelPoolRouter :=
  let s := s.dropExpired nowMs
  if strategy = .unsupported then (.error .unsupportedStrategy, s)
  else if (s.reservations.lookup sessionId).isSome then (.error .requestInProgress, s)
  else match s.select sessionId poolId strategy candidates excluded nowMs with
    | none => (.error (.unavailable (s.retryHint candidates nowMs)), s)
    | some selected =>
      let reservation := s.reservationOf sessionId poolId selected nowMs leaseMs
      (.ok reservation,
        { s with
          cursors := s.cursorsAfter sessionId poolId strategy candidates excluded nowMs selected
          generation := saturatingAdd s.generation 1
          reservations := s.reservations.insert sessionId reservation })

/-- The outcomes of `reserve`, from the state without the expired reservations. -/
inductive ReserveOutcome (s : ModelPoolRouter) (sessionId poolId : String)
    (strategy : ModelPoolStrategy) (candidates : List Candidate) (excluded : List String)
    (nowMs leaseMs : ℕ) : Except SelectionError Reservation × ModelPoolRouter → Prop
  /-- the strategy is not known -/
  | unsupported (hstrategy : strategy = .unsupported) :
    ReserveOutcome s sessionId poolId strategy candidates excluded nowMs leaseMs
      (.error .unsupportedStrategy, s)
  /-- the session has a reservation -/
  | inProgress (hstrategy : strategy ≠ .unsupported)
      (hactive : (s.reservations.lookup sessionId).isSome) :
    ReserveOutcome s sessionId poolId strategy candidates excluded nowMs leaseMs
      (.error .requestInProgress, s)
  /-- no candidate can be selected -/
  | unavailable (hstrategy : strategy ≠ .unsupported)
      (hactive : s.reservations.lookup sessionId = none)
      (hselect : s.select sessionId poolId strategy candidates excluded nowMs = none) :
    ReserveOutcome s sessionId poolId strategy candidates excluded nowMs leaseMs
      (.error (.unavailable (s.retryHint candidates nowMs)), s)
  /-- a candidate is selected -/
  | reserved (selected : Candidate) (hstrategy : strategy ≠ .unsupported)
      (hactive : s.reservations.lookup sessionId = none)
      (hselect : s.select sessionId poolId strategy candidates excluded nowMs = some selected) :
    ReserveOutcome s sessionId poolId strategy candidates excluded nowMs leaseMs
      (.ok (s.reservationOf sessionId poolId selected nowMs leaseMs),
        { s with
          cursors := s.cursorsAfter sessionId poolId strategy candidates excluded nowMs selected
          generation := saturatingAdd s.generation 1
          reservations := s.reservations.insert sessionId
            (s.reservationOf sessionId poolId selected nowMs leaseMs) })

theorem reserve_outcome (s : ModelPoolRouter) (sessionId poolId : String)
    (strategy : ModelPoolStrategy) (candidates : List Candidate) (excluded : List String)
    (nowMs leaseMs : ℕ) :
    ReserveOutcome (s.dropExpired nowMs) sessionId poolId strategy candidates excluded nowMs leaseMs
      (s.reserve sessionId poolId strategy candidates excluded nowMs leaseMs) := by
  rw [reserve]
  split_ifs with hstrategy hactive
  · exact .unsupported hstrategy
  · exact .inProgress hstrategy hactive
  · rw [Bool.not_eq_true, Option.isSome_eq_false_iff, Option.isNone_iff_eq_none] at hactive
    cases hselect : (s.dropExpired nowMs).select sessionId poolId strategy candidates excluded
      nowMs with
    | none => exact .unavailable hstrategy hactive hselect
    | some selected => exact .reserved selected hstrategy hactive hselect

/-! ## Results of attempts -/

/-- `release`. -/
def release (s : ModelPoolRouter) (reservation : Reservation) : Bool × ModelPoolRouter :=
  if (s.reservations.lookup reservation.sessionId).any fun active =>
      active.binding.generation == reservation.binding.generation then
    (true, { s with reservations := s.reservations.erase reservation.sessionId })
  else (false, s)

/-- `renew`. -/
def renew (s : ModelPoolRouter) (reservation : Reservation) (nowMs leaseMs : ℕ) :
    ModelPoolRouter :=
  match s.reservations.lookup reservation.sessionId with
  | some active =>
    if active.binding.generation == reservation.binding.generation then
      { s with
        reservations := s.reservations.insert reservation.sessionId
          { active with expiresAtMs := saturatingAdd nowMs (max leaseMs 1) } }
    else s
  | none => s

/-- `cancel`. -/
def cancel (s : ModelPoolRouter) (reservation : Reservation) : ModelPoolRouter :=
  (s.release reservation).2

/-- The test whether a record at least as new as a reservation is stored for its model. -/
def hasNewerHealth (s : ModelPoolRouter) (reservation : Reservation) : Bool :=
  (s.health.lookup reservation.binding.modelId).any fun health =>
    health.generation ≥ reservation.binding.generation

/-- The health a reservation gives evidence of. -/
def evidence (reservation : Reservation) (status : ModelPoolHealthStatus)
    (reason : Option String) (retryAtMs : Option ℕ) : Health :=
  { generation := reservation.binding.generation
    fingerprint := reservation.binding.configurationFingerprint
    status := status
    reason := reason
    retryAtMs := retryAtMs }

/-- `accept`. -/
def accept (s : ModelPoolRouter) (reservation : Reservation) : Bool × ModelPoolRouter :=
  match s.release reservation with
  | (false, s) => (false, s)
  | (true, s) =>
    let isCurrent := !(s.hasNewerHealth reservation)
    let health :=
      if isCurrent then
        s.health.insert reservation.binding.modelId (evidence reservation .available none none)
      else s.health
    (true,
      { s with
        health := health
        bindings := s.bindings.insert reservation.sessionId reservation.binding })

/-- `configuration_failed`. -/
def configurationFailed (s : ModelPoolRouter) (reservation : Reservation) : ModelPoolRouter :=
  match s.release reservation with
  | (false, s) => s
  | (true, s) =>
    if s.hasNewerHealth reservation then s
    else
      { s with
        health := s.health.insert reservation.binding.modelId
          (evidence reservation .needsAttention (some "configuration") none) }

/-- The status a failure gives evidence of, or else the answer of `fail`. -/
def failureStatus : ErrorCategory → ModelPoolHealthStatus ⊕ Bool
  | .auth | .permission | .providerBilling => .inl .needsAttention
  | .network | .timeout | .rateLimit | .providerQuota | .providerUnavailable => .inl .coolingDown
  | .modelError | .unknown => .inr true
  | .contextOverflow | .invalidRequest | .contentPolicy => .inr false

/-- `fail`. -/
def fail (s : ModelPoolRouter) (reservation : Reservation) (error : AiProviderError)
    (nowMs retryDelayMs : ℕ) : Bool × ModelPoolRouter :=
  match s.release reservation with
  | (false, s) => (false, s)
  | (true, s) =>
    match failureStatus error.category with
    | .inr answer => (answer, s)
    | .inl status =>
      if s.hasNewerHealth reservation then (true, s)
      else
        let retryAtMs :=
          if status = .coolingDown then
            some (saturatingAdd nowMs (max (error.retryAfterMs.getD retryDelayMs) 1))
          else none
        (true,
          { s with
            health := s.health.insert reservation.binding.modelId
              (evidence reservation status (some error.category.name) retryAtMs) })

end ModelPoolRouter

end ModelPool

end OpenBitFun
