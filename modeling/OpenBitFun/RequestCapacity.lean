import Mathlib

/-!
# The request capacity of a provider scope

Requests to a provider run in parallel until the provider rejects one for concurrency. From then on
a window limits the number of open requests: a rejection halves it, and enough successful responses
enlarge it by one. `acquire` calls queue up; the first of them checks the window, and sleeps until
something changes. The counters and the generation are natural numbers: a permit holds a reference
to its scope, and references run out before counters do.
-/

namespace OpenBitFun

namespace RequestCapacity

/-- `IDLE_SCOPE_RETENTION`, in nanoseconds. -/
def IDLE_SCOPE_RETENTION : ℕ := 300000000000

/-- `SUCCESS_WINDOWS_TO_GROW`. -/
def SUCCESS_WINDOWS_TO_GROW : ℕ := 2

/-- `State`. -/
structure State where
  /-- The requests that hold a permit. -/
  active : ℕ
  /-- The window, once a request was rejected. -/
  limit : Option ℕ
  /-- The successful responses on the way to the next enlargement. -/
  successes : ℕ
  /-- The window was full since it last changed. -/
  demandAtLimit : Bool
  /-- The generation of the requests admitted now. -/
  generation : ℕ
  /-- No request is admitted before. -/
  notBefore : ℕ
  /-- When the scope was last used. -/
  lastActivity : ℕ
  deriving DecidableEq, Repr

namespace State

variable (s : State)

/-- `RequestCapacity::new`. -/
def new (now : ℕ) : State := ⟨0, none, 0, false, 0, now, now⟩

/-- The scope was idle for long. -/
def idle (now : ℕ) : Bool :=
  s.active == 0 && decide (IDLE_SCOPE_RETENTION ≤ now - s.lastActivity)

/-- The first lines of the check in `acquire`: an idle scope forgets its window. -/
def forgetIdle (now : ℕ) : State :=
  if s.idle now then
    { s with limit := none, successes := 0, demandAtLimit := false, generation := s.generation + 1 }
  else s

/-- The window is full. -/
def full : Bool := s.limit.any (· ≤ s.active)

/-- The test of the check in `acquire`: a request may be admitted. -/
def admits (now : ℕ) : Bool := s.limit.all (s.active < ·) && decide (s.notBefore ≤ now)

/-- A request is admitted. -/
def grant (now : ℕ) : State :=
  let s := { s with active := s.active + 1 }
  { s with demandAtLimit := s.demandAtLimit || s.full, lastActivity := now }

/-- The deadline of the next check in `acquire`. -/
def deadline (now : ℕ) : Option ℕ := if now < s.notBefore then some s.notBefore else none

/-- `concurrency_rejected`. -/
def concurrencyRejected (generation delay now : ℕ) : State :=
  let s :=
    if generation = s.generation then
      { s with
        limit := some (s.limit.elim 1 fun limit => max (limit / 2) 1)
        successes := 0
        demandAtLimit := false
        generation := s.generation + 1 }
    else s
  { s with lastActivity := now, notBefore := max s.notBefore (now + delay) }

/-- `completed`: the new state, and whether the window has grown. -/
def completed (generation : ℕ) (successful : Bool) (now : ℕ) : State × Bool :=
  if generation ≠ s.generation then (s, false)
  else match s.limit with
  | none => (s, false)
  | some limit =>
    if !successful then ({ s with successes := 0 }, false)
    else if !s.demandAtLimit || decide (now < s.notBefore) then (s, false)
    else if limit * SUCCESS_WINDOWS_TO_GROW ≤ s.successes + 1 then
      ({ s with limit := some (limit + 1), successes := 0, demandAtLimit := false }, true)
    else ({ s with successes := s.successes + 1 }, false)

/-- The drop of a permit. -/
def release (now : ℕ) : State := { s with active := s.active - 1, lastActivity := now }

end State

/-! ## The calls around the state -/

/-- A permit or a completion: the `acquire` call it comes from, and its generation. -/
structure Request where
  /-- The call. -/
  id : ℕ
  /-- The generation it was admitted in. -/
  generation : ℕ
  deriving DecidableEq, Repr

/-- A `Notified` future. -/
inductive Notified where
  /-- It was not polled yet. -/
  | created
  /-- It waits for a notification. -/
  | registered
  /-- It has got one. -/
  | notified
  deriving DecidableEq, Repr

/-- Where the first `acquire` call is in its loop. -/
inductive Phase where
  /-- Before the check. -/
  | checking
  /-- After it, with the deadline and the notification it waits for. -/
  | waiting (deadline : Option ℕ) (changed : Notified)
  deriving DecidableEq, Repr

/-- A notification that is dropped with the future that has got it is passed on. -/
def Phase.passesOn : Phase → Bool
  | .waiting _ .notified => true
  | _ => false

/-- What has happened. -/
inductive Event where
  /-- A request was admitted; the window is full with it, or not. -/
  | admitted (request : Request) (full : Bool) (now : ℕ)
  /-- An idle scope has forgotten its window. -/
  | reset
  /-- A request was rejected; the window was reduced, or not. -/
  | rejected (request : Request) (reduced : Bool) (now delay : ℕ)
  /-- A response was completed, or dropped. -/
  | completed (request : Request) (successful : Bool)
  /-- The window has grown; the generation it has grown in. -/
  | grew (generation : ℕ)
  /-- A permit was dropped. -/
  | released (request : Request)
  deriving DecidableEq, Repr

/-- A scope, and the calls that use it. -/
structure World where
  /-- The state behind the lock. -/
  state : State
  /-- The time. -/
  clock : ℕ
  /-- The `acquire` calls that wait, in the order of their arrival; the first holds the queue. -/
  queue : List ℕ
  /-- Where the first is. -/
  phase : Phase
  /-- The notification that `changed` stores. -/
  stored : Bool
  /-- The calls of `notify_one` that are about to be made. -/
  notifies : ℕ
  /-- The permits. -/
  permits : List Request
  /-- The completions. -/
  completions : List Request
  /-- The number of `acquire` calls so far. -/
  arrived : ℕ
  /-- What has happened, the newest first. -/
  log : List Event

/-- What can happen. -/
inductive Action where
  /-- `acquire` is called. -/
  | arrive
  /-- An `acquire` call that waits is dropped. -/
  | abandon (id : ℕ)
  /-- The locked check of the first `acquire` call; it reads the time twice. -/
  | check (now later : ℕ)
  /-- The first `acquire` call polls its notification. -/
  | poll
  /-- Its deadline has come. -/
  | elapse (now : ℕ)
  /-- A call of `notify_one` is made. -/
  | notify
  /-- `concurrency_rejected` is called on a permit. -/
  | reject (request : Request) (delay now : ℕ)
  /-- A completion is dropped. -/
  | complete (request : Request) (successful : Bool) (now : ℕ)
  /-- A permit is dropped. -/
  | release (request : Request) (now : ℕ)

namespace World

variable (w : World)

/-- An unused scope. -/
def new (now : ℕ) : World := ⟨.new now, now, [], .checking, false, 0, [], [], 0, []⟩

/-- What can happen now. -/
def enabled : Action → Bool
  | .arrive => true
  | .abandon id => decide (id ∈ w.queue)
  | .check now later =>
    !w.queue.isEmpty && w.phase == .checking && decide (w.clock ≤ now) && decide (now ≤ later)
  | .poll =>
    match w.phase with
    | .waiting _ _ => !w.queue.isEmpty
    | .checking => false
  | .elapse now =>
    match w.phase with
    | .waiting (some deadline) _ =>
      !w.queue.isEmpty && decide (w.clock ≤ now) && decide (deadline ≤ now)
    | _ => false
  | .notify => decide (0 < w.notifies)
  | .reject request _ now => decide (request ∈ w.permits) && decide (w.clock ≤ now)
  | .complete request _ now => decide (request ∈ w.completions) && decide (w.clock ≤ now)
  | .release request now => decide (request ∈ w.permits) && decide (w.clock ≤ now)

/-- The first `acquire` call leaves the queue; the next one starts with its check. -/
def leave : World :=
  { w with
    queue := w.queue.tail
    phase := .checking
    stored := w.stored || w.phase.passesOn }

/-- The locked check of `acquire`. -/
def check (now later : ℕ) : World :=
  let s := w.state.forgetIdle later
  let log := if w.state.idle later then .reset :: w.log else w.log
  if s.admits now then
    let request : Request := ⟨w.queue.headD 0, s.generation⟩
    { w.leave with
      state := s.grant now
      clock := later
      permits := request :: w.permits
      completions := request :: w.completions
      log := .admitted request { s with active := s.active + 1 }.full now :: log }
  else
    { w with
      state := s
      clock := later
      phase := .waiting (s.deadline now) .created
      log := log }

/-- The first `acquire` call polls its notification. -/
def poll : World :=
  match w.phase with
  | .waiting deadline .created =>
    if w.stored then { w with phase := .checking, stored := false }
    else { w with phase := .waiting deadline .registered }
  | .waiting _ .notified => { w with phase := .checking }
  | _ => w

/-- `notify_one`: the waiting future gets the notification, or else it is stored. -/
def notify : World :=
  match w.phase with
  | .waiting deadline .registered =>
    { w with phase := .waiting deadline .notified, notifies := w.notifies - 1 }
  | _ => { w with stored := true, notifies := w.notifies - 1 }

/-- What happens. -/
def perform : Action → World
  | .arrive => { w with queue := w.queue ++ [w.arrived], arrived := w.arrived + 1 }
  | .abandon id =>
    if w.queue.head? = some id then w.leave else { w with queue := w.queue.erase id }
  | .check now later => w.check now later
  | .poll => w.poll
  | .elapse now =>
    { w with phase := .checking, stored := w.stored || w.phase.passesOn, clock := now }
  | .notify => w.notify
  | .reject request delay now =>
    { w with
      state := w.state.concurrencyRejected request.generation delay now
      clock := now
      notifies := w.notifies + 1
      log := .rejected request (request.generation == w.state.generation) now delay :: w.log }
  | .complete request successful now =>
    let outcome := w.state.completed request.generation successful now
    { w with
      state := outcome.1
      clock := now
      notifies := if outcome.2 then w.notifies + 1 else w.notifies
      completions := w.completions.erase request
      log :=
        if outcome.2 then .grew w.state.generation :: .completed request successful :: w.log
        else .completed request successful :: w.log }
  | .release request now =>
    { w with
      state := w.state.release now
      clock := now
      notifies := w.notifies + 1
      permits := w.permits.erase request
      log := .released request :: w.log }

/-- One step. -/
def Step (w : World) (action : Action) (w' : World) : Prop :=
  w.enabled action = true ∧ w' = w.perform action

end World

end RequestCapacity

end OpenBitFun
