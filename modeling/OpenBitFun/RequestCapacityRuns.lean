import OpenBitFun.RequestCapacity
import OpenBitFun.Run

/-!
# The adaptive window in every run

What has happened to a scope determines its window: the log of all admissions, rejections,
responses and drops says how many permits are out, what the limit is and when requests may start
again. The state of the scope agrees with its log (`Synced`), and every event of the log was
justified by the events before it (`Justified`): a request was admitted only while the window was
not full, and the window grew only after two windows of successful responses. Whenever the first
`acquire` call could be admitted, it is awake or about to be woken (`Holds.awake`).
-/

namespace OpenBitFun

open List

namespace RequestCapacity

/-! ## Reading a log -/

/-- What has happened, the newest first. -/
abbrev Log := List Event

namespace Event

/-- The window changes. -/
def changesLimit : Event → Bool
  | grew _ | reset | rejected _ true _ _ => true
  | _ => false

/-- A new generation starts. -/
def startsGeneration : Event → Bool
  | reset | rejected _ true _ _ => true
  | _ => false

/-- A response of a request of the generation failed. -/
def failsIn (generation : ℕ) : Event → Bool
  | completed request false => request.generation == generation
  | _ => false

/-- The request admitted. -/
def admitted? : Event → Option Request
  | admitted request _ _ => some request
  | _ => none

/-- The request whose response was successful. -/
def succeeded : Event → Option Request
  | completed request true => some request
  | _ => none

/-- The request whose response was completed or dropped. -/
def finished : Event → Option Request
  | completed request _ => some request
  | _ => none

/-- The generation whose rejection reduces the window. -/
def reduces : Event → Option ℕ
  | rejected request true _ _ => some request.generation
  | _ => none

/-- A request fills the window. -/
def fills : Event → Bool
  | admitted _ full _ => full
  | _ => false

end Event

namespace Log

/-- The limit of the window. -/
def limit : Log → Option ℕ
  | [] => none
  | .grew _ :: log => (limit log).map (· + 1)
  | .reset :: _ => none
  | .rejected _ true _ _ :: log => some ((limit log).elim 1 fun limit => max (limit / 2) 1)
  | _ :: log => limit log

/-- The permits. -/
def live : Log → List Request
  | [] => []
  | .admitted request _ _ :: log => request :: live log
  | .released request :: log => (live log).erase request
  | _ :: log => live log

/-- When requests may start again, in a scope made at the given time. -/
def notBefore (start : ℕ) : Log → ℕ
  | [] => start
  | .rejected _ _ now delay :: log => max (notBefore start log) (now + delay)
  | _ :: log => notBefore start log

/-- The generations in which the window was reduced. -/
def reductions (log : Log) : List ℕ := log.filterMap Event.reduces

/-- What has happened since the window changed. -/
def window (log : Log) : Log := log.takeWhile fun event => !event.changesLimit

/-- What has happened in this generation. -/
def epoch (log : Log) : Log := log.takeWhile fun event => !event.startsGeneration

/-- The requests admitted in this generation. -/
def current (log : Log) : List Request := log.epoch.filterMap Event.admitted?

/-- The successful responses since the window changed or a response of this generation failed, of
the requests admitted in this generation. -/
def credits (generation : ℕ) (log : Log) : List Request :=
  ((log.window.takeWhile fun event => !event.failsIn generation).filterMap Event.succeeded).filter
    (· ∈ log.current)

/-- The requests with a completed response. -/
def finished (log : Log) : List Request := log.filterMap Event.finished

end Log

/-- What justifies an event. -/
def Justified (start : ℕ) : Event → Log → Prop
  /- the window is not full, and requests may start again -/
  | .admitted _ full now, log =>
    (∀ limit ∈ log.limit, log.live.length < limit) ∧ log.notBefore start ≤ now ∧
      (full = true → ∃ limit ∈ log.limit, limit ≤ log.live.length + 1)
  /- two windows of successful responses, and a full window -/
  | .grew generation, log =>
    ∃ limit, log.limit = some limit ∧ 2 * limit ≤ (log.credits generation).length ∧
      (log.credits generation).Nodup ∧ ∃ event ∈ log.window, event.fills = true
  /- nothing is open -/
  | .reset, log => log.live = []
  | _, _ => True

/-! ## One more event -/

section Cons

variable {event : Event} {log : Log} {generation : ℕ}

theorem startsGeneration_le (h : event.changesLimit = false) : event.startsGeneration = false := by
  cases event with
  | rejected request reduced now delay =>
    cases reduced with
    | true => cases h
    | false => rfl
  | grew => cases h
  | reset => cases h
  | admitted => rfl
  | completed => rfl
  | released => rfl

theorem window_cons (h : event.changesLimit = false) :
    Log.window (event :: log) = event :: log.window :=
  takeWhile_cons_of_pos (by rw [h]; rfl)

theorem epoch_cons (h : event.startsGeneration = false) :
    Log.epoch (event :: log) = event :: log.epoch :=
  takeWhile_cons_of_pos (by rw [h]; rfl)

theorem current_cons (h : event.startsGeneration = false) :
    Log.current (event :: log) = event.admitted?.toList ++ log.current := by
  rw [Log.current, epoch_cons h, filterMap_cons]
  cases event.admitted? <;> rfl

theorem mem_current_cons (h : event.startsGeneration = false) {request : Request}
    (hmem : request ∈ log.current) : request ∈ Log.current (event :: log) := by
  rw [current_cons h]
  exact mem_append_right _ hmem

/-- What is credited stays credited while the window stays. -/
theorem credits_sublist_cons (h : event.changesLimit = false)
    (hfails : event.failsIn generation = false) :
    (log.credits generation).Sublist (Log.credits generation (event :: log)) := by
  rw [Log.credits, Log.credits, window_cons h,
    takeWhile_cons_of_pos (by rw [hfails]; rfl)]
  refine List.Sublist.trans ?_ (((sublist_cons_self _ _).filterMap _).filter _)
  refine monotone_filter_right _ fun request hmem => ?_
  exact decide_eq_true (mem_current_cons (startsGeneration_le h) (of_decide_eq_true hmem))

/-- A successful response of a current request is credited. -/
theorem credits_succeeded {request : Request} (hmem : request ∈ log.current) :
    Log.credits generation (.completed request true :: log) =
      request :: log.credits generation := by
  have hsucceeded : Event.succeeded (.completed request true) = some request := rfl
  rw [Log.credits, window_cons rfl, takeWhile_cons_of_pos rfl,
    filterMap_cons_some hsucceeded, current_cons rfl]
  exact filter_cons_of_pos (decide_eq_true hmem)

theorem fills_cons (h : event.changesLimit = false)
    (hfills : ∃ event ∈ log.window, event.fills = true) :
    ∃ event' ∈ Log.window (event :: log), event'.fills = true := by
  obtain ⟨event', hmem, hfills⟩ := hfills
  rw [window_cons h]
  exact ⟨event', mem_cons_of_mem _ hmem, hfills⟩

/-- Successful responses are completed ones. -/
theorem succeeded_sublist_finished (log : Log) :
    (log.filterMap Event.succeeded).Sublist (log.filterMap Event.finished) := by
  induction log with
  | nil => exact List.Sublist.refl _
  | cons event log ih =>
    cases event with
    | completed request successful =>
      rw [filterMap_cons_some (f := Event.finished) rfl]
      cases successful with
      | true => exact ih.cons_cons request
      | false => exact ih.cons request
    | admitted => exact ih
    | reset => exact ih
    | rejected => exact ih
    | grew => exact ih
    | released => exact ih

theorem credits_sublist_finished (generation : ℕ) (log : Log) :
    (log.credits generation).Sublist log.finished := by
  refine filter_sublist.trans ?_
  refine (List.Sublist.filterMap _ ?_).trans (succeeded_sublist_finished log)
  exact (takeWhile_sublist _).trans (takeWhile_sublist _)

end Cons

/-! ## The state and the log -/

/-- The state of a scope, its permits and its completions agree with its log. -/
structure Synced (start : ℕ) (s : State) (log : Log) (permits completions : List Request) :
    Prop where
  active : s.active = permits.length
  live : permits = log.live
  positive : ∀ limit ∈ s.limit, 1 ≤ limit
  limit : s.limit = log.limit
  notBefore : s.notBefore = log.notBefore start
  reductions : log.reductions.Nodup
  reduced : ∀ generation ∈ log.reductions, generation < s.generation
  justified : ∀ event older, event :: older <:+ log → Justified start event older
  generations : ∀ request ∈ completions, request.generation ≤ s.generation
  current : ∀ request ∈ completions, request.generation = s.generation → request ∈ log.current
  finished : (log.finished ++ completions).Nodup
  credits : s.limit.isSome = true → s.successes ≤ (log.credits s.generation).length
  demand : s.limit.isSome = true → s.demandAtLimit = true → ∃ event ∈ log.window, event.fills = true

variable {start now : ℕ} {s : State} {log : Log} {permits completions : List Request}

theorem synced_new (now : ℕ) : Synced now (.new now) [] [] [] where
  active := rfl
  live := rfl
  positive := nofun
  limit := rfl
  notBefore := rfl
  reductions := nodup_nil
  reduced := nofun
  justified _ _ h := absurd (suffix_nil.mp h) (cons_ne_nil _ _)
  generations := nofun
  current := nofun
  finished := nodup_nil
  credits h := Bool.noConfusion h
  demand h := Bool.noConfusion h

/-- A request that is not admitted although the time has come finds the window full. -/
theorem limit_le_of_not_admits (hadmits : ¬s.admits now = true) (htime : s.notBefore ≤ now) :
    ∃ limit, s.limit = some limit ∧ limit ≤ s.active := by
  rw [State.admits, decide_eq_true htime, Bool.and_true] at hadmits
  cases hlimit : s.limit with
  | none =>
    rw [hlimit] at hadmits
    exact absurd rfl hadmits
  | some limit =>
    rw [hlimit] at hadmits
    exact ⟨limit, rfl, Nat.le_of_not_lt fun hlt => hadmits (decide_eq_true hlt)⟩

theorem justified_cons {event : Event}
    (h : ∀ event older, event :: older <:+ log → Justified start event older)
    (hevent : Justified start event log) :
    ∀ event' older, event' :: older <:+ event :: log → Justified start event' older := by
  intro event' older hsuffix
  rcases suffix_cons_iff.mp hsuffix with heq | hold
  · obtain ⟨hhead, htail⟩ := List.cons.inj heq
    rw [hhead, htail]
    exact hevent
  · exact h event' older hold

/-- **An idle scope** forgets its window: a new generation starts. -/
theorem Synced.forgetIdle (h : Synced start s log permits completions) (hidle : s.idle now = true) :
    Synced start (s.forgetIdle now) (.reset :: log) permits completions := by
  rw [State.forgetIdle, if_pos hidle]
  have hnone : permits = [] := by
    rw [State.idle, Bool.and_eq_true, beq_iff_eq, h.active, length_eq_zero_iff] at hidle
    exact hidle.1
  refine ⟨h.active, h.live, nofun, rfl, h.notBefore, h.reductions,
    fun generation hmem => Nat.lt_succ_of_lt (h.reduced generation hmem),
    justified_cons h.justified (h.live.symm.trans hnone),
    fun request hmem => Nat.le_succ_of_le (h.generations request hmem),
    fun request hmem heq => ?_, h.finished, nofun, nofun⟩
  exact absurd (h.generations request hmem) (by rw [heq]; exact Nat.not_succ_le_self _)

/-- **An admission.** -/
theorem Synced.grant (h : Synced start s log permits completions) (hadmits : s.admits now = true)
    {request : Request} (hgeneration : request.generation = s.generation)
    (hfresh : request ∉ log.finished ++ completions) :
    Synced start (s.grant now)
      (.admitted request { s with active := s.active + 1 }.full now :: log)
      (request :: permits) (request :: completions) := by
  rw [State.admits, Bool.and_eq_true, decide_eq_true_iff] at hadmits
  obtain ⟨hroom, htime⟩ := hadmits
  have hlive : log.live.length = s.active := by rw [h.active, h.live]
  refine ⟨congrArg (· + 1) h.active, congrArg (request :: ·) h.live, h.positive, h.limit,
    h.notBefore, h.reductions, h.reduced, justified_cons h.justified ⟨fun limit hlimit => ?_, ?_,
    fun hfull => ?_⟩, fun request' hmem => ?_, fun request' hmem heq => ?_, ?_, fun hsome => ?_,
    fun hsome hdemand => ?_⟩
  · rw [hlive]
    rw [← h.limit] at hlimit
    rw [hlimit] at hroom
    exact of_decide_eq_true hroom
  · rw [← h.notBefore]
    exact htime
  · obtain ⟨limit, hlimit, hle⟩ := (Option.any_eq_true _ _).mp hfull
    refine ⟨limit, h.limit ▸ hlimit, ?_⟩
    rw [hlive]
    exact of_decide_eq_true hle
  · rcases mem_cons.mp hmem with rfl | hold
    · exact Nat.le_of_eq hgeneration
    · exact h.generations request' hold
  · rw [current_cons rfl]
    rcases mem_cons.mp hmem with rfl | hold
    · exact mem_cons_self
    · exact mem_cons_of_mem _ (h.current request' hold heq)
  · exact perm_middle.nodup_iff.mpr (nodup_cons.mpr ⟨hfresh, h.finished⟩)
  · exact Nat.le_trans (h.credits hsome) (credits_sublist_cons rfl rfl).length_le
  · rcases Bool.or_eq_true_iff.mp hdemand with hold | hfull
    · exact fills_cons rfl (h.demand hsome hold)
    · rw [window_cons rfl]
      exact ⟨_, mem_cons_self, hfull⟩

/-- **A rejection** reduces the window if no other of its generation did. -/
theorem Synced.concurrencyRejected (h : Synced start s log permits completions)
    (request : Request) (delay now : ℕ) :
    Synced start (s.concurrencyRejected request.generation delay now)
      (.rejected request (request.generation == s.generation) now delay :: log)
      permits completions := by
  have hnotBefore : max s.notBefore (now + delay) =
      max (log.notBefore start) (now + delay) := by rw [h.notBefore]
  rw [State.concurrencyRejected]
  split_ifs with hsame
  · rw [beq_iff_eq.mpr hsame]
    refine ⟨h.active, h.live, fun limit hlimit => ?_, ?_, hnotBefore, ?_, fun generation hmem => ?_,
      justified_cons h.justified trivial,
      fun request' hmem => Nat.le_succ_of_le (h.generations request' hmem),
      fun request' hmem heq => ?_, h.finished, fun _ => Nat.zero_le _, nofun⟩
    · cases hlimit
      cases s.limit with
      | none => exact le_rfl
      | some limit => exact le_max_right _ _
    · change some _ = some _
      rw [h.limit]
    · refine nodup_cons.mpr ⟨fun hmem => ?_, h.reductions⟩
      exact absurd (h.reduced _ hmem) (by rw [hsame]; exact lt_irrefl _)
    · rcases mem_cons.mp hmem with rfl | hold
      · rw [hsame]
        exact Nat.lt_succ_self _
      · exact Nat.lt_succ_of_lt (h.reduced generation hold)
    · exact absurd (h.generations request' hmem) (by rw [heq]; exact Nat.not_succ_le_self _)
  · rw [beq_false_of_ne hsame]
    refine ⟨h.active, h.live, h.positive, h.limit, hnotBefore, h.reductions, h.reduced,
      justified_cons h.justified trivial, h.generations,
      fun request' hmem heq => mem_current_cons rfl (h.current request' hmem heq), h.finished,
      fun hsome => Nat.le_trans (h.credits hsome) (credits_sublist_cons rfl rfl).length_le,
      fun hsome hdemand => fills_cons rfl (h.demand hsome hdemand)⟩

/-- **The drop of a permit.** -/
theorem Synced.release (h : Synced start s log permits completions) {request : Request}
    (hmem : request ∈ permits) (now : ℕ) :
    Synced start (s.release now) (.released request :: log) (permits.erase request)
      completions := by
  refine ⟨?_, congrArg (·.erase request) h.live, h.positive, h.limit, h.notBefore, h.reductions,
    h.reduced, justified_cons h.justified trivial, h.generations,
    fun request' hmem heq => mem_current_cons rfl (h.current request' hmem heq), h.finished,
    fun hsome => Nat.le_trans (h.credits hsome) (credits_sublist_cons rfl rfl).length_le,
    fun hsome hdemand => fills_cons rfl (h.demand hsome hdemand)⟩
  rw [length_erase_of_mem hmem, ← h.active]
  rfl

/-- A response that changes the number of successes at most. -/
theorem Synced.respond (h : Synced start s log permits completions) {request : Request}
    (hmem : request ∈ completions) {successful : Bool} {successes : ℕ}
    (hcredits : s.limit.isSome = true → successes ≤
      (Log.credits s.generation (.completed request successful :: log)).length) :
    Synced start { s with successes := successes } (.completed request successful :: log) permits
      (completions.erase request) := by
  refine ⟨h.active, h.live, h.positive, h.limit, h.notBefore, h.reductions, h.reduced,
    justified_cons h.justified trivial,
    fun request' hmem' => h.generations request' (mem_of_mem_erase hmem'),
    fun request' hmem' heq =>
      mem_current_cons rfl (h.current request' (mem_of_mem_erase hmem') heq), ?_, hcredits,
    fun hsome hdemand => fills_cons rfl (h.demand hsome hdemand)⟩
  -- the request moves from the open completions to the finished ones
  have hperm : (request :: log.finished ++ completions.erase request).Perm
      (log.finished ++ completions) :=
    perm_middle.symm.trans ((perm_cons_erase hmem).symm.append_left _)
  exact hperm.nodup_iff.mpr h.finished

/-- **The window grows** after two windows of successes. -/
theorem Synced.grow (h : Synced start s log permits completions) {limit : ℕ}
    (hlimit : s.limit = some limit) (hdemand : s.demandAtLimit = true)
    (hsuccesses : limit * SUCCESS_WINDOWS_TO_GROW ≤ s.successes) :
    Synced start { s with limit := some (limit + 1), successes := 0, demandAtLimit := false }
      (.grew s.generation :: log) permits completions := by
  have hsome : s.limit.isSome = true := by
    rw [hlimit]
    rfl
  refine ⟨h.active, h.live, fun limit' hlimit' => ?_, ?_, h.notBefore, h.reductions, h.reduced,
    justified_cons h.justified ⟨limit, h.limit.symm.trans hlimit, ?_, ?_, h.demand hsome hdemand⟩,
    h.generations, fun request hmem heq => mem_current_cons rfl (h.current request hmem heq),
    h.finished, fun _ => Nat.zero_le _, nofun⟩
  · cases hlimit'
    exact Nat.succ_le_succ (Nat.zero_le _)
  · change some (limit + 1) = log.limit.map (· + 1)
    rw [← h.limit, hlimit]
    rfl
  · rw [Nat.mul_comm]
    exact Nat.le_trans hsuccesses (h.credits hsome)
  · exact (nodup_append.mp h.finished).1.sublist (credits_sublist_finished _ _)

/-- What a response can do: nothing, end the row of successes, lengthen it, or let the window grow.
-/
theorem completed_cases (s : State) (generation : ℕ) (successful : Bool) (now : ℕ) :
    s.completed generation successful now = (s, false) ∧
        (s.limit.isSome = true → generation = s.generation → successful = true) ∨
      s.completed generation successful now = ({ s with successes := 0 }, false) ∨
      generation = s.generation ∧ successful = true ∧
        (s.completed generation successful now = ({ s with successes := s.successes + 1 }, false) ∨
          ∃ limit, s.limit = some limit ∧ s.demandAtLimit = true ∧
            limit * SUCCESS_WINDOWS_TO_GROW ≤ s.successes + 1 ∧
            s.completed generation successful now =
              ({ s with limit := some (limit + 1), successes := 0, demandAtLimit := false },
                true)) := by
  rw [State.completed]
  by_cases hsame : generation = s.generation
  · rw [if_neg (not_not.mpr hsame)]
    cases hlimit : s.limit with
    | none => exact .inl ⟨rfl, nofun⟩
    | some limit =>
      cases successful with
      | false => exact .inr (.inl rfl)
      | true =>
        cases hdemand : s.demandAtLimit with
        | false => exact .inl ⟨rfl, fun _ _ => rfl⟩
        | true =>
          by_cases hearly : now < s.notBefore
          · rw [decide_eq_true hearly]
            exact .inl ⟨rfl, fun _ _ => rfl⟩
          · rw [decide_eq_false hearly]
            by_cases hgrow : limit * SUCCESS_WINDOWS_TO_GROW ≤ s.successes + 1
            · exact .inr (.inr ⟨hsame, rfl, .inr ⟨limit, rfl, rfl, hgrow, if_pos hgrow⟩⟩)
            · exact .inr (.inr ⟨hsame, rfl, .inl (if_neg hgrow)⟩)
  · rw [if_pos hsame]
    exact .inl ⟨rfl, fun _ heq => absurd heq hsame⟩

/-- **A response** is counted if it is successful and current. -/
theorem Synced.completed (h : Synced start s log permits completions) {request : Request}
    (hmem : request ∈ completions) (successful : Bool) (now : ℕ) :
    Synced start (s.completed request.generation successful now).1
      (if (s.completed request.generation successful now).2 then
        .grew s.generation :: .completed request successful :: log
      else .completed request successful :: log)
      permits (completions.erase request) := by
  rcases completed_cases s request.generation successful now with
    ⟨heq, hkept⟩ | heq | ⟨hsame, rfl, hcounted⟩
  · rw [heq]
    refine h.respond hmem fun hsome => Nat.le_trans (h.credits hsome)
      (credits_sublist_cons rfl ?_).length_le
    cases successful with
    | true => rfl
    | false => exact beq_false_of_ne fun hsame => Bool.noConfusion (hkept hsome hsame)
  · rw [heq]
    exact h.respond hmem fun _ => Nat.zero_le _
  · have hcurrent := h.current request hmem hsame
    have hrespond : Synced start { s with successes := s.successes + 1 }
        (.completed request true :: log) permits (completions.erase request) := by
      refine h.respond hmem fun hsome => ?_
      rw [credits_succeeded hcurrent]
      exact Nat.succ_le_succ (h.credits hsome)
    rcases hcounted with heq | ⟨limit, hlimit, hdemand, hgrow, heq⟩
    · rw [heq]
      exact hrespond
    · rw [heq]
      exact hrespond.grow hlimit hdemand hgrow

namespace World

variable {w w' : World} {start : ℕ}

/-- The first `acquire` call will go on: it has got a notification, it will find one, or one is
about to be made. -/
def Woken (w : World) (changed : Notified) : Prop :=
  changed = .notified ∨ changed = .created ∧ w.stored = true ∨ 0 < w.notifies

/-- What holds of the window. -/
structure Holds (start : ℕ) (w : World) : Prop where
  /-- the permits are counted -/
  active : w.state.active = w.permits.length
  /-- the permits that are out -/
  live : w.permits = Log.live w.log
  /-- the window is never empty -/
  positive : ∀ limit ∈ w.state.limit, 1 ≤ limit
  /-- the window changes only by the events of the log -/
  limit : w.state.limit = Log.limit w.log
  /-- the time of the next admission -/
  notBefore : w.state.notBefore = Log.notBefore start w.log
  /-- the rejections of one generation reduce the window once -/
  reductions : (Log.reductions w.log).Nodup
  /-- all events are justified -/
  justified : ∀ event older, event :: older <:+ w.log → Justified start event older
  /-- a call that could be admitted does not sleep on -/
  awake : ∀ changed, w.phase = .waiting none changed →
    (w.state.forgetIdle w.clock).admits w.clock = true → w.Woken changed

/-- The invariant of every run: the state and the log agree, calls are told apart, and the first
call sleeps only while the window is full, or until a notification that is on its way. -/
structure Inv (start : ℕ) (w : World) : Prop where
  synced : Synced start w.state w.log w.permits w.completions
  waiting : w.queue.Nodup
  arrived : ∀ id ∈ w.queue, id < w.arrived
  known : ∀ request ∈ Log.finished w.log ++ w.completions,
    request.id < w.arrived ∧ request.id ∉ w.queue
  resting : ∀ changed, w.phase = .waiting none changed →
    w.Woken changed ∨ ∃ limit, w.state.limit = some limit ∧ limit ≤ w.state.active

theorem inv_new (now : ℕ) : (new now).Inv now :=
  ⟨synced_new now, nodup_nil, nofun, nofun, nofun⟩

/-! ### The queue and the notification -/

theorem Inv.arrive (h : w.Inv start) : (w.perform .arrive).Inv start := by
  refine ⟨h.synced, ?_, fun id hmem => ?_, fun request hmem => ?_, h.resting⟩
  · refine nodup_append.mpr ⟨h.waiting, nodup_singleton _, fun id hmem id' hmem' => ?_⟩
    rw [mem_singleton.mp hmem']
    exact Nat.ne_of_lt (h.arrived id hmem)
  · rcases mem_append.mp hmem with hold | hnew
    · exact Nat.lt_succ_of_lt (h.arrived id hold)
    · rw [mem_singleton.mp hnew]
      exact Nat.lt_succ_self _
  · obtain ⟨hlt, hnot⟩ := h.known request hmem
    refine ⟨Nat.lt_succ_of_lt hlt, fun hqueue => ?_⟩
    rcases mem_append.mp hqueue with hold | hnew
    · exact hnot hold
    · exact Nat.ne_of_lt hlt (mem_singleton.mp hnew)

theorem Inv.shrink (h : w.Inv start) {queue : List ℕ} (hsub : queue.Sublist w.queue)
    {phase : Phase} {stored : Bool} {notifies clock : ℕ}
    (hresting : ∀ changed, phase = .waiting none changed →
      Woken { w with stored := stored, notifies := notifies } changed ∨
        ∃ limit, w.state.limit = some limit ∧ limit ≤ w.state.active) :
    Inv start { w with
      queue := queue
      phase := phase
      stored := stored
      notifies := notifies
      clock := clock } :=
  ⟨h.synced, h.waiting.sublist hsub, fun id hmem => h.arrived id (hsub.subset hmem),
    fun request hmem => ⟨(h.known request hmem).1, fun hqueue =>
      (h.known request hmem).2 (hsub.subset hqueue)⟩, hresting⟩

theorem Inv.abandon (h : w.Inv start) (id : ℕ) : (w.perform (.abandon id)).Inv start := by
  rw [perform]
  split_ifs
  · exact h.shrink (tail_sublist _) nofun
  · exact h.shrink erase_sublist h.resting

theorem Inv.elapse (h : w.Inv start) (now : ℕ) : (w.perform (.elapse now)).Inv start :=
  h.shrink (List.Sublist.refl _) nofun

theorem Inv.poll (h : w.Inv start) : (w.perform .poll).Inv start := by
  rw [perform, World.poll]
  cases hphase : w.phase with
  | checking => exact h
  | waiting deadline changed =>
    cases changed with
    | registered => exact h
    | notified => exact h.shrink (List.Sublist.refl _) nofun
    | created =>
      dsimp only
      split_ifs with hstored
      · exact h.shrink (List.Sublist.refl _) nofun
      · refine h.shrink (List.Sublist.refl _) fun changed heq => ?_
        cases heq
        -- no notification was stored, so a woken call has one on its way
        refine (h.resting _ hphase).imp_left fun hwoken => ?_
        rcases hwoken with hnotified | ⟨-, hstored'⟩ | hnotifies
        · cases hnotified
        · exact absurd hstored' hstored
        · exact .inr (.inr hnotifies)

theorem Inv.notify (h : w.Inv start) : (w.perform .notify).Inv start := by
  rw [perform, World.notify]
  cases hphase : w.phase with
  | checking => exact h.shrink (List.Sublist.refl _) nofun
  | waiting deadline changed =>
    cases changed with
    | created =>
      refine h.shrink (List.Sublist.refl _) fun changed heq => .inl ?_
      cases heq
      exact .inr (.inl ⟨rfl, rfl⟩)
    | registered =>
      refine h.shrink (List.Sublist.refl _) fun changed heq => .inl ?_
      cases heq
      exact .inl rfl
    | notified =>
      refine h.shrink (List.Sublist.refl _) fun changed heq => .inl ?_
      cases heq
      exact .inl rfl

/-! ### The window -/

/-- A step on the state that makes a call of `notify_one`, or leaves the window and the permits
as they are. -/
theorem Inv.touch (h : w.Inv start) {s : State} {log : Log} {permits completions : List Request}
    {notifies clock : ℕ} (hsynced : Synced start s log permits completions)
    (hknown : ∀ request ∈ log.finished ++ completions,
      request ∈ Log.finished w.log ++ w.completions)
    (hnotifies : notifies = w.notifies + 1 ∨
      notifies = w.notifies ∧ s.limit = w.state.limit ∧ s.active = w.state.active) :
    Inv start { w with
      state := s
      clock := clock
      notifies := notifies
      permits := permits
      completions := completions
      log := log } := by
  refine ⟨hsynced, h.waiting, h.arrived, fun request hmem => h.known request (hknown request hmem),
    fun changed hphase => ?_⟩
  rcases hnotifies with rfl | ⟨rfl, hlimit, hactive⟩
  · exact .inl (.inr (.inr (Nat.succ_pos _)))
  · refine (h.resting changed hphase).imp_right fun hfull => ?_
    rw [hlimit, hactive]
    exact hfull

theorem Inv.reject (h : w.Inv start) (request : Request) (delay now : ℕ) :
    (w.perform (.reject request delay now)).Inv start :=
  h.touch (h.synced.concurrencyRejected request delay now) (fun _ hmem => hmem) (.inl rfl)

theorem Inv.release (h : w.Inv start) {request : Request} (hmem : request ∈ w.permits) (now : ℕ) :
    (w.perform (.release request now)).Inv start :=
  h.touch (h.synced.release hmem now) (fun _ hmem => hmem) (.inl rfl)

theorem Inv.complete (h : w.Inv start) {request : Request} (hmem : request ∈ w.completions)
    (successful : Bool) (now : ℕ) :
    (w.perform (.complete request successful now)).Inv start := by
  refine h.touch (h.synced.completed hmem successful now) (fun request' hmem' => ?_) ?_
  · have hfinished : ∀ grown : Bool, Log.finished (if grown then
        .grew w.state.generation :: .completed request successful :: w.log
        else .completed request successful :: w.log) = request :: Log.finished w.log := by
      intro grown
      cases grown <;> rfl
    rw [hfinished] at hmem'
    rcases mem_append.mp hmem' with hold | hold
    · rcases mem_cons.mp hold with rfl | hold
      · exact mem_append_right _ hmem
      · exact mem_append_left _ hold
    · exact mem_append_right _ (mem_of_mem_erase hold)
  · rcases completed_cases w.state request.generation successful now with
      ⟨heq, -⟩ | heq | ⟨-, -, heq | ⟨limit, -, -, -, heq⟩⟩
    · rw [heq]
      exact .inr ⟨rfl, rfl, rfl⟩
    · rw [heq]
      exact .inr ⟨rfl, rfl, rfl⟩
    · rw [heq]
      exact .inr ⟨rfl, rfl, rfl⟩
    · rw [heq]
      exact .inl rfl

/-- **The check** admits the first call, or lets it wait: without a deadline only if the window is
full. -/
theorem Inv.check (h : w.Inv start) (hqueue : w.queue.isEmpty = false) (now later : ℕ) :
    (w.perform (.check now later)).Inv start := by
  have hsynced : Synced start (w.state.forgetIdle later)
      (if w.state.idle later then .reset :: w.log else w.log) w.permits w.completions := by
    split_ifs with hidle
    · exact h.synced.forgetIdle hidle
    · rw [State.forgetIdle, if_neg hidle]
      exact h.synced
  have hfinished : Log.finished (if w.state.idle later then .reset :: w.log else w.log) =
      Log.finished w.log := by
    split_ifs <;> rfl
  obtain ⟨id, rest, hcons⟩ := exists_cons_of_ne_nil (isEmpty_eq_false_iff.mp hqueue)
  rw [perform, World.check]
  dsimp only
  generalize (if w.state.idle later then Event.reset :: w.log else w.log) = log at *
  split_ifs with hadmits
  · have hmem : id ∈ w.queue := hcons ▸ mem_cons_self
    have hfresh : ∀ request ∈ Log.finished w.log ++ w.completions, request.id ≠ id :=
      fun request hknown heq => (h.known request hknown).2 (heq ▸ hmem)
    have hnodup := hcons ▸ h.waiting
    refine ⟨hsynced.grant hadmits rfl fun hknown => ?_, ?_, fun id' hmem' => ?_,
      fun request hknown => ?_, nofun⟩
    · rw [hfinished, hcons] at hknown
      exact hfresh _ hknown rfl
    · exact h.waiting.sublist (tail_sublist _)
    · exact h.arrived id' ((tail_sublist _).subset hmem')
    · change request ∈ Log.finished log ++ _ at hknown
      rw [hfinished, mem_append, mem_cons, or_left_comm, ← mem_append] at hknown
      change request.id < w.arrived ∧ request.id ∉ w.queue.tail
      rcases hknown with rfl | hold
      · rw [hcons]
        exact ⟨h.arrived id hmem, (nodup_cons.mp hnodup).1⟩
      · obtain ⟨hlt, hnot⟩ := h.known request hold
        exact ⟨hlt, fun htail => hnot ((tail_sublist _).subset htail)⟩
  · refine ⟨hsynced, h.waiting, h.arrived, fun request hknown => ?_, fun changed hphase => .inr ?_⟩
    · change request ∈ Log.finished log ++ _ at hknown
      rw [hfinished] at hknown
      exact h.known request hknown
    · -- without a deadline the time has come, so the window is full
      refine limit_le_of_not_admits hadmits (Nat.le_of_not_lt fun hearly => ?_)
      change Phase.waiting (State.deadline _ now) _ = _ at hphase
      rw [State.deadline, if_pos hearly] at hphase
      cases hphase

/-! ## Runs -/

/-- **The step lemma.** -/
theorem Inv.step (h : w.Inv start) {action : Action} (hstep : Step w action w') :
    w'.Inv start := by
  obtain ⟨henabled, rfl⟩ := hstep
  cases action with
  | arrive => exact h.arrive
  | abandon id => exact h.abandon id
  | poll => exact h.poll
  | elapse now => exact h.elapse now
  | notify => exact h.notify
  | reject request delay now => exact h.reject request delay now
  | check now later =>
    rw [enabled, Bool.and_assoc, Bool.and_assoc, Bool.and_eq_true, Bool.not_eq_true'] at henabled
    exact h.check henabled.1 now later
  | complete request successful now =>
    exact h.complete (of_decide_eq_true (Bool.and_eq_true_iff.mp henabled).1) successful now
  | release request now =>
    exact h.release (of_decide_eq_true (Bool.and_eq_true_iff.mp henabled).1) now

theorem Inv.run (h : w.Inv start) {actions : List Action} (hrun : Run Step w actions w') :
    w'.Inv start :=
  hrun.invariant h fun _ _ _ h hstep => h.step hstep

theorem Inv.holds (h : w.Inv start) : w.Holds start := by
  refine ⟨h.synced.active, h.synced.live, h.synced.positive, h.synced.limit, h.synced.notBefore,
    h.synced.reductions, h.synced.justified, fun changed hphase hadmits => ?_⟩
  refine (h.resting changed hphase).resolve_right fun ⟨limit, hlimit, hfull⟩ => ?_
  -- a full window has a permit out, so the scope is not idle
  have hidle : w.state.idle w.clock = false := by
    have hpos := h.synced.positive limit hlimit
    rw [State.idle, beq_false_of_ne (Nat.ne_of_gt (Nat.lt_of_lt_of_le hpos hfull)), Bool.false_and]
  rw [State.forgetIdle, hidle, if_neg Bool.false_ne_true, State.admits, hlimit] at hadmits
  have hroom := of_decide_eq_true (Bool.and_eq_true_iff.mp hadmits).1
  exact Nat.not_lt_of_le hfull hroom

theorem notBefore_le_completed (s : State) (generation : ℕ) (successful : Bool) (now : ℕ) :
    s.notBefore ≤ (s.completed generation successful now).1.notBefore := by
  rcases completed_cases s generation successful now with
    ⟨heq, -⟩ | heq | ⟨-, -, heq | ⟨limit, -, -, -, heq⟩⟩
  · exact Nat.le_of_eq (congrArg (·.1.notBefore) heq).symm
  · exact Nat.le_of_eq (congrArg (·.1.notBefore) heq).symm
  · exact Nat.le_of_eq (congrArg (·.1.notBefore) heq).symm
  · exact Nat.le_of_eq (congrArg (·.1.notBefore) heq).symm

theorem notBefore_le_step {action : Action} (hstep : Step w action w') :
    w.state.notBefore ≤ w'.state.notBefore := by
  obtain ⟨-, rfl⟩ := hstep
  cases action with
  | arrive => exact Nat.le_refl _
  | abandon id =>
    rw [perform]
    split_ifs <;> exact Nat.le_refl _
  | poll =>
    rw [perform, World.poll]
    split <;> (try split_ifs) <;> exact Nat.le_refl _
  | elapse now => exact Nat.le_refl _
  | notify =>
    rw [perform, World.notify]
    split <;> exact Nat.le_refl _
  | reject request delay now =>
    rw [perform, State.concurrencyRejected]
    split_ifs <;> exact Nat.le_max_left _ _
  | check now later =>
    have hforget : (w.state.forgetIdle later).notBefore = w.state.notBefore := by
      rw [State.forgetIdle]
      split_ifs <;> rfl
    rw [perform, World.check]
    dsimp only
    rw [← hforget]
    split_ifs <;> exact Nat.le_refl _
  | complete request successful now => exact notBefore_le_completed _ _ _ _
  | release request now => exact Nat.le_refl _

theorem notBefore_le_run {actions : List Action} (hrun : Run Step w actions w') :
    w.state.notBefore ≤ w'.state.notBefore :=
  hrun.invariant (P := fun w' => w.state.notBefore ≤ w'.state.notBefore) (Nat.le_refl _)
    fun _ _ _ hle hstep => Nat.le_trans hle (notBefore_le_step hstep)

end World

/-- **The adaptive window** in every run. -/
theorem window_holds {start : ℕ} {actions : List Action} {w : World}
    (hrun : Run World.Step (.new start) actions w) :
    w.Holds start ∧ ∀ actions' w', Run World.Step w actions' w' →
      w'.Holds start ∧ w.state.notBefore ≤ w'.state.notBefore :=
  ⟨((World.inv_new start).run hrun).holds, fun _ _ hrun' =>
    ⟨(((World.inv_new start).run hrun).run hrun').holds, World.notBefore_le_run hrun'⟩⟩

/-! ## Scripts -/

/-- The test whether a script can happen. -/
def World.admitsAll (w : World) : List Action → Bool
  | [] => true
  | action :: actions => w.enabled action && (w.perform action).admitsAll actions

theorem World.run_perform {w : World} {script : List Action} (h : w.admitsAll script = true) :
    Run Step w script (script.foldl perform w) := by
  induction script generalizing w with
  | nil => exact .refl
  | cons action script ih =>
    rw [admitsAll, Bool.and_eq_true] at h
    exact (ih h.2).cons ⟨h.1, rfl⟩

/-- A rejection closes the window; the next call sleeps until the permit is dropped. Two successful
responses later the window has grown. -/
def recovering : List Action :=
  [.arrive, .check 1 1, .arrive, .reject ⟨0, 0⟩ 0 2, .check 2 3, .poll, .notify, .poll,
    .check 4 4, .release ⟨0, 0⟩ 5, .poll, .notify, .poll, .check 6 6,
    .complete ⟨1, 1⟩ true 7, .release ⟨1, 1⟩ 7, .notify, .arrive, .check 8 8,
    .complete ⟨2, 1⟩ true 9]

/-- The window while it recovers. -/
theorem window_holds_recovering :
    (recovering.foldl World.perform (.new 0)).Holds 0 ∧
      (recovering.foldl World.perform (.new 0)).state.limit = some 2 :=
  ⟨(window_holds (World.run_perform (by decide +kernel))).1, by decide +kernel⟩

end RequestCapacity

end OpenBitFun
