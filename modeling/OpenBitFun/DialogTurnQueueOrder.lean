import OpenBitFun.DialogTurnQueue

/-!
# The order of dialog turns

What `DialogTurnQueue` is for, in the terms of arrivals: every turn has the position of its arrival,
and the next turn is the earliest among those of the highest priority (`Arrivals`). A scheduler that
puts back the turn it took last gets from the queue the answers of `Arrivals`, as long as no turn is
put back in front of one with a higher priority (`Turns.answers_eq`).
-/

namespace OpenBitFun

open List

namespace DialogTurnQueue

variable {T : Type}

/-! ## The scheduler's calls -/

/-- A call of the queue. `requeueFront` puts back the turn that was dequeued last in the session,
with its priority. -/
inductive Request (T : Type) where
  | enqueue (sessionId : String) (turn : T) (priority : DialogQueuePriority)
  | dequeueNext (sessionId : String)
  | removeFirstMatching (sessionId : String) (predicate : T → Bool)
  | clear (sessionId : String)
  | requeueFront (sessionId : String)

/-- What a call answers. -/
inductive Answer (T : Type) where
  | depth (result : Except DialogTurnQueueError ℕ)
  | turn (turn : Option T)
  | turns (turns : List T)
  | done
  deriving DecidableEq

/-- The queue, and the turn that was dequeued last in each session and not put back. -/
structure Scheduler (T : Type) where
  /-- The queue. -/
  queue : DialogTurnQueue T
  /-- The dequeued turns. -/
  dequeued : AssocMap String (QueuedDialogTurn T)

/-- One call. -/
def Scheduler.perform (s : Scheduler T) : Request T → Answer T × Scheduler T
  | .enqueue sessionId turn priority =>
    let (result, queue) := s.queue.enqueue sessionId turn priority
    (.depth result, { s with queue })
  | .dequeueNext sessionId =>
    let (turn, queue) := s.queue.dequeueNext sessionId
    (.turn turn, ⟨queue, match (s.queue.get sessionId).head? with
      | some item => s.dequeued.insert sessionId item
      | none => s.dequeued⟩)
  | .removeFirstMatching sessionId predicate =>
    let (turn, queue) := s.queue.removeFirstMatching sessionId predicate
    (.turn turn, { s with queue })
  | .clear sessionId =>
    let (turns, queue) := s.queue.clear sessionId
    (.turns turns, { s with queue })
  | .requeueFront sessionId =>
    match s.dequeued.lookup sessionId with
    | some item => (.done, ⟨s.queue.requeueFront sessionId item.turn item.priority,
        s.dequeued.erase sessionId⟩)
    | none => (.done, s)

theorem Scheduler.perform_enqueue (s : Scheduler T) (sessionId : String) (turn : T)
    (priority : DialogQueuePriority) : s.perform (.enqueue sessionId turn priority) =
      (.depth (s.queue.enqueue sessionId turn priority).1,
        { s with queue := (s.queue.enqueue sessionId turn priority).2 }) := rfl

theorem Scheduler.perform_dequeueNext (s : Scheduler T) (sessionId : String) :
    s.perform (.dequeueNext sessionId) = (.turn (s.queue.dequeueNext sessionId).1,
      ⟨(s.queue.dequeueNext sessionId).2, match (s.queue.get sessionId).head? with
        | some item => s.dequeued.insert sessionId item
        | none => s.dequeued⟩) := rfl

theorem Scheduler.perform_removeFirstMatching (s : Scheduler T) (sessionId : String)
    (predicate : T → Bool) : s.perform (.removeFirstMatching sessionId predicate) =
      (.turn (s.queue.removeFirstMatching sessionId predicate).1,
        { s with queue := (s.queue.removeFirstMatching sessionId predicate).2 }) := rfl

/-- A call as it happened. -/
structure Call (T : Type) where
  /-- The scheduler before. -/
  before : Scheduler T
  /-- What was asked. -/
  request : Request T
  /-- The answer. -/
  answer : Answer T

/-- The step relation. -/
def Performs (s : Scheduler T) (call : Call T) (s' : Scheduler T) : Prop :=
  call.before = s ∧ s.perform call.request = (call.answer, s')

/-- A run of an empty queue. -/
abbrev Turns (maxDepth : ℕ) (tr : List (Call T)) (s : Scheduler T) : Prop :=
  Run Performs ⟨withMaxDepth maxDepth, ∅⟩ tr s

/-- The session in which a call puts a turn back. -/
def Request.requeues : Request T → Option String
  | .requeueFront sessionId => some sessionId
  | _ => none

/-- A turn is put back only where no turn of a higher priority is queued. -/
def Call.Orderly (call : Call T) : Prop :=
  ∀ sessionId ∈ call.request.requeues, ∀ item ∈ call.before.dequeued.lookup sessionId,
    ∀ queued ∈ call.before.queue.get sessionId, queued.priority.rank ≤ item.priority.rank

instance (call : Call T) : Decidable call.Orderly :=
  inferInstanceAs (Decidable (∀ sessionId ∈ call.request.requeues,
    ∀ item ∈ call.before.dequeued.lookup sessionId,
      ∀ queued ∈ call.before.queue.get sessionId, queued.priority.rank ≤ item.priority.rank))

/-! ## Arrivals -/

/-- A turn with the position of its arrival. -/
structure Arrival (T : Type) where
  /-- How many turns arrived before it. -/
  position : ℕ
  /-- The turn and its priority. -/
  item : QueuedDialogTurn T

/-- The turns that wait and the turns taken last, by session, in the order of their arrival. -/
structure Arrivals (T : Type) where
  /-- How many turns a session may queue. -/
  maxDepth : ℕ
  /-- How many turns arrived. -/
  arrived : ℕ
  /-- The turns that wait. -/
  waiting : String → List (Arrival T)
  /-- The turn that was taken last and not put back. -/
  taken : String → Option (Arrival T)

/-- The order in which turns are due: by priority, and in the order of arrival within a priority. -/
def due (waiting : List (Arrival T)) : List (Arrival T) :=
  [DialogQueuePriority.high, .normal, .low].flatMap fun priority =>
    waiting.filter (·.item.priority = priority)

/-- The turns that wait without one. -/
def without (waiting : List (Arrival T)) (arrival : Arrival T) : List (Arrival T) :=
  waiting.filter (·.position ≠ arrival.position)

theorem without_sublist (waiting : List (Arrival T)) (arrival : Arrival T) :
    (without waiting arrival).Sublist waiting :=
  filter_sublist

namespace Arrivals

/-- Nothing arrived. -/
def new (maxDepth : ℕ) : Arrivals T := ⟨maxDepth, 0, fun _ => [], fun _ => none⟩

/-- One call. -/
def perform (s : Arrivals T) : Request T → Answer T × Arrivals T
  | .enqueue sessionId turn priority =>
    if s.maxDepth ≤ (s.waiting sessionId).length then
      (.depth (.error (.full sessionId s.maxDepth)), s)
    else (.depth (.ok ((s.waiting sessionId).length + 1)), { s with
      arrived := s.arrived + 1
      waiting := Function.update s.waiting sessionId
        (s.waiting sessionId ++ [⟨s.arrived, ⟨priority, turn⟩⟩]) })
  | .dequeueNext sessionId =>
    match due (s.waiting sessionId) with
    | [] => (.turn none, s)
    | arrival :: _ => (.turn (some arrival.item.turn), { s with
        waiting := Function.update s.waiting sessionId (without (s.waiting sessionId) arrival)
        taken := Function.update s.taken sessionId (some arrival) })
  | .removeFirstMatching sessionId predicate =>
    match (due (s.waiting sessionId)).find? (predicate ·.item.turn) with
    | none => (.turn none, s)
    | some arrival => (.turn (some arrival.item.turn), { s with
        waiting := Function.update s.waiting sessionId (without (s.waiting sessionId) arrival) })
  | .clear sessionId => (.turns ((due (s.waiting sessionId)).map (·.item.turn)), { s with
      waiting := Function.update s.waiting sessionId [] })
  | .requeueFront sessionId =>
    match s.taken sessionId with
    | none => (.done, s)
    | some arrival => (.done, { s with
        waiting := Function.update s.waiting sessionId
          ((s.waiting sessionId).orderedInsert (·.position ≤ ·.position) arrival)
        taken := Function.update s.taken sessionId none })

/-- The answers to a sequence of calls. -/
def answers (s : Arrivals T) : List (Request T) → List (Answer T)
  | [] => []
  | request :: requests => (s.perform request).1 :: (s.perform request).2.answers requests

end Arrivals

/-! ## The order in which turns are due -/

variable {waiting rest : List (Arrival T)} {x y : Arrival T} {s s' : Scheduler T} {a : Arrivals T}
  {call : Call T} {tr : List (Call T)}

theorem due_perm (waiting : List (Arrival T)) : (due waiting).Perm waiting := by
  simp only [due, flatMap_cons, flatMap_nil, append_nil]
  have hhigh := filter_append_perm (·.item.priority = .high) waiting
  refine .trans (.append_left _ ?_) hhigh
  have hnormal := filter_append_perm (·.item.priority = .normal)
    (waiting.filter fun x => !decide (x.item.priority = .high))
  refine .trans (.of_eq ?_) hnormal
  rw [filter_filter, filter_filter]
  congr 1
  · refine filter_congr fun x _ => ?_
    cases x.item.priority <;> rfl
  · refine filter_congr fun x _ => ?_
    cases x.item.priority <;> rfl

theorem due_filter (p : Arrival T → Bool) (waiting : List (Arrival T)) :
    due (waiting.filter p) = (due waiting).filter p := by
  simp only [due, flatMap_cons, flatMap_nil, append_nil, filter_append,
    filter_filter, Bool.and_comm]

/-- A list that begins with what satisfies a predicate comes apart there. -/
theorem takeWhile_split {α : Type} {p : α → Bool} {front back : List α}
    (hfront : ∀ x ∈ front, p x = true) (hback : ∀ x ∈ back, p x = false) :
    (front ++ back).takeWhile p = front ∧ (front ++ back).dropWhile p = back := by
  rw [takeWhile_append_of_pos hfront, dropWhile_append_of_pos hfront]
  cases back with
  | nil => simp
  | cons x back => simp [hback x mem_cons_self]

/-- A new turn is due after the turns of its priority. -/
theorem due_concat (waiting : List (Arrival T)) (x : Arrival T) :
    (due (waiting ++ [x])).map (·.item) = insertByPriority ((due waiting).map (·.item)) x.item := by
  have hmem : ∀ priority, ∀ item ∈ (waiting.filter (·.item.priority = priority)).map (·.item),
      item.priority = priority := by
    intro priority item hitem
    obtain ⟨y, hy, rfl⟩ := mem_map.1 hitem
    simpa using (mem_filter.1 hy).2
  rw [insertByPriority_eq]
  simp only [due, flatMap_cons, flatMap_nil, append_nil, filter_append,
    map_append]
  generalize hhigh : (waiting.filter (·.item.priority = .high)).map (·.item) = high
  generalize hnormal : (waiting.filter (·.item.priority = .normal)).map (·.item) = normal
  generalize hlow : (waiting.filter (·.item.priority = .low)).map (·.item) = low
  have hhigh' := hhigh ▸ hmem .high
  have hnormal' := hnormal ▸ hmem .normal
  have hlow' := hlow ▸ hmem .low
  cases hpriority : x.item.priority with
  | high =>
    have hfront : ∀ item ∈ high,
        decide (DialogQueuePriority.high.rank ≤ item.priority.rank) = true := by
      intro item hitem
      simp [hhigh' item hitem]
    have hback : ∀ item ∈ normal ++ low,
        decide (DialogQueuePriority.high.rank ≤ item.priority.rank) = false := by
      intro item hitem
      obtain hitem | hitem := mem_append.1 hitem
      · simp [hnormal' item hitem, DialogQueuePriority.rank]
      · simp [hlow' item hitem, DialogQueuePriority.rank]
    obtain ⟨htake, hdrop⟩ := takeWhile_split hfront hback
    rw [htake, hdrop]
    simp [hpriority]
  | normal =>
    have hfront : ∀ item ∈ high ++ normal,
        decide (DialogQueuePriority.normal.rank ≤ item.priority.rank) = true := by
      intro item hitem
      obtain hitem | hitem := mem_append.1 hitem
      · simp [hhigh' item hitem, DialogQueuePriority.rank]
      · simp [hnormal' item hitem]
    have hback : ∀ item ∈ low,
        decide (DialogQueuePriority.normal.rank ≤ item.priority.rank) = false := by
      intro item hitem
      simp [hlow' item hitem, DialogQueuePriority.rank]
    obtain ⟨htake, hdrop⟩ := takeWhile_split hfront hback
    rw [append_assoc] at htake hdrop
    rw [htake, hdrop]
    simp [hpriority]
  | low =>
    have hall : ∀ item ∈ high ++ (normal ++ low),
        decide (DialogQueuePriority.low.rank ≤ item.priority.rank) = true := by
      simp [DialogQueuePriority.rank]
    obtain ⟨htake, hdrop⟩ := takeWhile_split hall (by simp : ∀ _ ∈ [], _)
    rw [append_nil] at htake hdrop
    rw [htake, hdrop]
    simp [hpriority]

/-- The positions of what is due are distinct. -/
theorem due_nodup (hsorted : waiting.Pairwise (·.position < ·.position)) :
    (due waiting).Pairwise (·.position ≠ ·.position) :=
  ((due_perm waiting).pairwise_iff fun h => h.symm).2 (hsorted.imp fun h => h.ne)

theorem due_without (hsorted : waiting.Pairwise (·.position < ·.position)) {p : Arrival T → Bool}
    (hx : (due waiting).find? p = some x) : due (without waiting x) = (due waiting).eraseP p := by
  have hnodup := due_nodup hsorted
  rw [without, due_filter]
  obtain ⟨hp, front, back, heq, hfront⟩ := find?_eq_some_iff_append.1 hx
  rw [heq] at hnodup ⊢
  rw [eraseP_append_right _ (by simpa using hfront), eraseP_cons_of_pos hp]
  rw [pairwise_append, pairwise_cons] at hnodup
  obtain ⟨-, ⟨hback, -⟩, hcross⟩ := hnodup
  rw [filter_append, filter_cons_of_neg (by simp)]
  congr 1
  · exact filter_eq_self.2 fun y hy => by simpa using hcross y hy x mem_cons_self
  · exact filter_eq_self.2 fun y hy => by simpa using (hback y hy).symm

theorem mem_filter_priority {priority : DialogQueuePriority}
    (hx : x ∈ waiting.filter (·.item.priority = priority)) : x.item.priority = priority := by
  simpa using (mem_filter.1 hx).2

/-- A turn that is due earlier has a higher priority, or it arrived earlier. -/
theorem due_pairwise (hsorted : waiting.Pairwise (·.position < ·.position)) :
    (due waiting).Pairwise fun x y => y.item.priority.rank < x.item.priority.rank ∨
      y.item.priority = x.item.priority ∧ x.position < y.position := by
  have hlane : ∀ priority, (waiting.filter (·.item.priority = priority)).Pairwise fun x y =>
      y.item.priority.rank < x.item.priority.rank ∨
        y.item.priority = x.item.priority ∧ x.position < y.position := by
    intro priority
    have hpairs := List.Pairwise.and_mem.1
      (hsorted.filter fun x => decide (x.item.priority = priority))
    refine hpairs.imp fun {x y} ⟨hx, hy, hlt⟩ => .inr ⟨?_, hlt⟩
    rw [mem_filter_priority hx, mem_filter_priority hy]
  simp only [due, flatMap_cons, flatMap_nil, append_nil]
  rw [pairwise_append, pairwise_append]
  refine ⟨hlane _, ⟨hlane _, hlane _, fun x hx y hy => .inl ?_⟩, fun x hx y hy => .inl ?_⟩
  · rw [mem_filter_priority hx, mem_filter_priority hy]
    decide
  · rw [mem_filter_priority hx]
    obtain hy | hy := mem_append.1 hy
    · rw [mem_filter_priority hy]
      decide
    · rw [mem_filter_priority hy]
      decide

/-- **The turn that is due** has the highest priority, and arrived first among those of it. -/
theorem due_first (hsorted : waiting.Pairwise (·.position < ·.position))
    (hdue : due waiting = x :: rest) (hy : y ∈ waiting) :
    y = x ∨ y.item.priority.rank < x.item.priority.rank ∨
      y.item.priority = x.item.priority ∧ x.position < y.position := by
  have hpairs := due_pairwise hsorted
  have hmem : y ∈ x :: rest := hdue ▸ (due_perm waiting).mem_iff.2 hy
  rw [hdue, pairwise_cons] at hpairs
  exact (mem_cons.1 hmem).imp_right (hpairs.1 y)

theorem filter_orderedInsert (p : Arrival T → Bool)
    (hfirst : p x = true → ∀ y ∈ waiting, p y = true → x.position ≤ y.position) :
    (waiting.orderedInsert (·.position ≤ ·.position) x).filter p =
      if p x then x :: waiting.filter p else waiting.filter p := by
  induction waiting with
  | nil => cases hp : p x <;> simp [hp]
  | cons y waiting ih =>
    have ih := ih fun hp z hz => hfirst hp z (mem_cons_of_mem y hz)
    rw [orderedInsert_cons]
    split_ifs with hle hp hp
    · simp [hp]
    · simp [hp]
    · -- the turn goes further back, past one that does not count
      have hy : p y = false := by
        by_contra hpy
        exact hle (hfirst hp y mem_cons_self (by simpa using hpy))
      simp [hy, ih, hp]
    · rw [filter_cons, filter_cons, ih, if_neg hp]

/-- A turn that is put back in front of what is due. -/
theorem due_orderedInsert (hhighest : ∀ y ∈ waiting, y.item.priority.rank ≤ x.item.priority.rank)
    (hfirst : ∀ y ∈ waiting, y.item.priority = x.item.priority → x.position < y.position) :
    due (waiting.orderedInsert (·.position ≤ ·.position) x) = x :: due waiting := by
  have hlane : ∀ priority, x.item.priority = priority →
      (waiting.orderedInsert (·.position ≤ ·.position) x).filter (·.item.priority = priority) =
        x :: waiting.filter (·.item.priority = priority) := by
    intro priority hpriority
    rw [filter_orderedInsert, if_pos (by simpa using hpriority)]
    intro _ y hy hsame
    exact (hfirst y hy (by simpa [hpriority] using hsame)).le
  have hother : ∀ priority, x.item.priority ≠ priority →
      (waiting.orderedInsert (·.position ≤ ·.position) x).filter (·.item.priority = priority) =
        waiting.filter (·.item.priority = priority) := by
    intro priority hpriority
    rw [filter_orderedInsert, if_neg (by simpa using hpriority)]
    exact fun hsame => absurd (of_decide_eq_true hsame) hpriority
  have hempty : ∀ priority, x.item.priority.rank < priority.rank →
      waiting.filter (·.item.priority = priority) = [] := by
    intro priority hlt
    rw [filter_eq_nil_iff]
    intro y hy hsame
    have hle := hhighest y hy
    rw [of_decide_eq_true hsame] at hle
    omega
  simp only [due, flatMap_cons, flatMap_nil, append_nil]
  cases hpriority : x.item.priority with
  | high =>
    rw [hlane _ hpriority, hother _ (by simp [hpriority]), hother _ (by simp [hpriority])]
    rfl
  | normal =>
    rw [hlane _ hpriority, hother _ (by simp [hpriority]), hother _ (by simp [hpriority]),
      hempty .high (by rw [hpriority]; decide)]
    rfl
  | low =>
    rw [hlane _ hpriority, hother _ (by simp [hpriority]), hother _ (by simp [hpriority]),
      hempty .high (by rw [hpriority]; decide), hempty .normal (by rw [hpriority]; decide)]
    rfl

/-- A turn that is put back stands in the order of arrival. -/
theorem sorted_orderedInsert (hsorted : waiting.Pairwise (·.position < ·.position))
    (hapart : ∀ y ∈ waiting, y.position ≠ x.position) :
    (waiting.orderedInsert (·.position ≤ ·.position) x).Pairwise (·.position < ·.position) := by
  induction waiting with
  | nil => simp
  | cons y waiting ih =>
    rw [pairwise_cons] at hsorted
    have hne := hapart y mem_cons_self
    have ih := ih hsorted.2 fun z hz => hapart z (mem_cons_of_mem y hz)
    rw [orderedInsert_cons]
    split_ifs with hle
    · refine pairwise_cons.2 ⟨fun z hz => ?_, pairwise_cons.2 hsorted⟩
      obtain rfl | hz := mem_cons.1 hz
      · omega
      · have hlt := hsorted.1 z hz
        omega
    · refine pairwise_cons.2 ⟨fun z hz => ?_, ih⟩
      rw [mem_orderedInsert] at hz
      obtain rfl | hz := hz
      · omega
      · exact hsorted.1 z hz

/-! ## The queue answers like the arrivals -/

/-- The queue holds what waits, in the order in which it is due. -/
structure Sim (s : Scheduler T) (a : Arrivals T) : Prop where
  /-- The bound is the same. -/
  maxDepth : s.queue.maxDepth = a.maxDepth
  /-- The queue of every session. -/
  queue : ∀ session, s.queue.get session = (due (a.waiting session)).map (·.item)
  /-- The turns taken last. -/
  dequeued : ∀ session, s.dequeued.lookup session = (a.taken session).map (·.item)
  /-- Turns wait in the order of their arrival. -/
  sorted : ∀ session, (a.waiting session).Pairwise (·.position < ·.position)
  /-- They arrived. -/
  arrived : ∀ session, ∀ x ∈ a.waiting session, x.position < a.arrived
  /-- So did the turns taken last. -/
  takenArrived : ∀ session, ∀ x ∈ a.taken session, x.position < a.arrived
  /-- They arrived before what waits with the same priority. -/
  taken : ∀ session, ∀ x ∈ a.taken session, ∀ y ∈ a.waiting session,
    y.item.priority = x.item.priority → x.position < y.position
  /-- They do not wait. -/
  apart : ∀ session, ∀ x ∈ a.taken session, ∀ y ∈ a.waiting session, y.position ≠ x.position

theorem sim_new (maxDepth : ℕ) :
    Sim (⟨withMaxDepth maxDepth, ∅⟩ : Scheduler T) (Arrivals.new maxDepth) :=
  ⟨rfl, fun _ => rfl, fun _ => rfl, fun _ => .nil, by simp [Arrivals.new],
    by simp [Arrivals.new], by simp [Arrivals.new], by simp [Arrivals.new]⟩

theorem Sim.depth (h : Sim s a) (session : String) :
    s.queue.depth session = (a.waiting session).length := by
  rw [DialogTurnQueue.depth, h.queue, length_map, (due_perm _).length_eq]

/-- What the queue and the arrivals agree on in one session. -/
structure Waits (turns : List (QueuedDialogTurn T)) (last : Option (QueuedDialogTurn T))
    (waiting : List (Arrival T)) (back : Option (Arrival T)) (next : ℕ) : Prop where
  queue : turns = (due waiting).map (·.item)
  dequeued : last = back.map (·.item)
  sorted : waiting.Pairwise (·.position < ·.position)
  arrived : ∀ x ∈ waiting, x.position < next
  takenArrived : ∀ x ∈ back, x.position < next
  taken : ∀ x ∈ back, ∀ y ∈ waiting, y.item.priority = x.item.priority → x.position < y.position
  apart : ∀ x ∈ back, ∀ y ∈ waiting, y.position ≠ x.position

theorem Sim.session (h : Sim s a) (session : String) : Waits (s.queue.get session)
    (s.dequeued.lookup session) (a.waiting session) (a.taken session) a.arrived :=
  ⟨h.queue session, h.dequeued session, h.sorted session, h.arrived session,
    h.takenArrived session, h.taken session, h.apart session⟩

theorem Sim.update (h : Sim s a) {a' : Arrivals T} {sessionId : String}
    {waiting : List (Arrival T)} {taken : Option (Arrival T)}
    (hmaxDepth : s'.queue.maxDepth = s.queue.maxDepth) (hmaxDepth' : a'.maxDepth = a.maxDepth)
    (harrived : a.arrived ≤ a'.arrived)
    (hwaiting : a'.waiting = Function.update a.waiting sessionId waiting)
    (htaken : a'.taken = Function.update a.taken sessionId taken)
    (hother : ∀ session ≠ sessionId, s'.queue.get session = s.queue.get session ∧
      s'.dequeued.lookup session = s.dequeued.lookup session)
    (hself : Waits (s'.queue.get sessionId) (s'.dequeued.lookup sessionId) waiting taken
      a'.arrived) : Sim s' a' := by
  have hall : ∀ session, Waits (s'.queue.get session) (s'.dequeued.lookup session)
      (a'.waiting session) (a'.taken session) a'.arrived := by
    intro session
    rw [hwaiting, htaken]
    by_cases hsession : session = sessionId
    · rw [hsession, Function.update_self, Function.update_self]
      exact hself
    · rw [Function.update_of_ne hsession, Function.update_of_ne hsession,
        (hother session hsession).1, (hother session hsession).2]
      have hold := h.session session
      exact { hold with
        arrived := fun x hx => (hold.arrived x hx).trans_le harrived
        takenArrived := fun x hx => (hold.takenArrived x hx).trans_le harrived }
  exact ⟨hmaxDepth.trans (h.maxDepth.trans hmaxDepth'.symm), fun session => (hall session).queue,
    fun session => (hall session).dequeued, fun session => (hall session).sorted,
    fun session => (hall session).arrived, fun session => (hall session).takenArrived,
    fun session => (hall session).taken, fun session => (hall session).apart⟩

/-- What is left when some turns are taken out of one session. -/
theorem Sim.restrict (h : Sim s a) {queue : DialogTurnQueue T} {sessionId : String}
    {left : List (Arrival T)} (hmaxDepth : queue.maxDepth = s.queue.maxDepth)
    (hsub : left.Sublist (a.waiting sessionId))
    (hget : ∀ session, queue.get session =
      if session = sessionId then (due left).map (·.item) else s.queue.get session) :
    Sim { s with queue } { a with waiting := Function.update a.waiting sessionId left } := by
  have hold := h.session sessionId
  exact h.update hmaxDepth rfl le_rfl rfl (Function.update_eq_self sessionId a.taken).symm
    (fun session hne => ⟨(hget session).trans (if_neg hne), rfl⟩)
    ⟨(hget sessionId).trans (if_pos rfl), hold.dequeued, hold.sorted.sublist hsub,
      fun x hx => hold.arrived x (hsub.subset hx), hold.takenArrived,
      fun x hx y hy => hold.taken x hx y (hsub.subset hy),
      fun x hx y hy => hold.apart x hx y (hsub.subset hy)⟩

/-- The queue changed as a whole, but not in any session. -/
theorem Sim.congr (h : Sim s a) {queue : DialogTurnQueue T}
    (hmaxDepth : queue.maxDepth = s.queue.maxDepth)
    (hget : ∀ session, queue.get session = s.queue.get session) : Sim { s with queue } a :=
  ⟨hmaxDepth.trans h.maxDepth, fun session => (hget session).trans (h.queue session), h.dequeued,
    h.sorted, h.arrived, h.takenArrived, h.taken, h.apart⟩

theorem Sim.arrive (h : Sim s a) {queue : DialogTurnQueue T} {sessionId : String}
    (item : QueuedDialogTurn T) (hmaxDepth : queue.maxDepth = s.queue.maxDepth)
    (hget : ∀ session, queue.get session =
      if session = sessionId then insertByPriority (s.queue.get sessionId) item
      else s.queue.get session) :
    Sim { s with queue } { a with
      arrived := a.arrived + 1
      waiting := Function.update a.waiting sessionId
        (a.waiting sessionId ++ [⟨a.arrived, item⟩]) } := by
  have hold := h.session sessionId
  have hmem : ∀ x ∈ a.waiting sessionId ++ [⟨a.arrived, item⟩],
      x ∈ a.waiting sessionId ∨ x.position = a.arrived := by
    intro x hx
    exact (mem_append.1 hx).imp_right fun hx => by rw [mem_singleton.1 hx]
  refine h.update hmaxDepth rfl (Nat.le_succ _) rfl (Function.update_eq_self sessionId a.taken).symm
    (fun session hne => ⟨(hget session).trans (if_neg hne), rfl⟩)
    ⟨?_, hold.dequeued, ?_, fun x hx => ?_, fun x hx => Nat.lt_succ_of_lt (hold.takenArrived x hx),
      fun x hx y hy hpriority => ?_, fun x hx y hy => ?_⟩
  · rw [hget, if_pos rfl, due_concat, hold.queue]
  · rw [pairwise_append]
    refine ⟨hold.sorted, pairwise_singleton _ _, fun x hx y hy => ?_⟩
    rw [mem_singleton.1 hy]
    exact hold.arrived x hx
  · obtain hx | hx := hmem x hx
    · exact Nat.lt_succ_of_lt (hold.arrived x hx)
    · rw [hx]
      exact Nat.lt_succ_self _
  · obtain hy | hy := hmem y hy
    · exact hold.taken x hx y hy hpriority
    · rw [hy]
      exact hold.takenArrived x hx
  · obtain hy | hy := hmem y hy
    · exact hold.apart x hx y hy
    · rw [hy]
      exact (hold.takenArrived x hx).ne'

/-- **One call**: the answers agree, and the queue goes on holding what waits. -/
theorem Sim.perform (h : Sim s a) (hperforms : Performs s call s') (horderly : call.Orderly) :
    (a.perform call.request).1 = call.answer ∧ Sim s' (a.perform call.request).2 := by
  obtain ⟨rfl, hperform⟩ := hperforms
  obtain ⟨before, request, answer⟩ := call
  simp only at h hperform ⊢
  cases request with
  | enqueue sessionId turn priority =>
    rw [Scheduler.perform_enqueue] at hperform
    obtain ⟨rfl, rfl⟩ := Prod.mk.inj hperform
    obtain ⟨hresult, hmaxDepth, hget⟩ := before.queue.enqueue_spec sessionId turn priority
    rw [h.depth, h.maxDepth] at hresult
    simp only [h.depth, h.maxDepth] at hget
    rw [Arrivals.perform, hresult]
    by_cases hfull : a.maxDepth ≤ (a.waiting sessionId).length
    · rw [if_pos hfull, if_pos hfull]
      refine ⟨rfl, h.congr hmaxDepth fun session => ?_⟩
      rw [hget, if_neg (not_and_of_not_right _ (Nat.not_lt.2 hfull))]
    · rw [if_neg hfull, if_neg hfull]
      refine ⟨rfl, h.arrive _ hmaxDepth fun session => ?_⟩
      simp only [hget, Nat.lt_of_not_le hfull, and_true]
  | dequeueNext sessionId =>
    rw [Scheduler.perform_dequeueNext] at hperform
    obtain ⟨rfl, rfl⟩ := Prod.mk.inj hperform
    obtain ⟨hturn, hmaxDepth, hget⟩ := before.queue.dequeueNext_spec sessionId
    rw [Arrivals.perform, hturn, h.queue]
    simp only [h.queue] at hget
    cases hdue : due (a.waiting sessionId) with
    | nil =>
      refine ⟨rfl, h.congr hmaxDepth fun session => ?_⟩
      rw [hget, h.queue]
      split_ifs with hsession
      · rw [hsession, hdue]
        rfl
      · rfl
    | cons arrival rest =>
      refine ⟨rfl, ?_⟩
      have hold := h.session sessionId
      have hleft : due (without (a.waiting sessionId) arrival) = rest := by
        rw [due_without (p := fun _ => true) hold.sorted (by rw [hdue]; rfl), hdue]
        rfl
      have hsub := without_sublist (a.waiting sessionId) arrival
      have harrival : arrival ∈ a.waiting sessionId :=
        (due_perm _).mem_iff.1 (hdue ▸ mem_cons_self)
      refine h.update hmaxDepth rfl le_rfl rfl rfl (fun session hne => ⟨?_, ?_⟩) ⟨?_, ?_,
        hold.sorted.sublist hsub, fun x hx => hold.arrived x (hsub.subset hx), ?_, ?_, ?_⟩
      · rw [hget, if_neg hne, h.queue]
      · exact (AssocMap.lookup_insert ..).trans (if_neg hne)
      · rw [hget, if_pos rfl, hleft, hdue]
        rfl
      · exact (AssocMap.lookup_insert ..).trans (if_pos rfl)
      · rintro x ⟨⟩
        exact hold.arrived arrival harrival
      · rintro x ⟨⟩ y hy hpriority
        obtain ⟨hy, hne⟩ := mem_filter.1 hy
        obtain rfl | hlt | ⟨-, hlt⟩ := due_first hold.sorted hdue hy
        · simp at hne
        · rw [hpriority] at hlt
          exact absurd hlt (Nat.lt_irrefl _)
        · exact hlt
      · rintro x ⟨⟩ y hy
        simpa using (mem_filter.1 hy).2
  | removeFirstMatching sessionId predicate =>
    rw [Scheduler.perform_removeFirstMatching] at hperform
    obtain ⟨rfl, rfl⟩ := Prod.mk.inj hperform
    obtain ⟨hturn, hmaxDepth, hget⟩ := before.queue.removeFirstMatching_spec sessionId predicate
    rw [Arrivals.perform, hturn, h.queue, find?_map]
    simp only [h.queue, eraseP_map] at hget
    simp only [Function.comp_def] at hget ⊢
    cases hfind : (due (a.waiting sessionId)).find? (predicate ·.item.turn) with
    | none =>
      refine ⟨rfl, h.congr hmaxDepth fun session => ?_⟩
      rw [hget, h.queue]
      split_ifs with hsession
      · rw [hsession, eraseP_eq_self_iff.2 (find?_eq_none.1 hfind)]
      · rfl
    | some arrival =>
      refine ⟨rfl, h.restrict hmaxDepth (without_sublist _ arrival) fun session => ?_⟩
      rw [hget, due_without (h.sorted sessionId) hfind, h.queue]
  | clear sessionId =>
    obtain ⟨rfl, rfl⟩ := Prod.mk.inj hperform
    refine ⟨?_, h.restrict rfl (nil_sublist _) fun session => before.queue.get_clear _ _⟩
    rw [Arrivals.perform, h.queue, map_map]
    rfl
  | requeueFront sessionId =>
    rw [Scheduler.perform, h.dequeued] at hperform
    rw [Arrivals.perform]
    cases htaken : a.taken sessionId with
    | none =>
      rw [htaken] at hperform
      obtain ⟨rfl, rfl⟩ := Prod.mk.inj hperform
      exact ⟨rfl, h⟩
    | some arrival =>
      rw [htaken] at hperform
      obtain ⟨rfl, rfl⟩ := Prod.mk.inj hperform
      refine ⟨rfl, ?_⟩
      have hhighest : ∀ y ∈ a.waiting sessionId,
          y.item.priority.rank ≤ arrival.item.priority.rank := by
        intro y hy
        refine horderly sessionId rfl arrival.item (by rw [h.dequeued, htaken]; rfl) y.item ?_
        rw [h.queue]
        exact mem_map_of_mem ((due_perm _).mem_iff.2 hy)
      have hold := h.session sessionId
      have hinsert := due_orderedInsert hhighest (hold.taken arrival htaken)
      refine h.update rfl rfl le_rfl rfl rfl (fun session hne => ⟨?_, ?_⟩)
        ⟨?_, ?_, sorted_orderedInsert hold.sorted (hold.apart arrival htaken), fun x hx => ?_,
          nofun, nofun, nofun⟩
      · rw [get_requeueFront, if_neg hne]
      · rw [AssocMap.lookup_erase, if_neg hne]
      · rw [get_requeueFront, if_pos rfl, hinsert, hold.queue]
        rfl
      · rw [AssocMap.lookup_erase, if_pos rfl]
        rfl
      · obtain rfl | hx := (mem_orderedInsert _).1 hx
        · exact hold.takenArrived x htaken
        · exact hold.arrived x hx

/-! ## Runs -/

theorem Sim.answers (h : Sim s a) (hrun : Run Performs s tr s')
    (horderly : ∀ call ∈ tr, call.Orderly) : a.answers (tr.map (·.request)) = tr.map (·.answer) := by
  induction tr generalizing s a with
  | nil => rfl
  | cons call tr ih =>
    obtain ⟨mid, hperforms, hrun⟩ := run_cons.1 hrun
    obtain ⟨hanswer, hsim⟩ := h.perform hperforms (horderly call mem_cons_self)
    rw [map_cons, Arrivals.answers, hanswer,
      ih hsim hrun fun call hcall => horderly call (mem_cons_of_mem _ hcall)]
    rfl

/-- **The queue keeps the order.** In every run in which no turn is put back in front of one with a
higher priority, the queue answers like the arrivals: the next turn has the highest priority and
arrived first among those of it, where a turn that was put back keeps its arrival. -/
theorem Turns.answers_eq {maxDepth : ℕ} (h : Turns maxDepth tr s)
    (horderly : ∀ call ∈ tr, call.Orderly) :
    tr.map (·.answer) = (Arrivals.new maxDepth).answers (tr.map (·.request)) :=
  ((sim_new maxDepth).answers h horderly).symm

/-- The calls of a script, one after the other. -/
def Scheduler.performAll (s : Scheduler T) : List (Request T) → List (Call T) × Scheduler T
  | [] => ([], s)
  | request :: script =>
    let (answer, s') := s.perform request
    let (calls, last) := s'.performAll script
    (⟨s, request, answer⟩ :: calls, last)

theorem turns_performAll (s : Scheduler T) (script : List (Request T)) :
    Run Performs s (s.performAll script).1 (s.performAll script).2 := by
  induction script generalizing s with
  | nil => exact .refl
  | cons request script ih => exact (ih _).cons ⟨rfl, rfl⟩

/-- A turn that is put back is due before those that arrived later. -/
theorem answers_eq_requeued :
    ∃ tr s, Turns (T := String) 20 tr s ∧
      tr.map (·.answer) = (Arrivals.new 20).answers (tr.map (·.request)) ∧
      (tr.map (·.answer)).getLast? = some (.turn (some "first")) := by
  have hrun := turns_performAll (⟨withMaxDepth 20, ∅⟩ : Scheduler String)
    [.enqueue "s" "first" .normal, .dequeueNext "s", .enqueue "s" "second" .normal,
      .requeueFront "s", .dequeueNext "s"]
  have hanswers := Turns.answers_eq hrun (by decide +kernel)
  exact ⟨_, _, hrun, hanswers, by decide +kernel⟩

/-- A turn of a low priority that is put back is answered before one of a high priority that was
queued in the meantime. -/
theorem answers_ne_requeued_low :
    ∃ tr s, Turns (T := String) 20 tr s ∧
      tr.map (·.answer) ≠ (Arrivals.new 20).answers (tr.map (·.request)) ∧
      tr.map (·.answer) = [.depth (.ok 1), .turn (some "low"), .depth (.ok 1), .done,
        .turn (some "low")] := by
  have hrun := turns_performAll (⟨withMaxDepth 20, ∅⟩ : Scheduler String)
    [.enqueue "s" "low" .low, .dequeueNext "s", .enqueue "s" "high" .high, .requeueFront "s",
      .dequeueNext "s"]
  exact ⟨_, _, hrun, by decide +kernel, by decide +kernel⟩

end DialogTurnQueue

end OpenBitFun
