import Mathlib
import OpenBitFun.AssocMap
import OpenBitFun.Run

/-!
# The Router summary queue

`RouterSummaryQueue` admits background summary work: at most `concurrency` items hold a slot, one
per leaf session, root tasks take turns, and each root's leaves wait in FIFO order. A caller keeps
an update handle and a ticket for what it submitted; a started ticket turns into a permit that
holds the slot until it is dropped.

Every operation below is one critical section of the queue's lock. A panic (an `expect` or an
index that fails) is `none`; that it never happens is part of the safety invariant.
-/

namespace OpenBitFun

namespace SummaryQueue

/-- The settings of a `RouterSummaryQueue`. `new` asserts that the concurrency is positive, so a
queue without it does not exist. -/
structure RouterSummaryQueue where
  /-- How many items may hold a slot. -/
  concurrency : ℕ
  /-- How many sessions may wait. -/
  maxPendingSessions : ℕ
  /-- The assertion in `new`. -/
  concurrency_pos : 0 < concurrency

/-- `max_pending_sessions.div_ceil(4).clamp(1, 8)`. -/
def RouterSummaryQueue.maxPendingPerRoot (q : RouterSummaryQueue) : ℕ :=
  max 1 (min 8 ((q.maxPendingSessions + 3) / 4))

/-- The queue refused a submission. -/
inductive RouterSummaryQueueFull where
  | full
  deriving DecidableEq, Repr

/-- Work that was submitted and not yet consumed by its ticket. -/
structure Entry (τ : Type) where
  /-- The root task it is scheduled under. -/
  rootSessionId : String
  /-- The leaf session it belongs to. -/
  sessionId : String
  /-- The newest snapshot. -/
  work : τ
  /-- It holds a slot, and waits for its ticket to be polled. -/
  reserved : Bool

/-- What the queue's lock protects. -/
structure QueueState (τ : Type) where
  /-- The id of the next ticket. -/
  nextId : ℕ
  /-- Submitted work by ticket id. -/
  entries : AssocMap ℕ (Entry τ)
  /-- The ids that wait for a slot, oldest first. -/
  waiting : List ℕ
  /-- The roots of the waiting ids, in the order of their turns. -/
  waitingRoots : List String
  /-- The root that got the latest slot. -/
  lastDispatchedRoot : Option String
  /-- The submitted work of each leaf session. -/
  pendingBySession : AssocMap String ℕ
  /-- The slots taken, by leaf session, with the id and the root of the item. -/
  active : AssocMap String (ℕ × String)

variable {τ : Type}

/-- The state `new` starts with. -/
def QueueState.new : QueueState τ where
  nextId := 0
  entries := ∅
  waiting := []
  waitingRoots := []
  lastDispatchedRoot := none
  pendingBySession := ∅
  active := ∅

/-- Some id of `ids` has its entry under `root`; indexing a missing entry panics. -/
def QueueState.anyUnder (s : QueueState τ) (ids : List ℕ) (root : String) : Option Bool := do
  let entries ← ids.mapM fun id => s.entries.lookup id
  return entries.any fun entry => entry.rootSessionId = root

/-! ## Dispatch -/

/-- A dispatch: which id got a slot for which root, with the queue as it was when it was chosen. -/
structure Dispatch (τ : Type) where
  /-- The state the choice was made in. -/
  before : QueueState τ
  /-- The ticket that got the slot. -/
  id : ℕ
  /-- The root it was charged to. -/
  root : String

/-- A root that could be dispatched next. -/
structure Candidate where
  /-- Its index in `waitingRoots`. -/
  rootIndex : ℕ
  /-- The index in `waiting` of its first runnable entry. -/
  position : ℕ
  /-- It is the root that was dispatched last. -/
  isLastRoot : Bool

/-- `runnable_position`: the first waiting entry of `root` whose leaf session has no slot. -/
def QueueState.runnablePosition (s : QueueState τ) (root : String) : Option (Option ℕ) := do
  let entries ← s.waiting.mapM fun id => s.entries.lookup id
  return entries.findIdx? fun entry =>
    entry.rootSessionId = root && (s.active.lookup entry.sessionId).isNone

/-- The roots with a runnable entry, from the root at `rootIndex` on. The source builds them lazily;
here all are built, so the model panics wherever the source does. -/
def QueueState.candidatesFrom (s : QueueState τ) (rootIndex : ℕ) :
    List String → Option (List Candidate)
  | [] => some []
  | root :: roots => do
    let position ← s.runnablePosition root
    let rest ← s.candidatesFrom (rootIndex + 1) roots
    match position with
    | some position => some (⟨rootIndex, position, some root = s.lastDispatchedRoot⟩ :: rest)
    | none => some rest

/-- The first candidate, unless it was dispatched last and another one is there. -/
def choose : List Candidate → Option Candidate
  | [] => none
  | first :: rest =>
    if first.isLastRoot then (rest.find? fun c => !c.isLastRoot).or (some first) else some first

/-- One round of the loop of `dispatch`: reserve the chosen entry, `none` inside when nothing is
runnable. -/
def QueueState.dispatchOnce (s : QueueState τ) : Option (Option (QueueState τ × Dispatch τ)) := do
  match choose (← s.candidatesFrom 0 s.waitingRoots) with
  | none => return none
  | some c =>
    let root ← s.waitingRoots[c.rootIndex]?
    let waitingRoots := s.waitingRoots.eraseIdx c.rootIndex
    let id ← s.waiting[c.position]?
    let waiting := s.waiting.eraseIdx c.position
    let stillWaiting ← s.anyUnder waiting root
    let entry ← s.entries.lookup id
    return some
      ({ s with
          waiting := waiting
          waitingRoots := if stillWaiting then waitingRoots ++ [root] else waitingRoots
          lastDispatchedRoot := some root
          entries := s.entries.insert id { entry with reserved := true }
          active := s.active.insert entry.sessionId (id, root) },
        ⟨s, id, root⟩)

/-- The loop of `dispatch`: hand out slots while one is free and something is runnable. Each round
takes an id out of `waiting`, so fuel beyond its length is never used up. -/
def QueueState.dispatchLoop (concurrency : ℕ) :
    ℕ → QueueState τ → Option (QueueState τ × List (Dispatch τ))
  | 0, _ => none
  | fuel + 1, s =>
    if AssocMap.size s.active < concurrency then do
      match ← s.dispatchOnce with
      | none => return (s, [])
      | some (s', d) =>
        let (s'', ds) ← dispatchLoop concurrency fuel s'
        return (s'', d :: ds)
    else some (s, [])

/-- `dispatch`: the new state and the slots handed out, in order. -/
def QueueState.dispatch (s : QueueState τ) (concurrency : ℕ) :
    Option (QueueState τ × List (Dispatch τ)) :=
  s.dispatchLoop concurrency (s.waiting.length + 1)

/-! ## The operations -/

/-- `checked_add(1)` on a 64-bit ticket id. -/
def checkedSucc (id : ℕ) : Option ℕ := if id + 1 < 2 ^ 64 then some (id + 1) else none

/-- The root a submission is scheduled under: existing work keeps the root it was admitted with,
running work keeps the root it runs for. -/
def QueueState.admittedRoot (s : QueueState τ) (rootSessionId sessionId : String) : String :=
  let previousRoot := (s.pendingBySession.lookup sessionId).bind fun id =>
    (s.entries.lookup id).map Entry.rootSessionId
  let activeRoot := (s.active.lookup sessionId).map Prod.snd
  (previousRoot.or activeRoot).getD rootSessionId

/-- The part of `submit_for` after its capacity check: a new generation takes the place of the
session's pending entry, or joins the queue. -/
def QueueState.enqueue (s : QueueState τ) (rootSessionId sessionId : String) (work : τ) :
    Option (QueueState τ × ℕ) := do
  let previousId := s.pendingBySession.lookup sessionId
  let id := s.nextId
  let nextId ← checkedSucc id
  let reserved := ((previousId.bind fun id => s.entries.lookup id).map Entry.reserved).getD false
  let remaining := match previousId with
    | some previousId => s.entries.erase previousId
    | none => s.entries
  let s' := { s with
    nextId := nextId
    entries := remaining.insert id ⟨rootSessionId, sessionId, work, reserved⟩
    pendingBySession := s.pendingBySession.insert sessionId id }
  if reserved then
    return ({ s' with active := s.active.insert sessionId (id, rootSessionId) }, id)
  else match previousId with
    | some previousId =>
      if previousId ∈ s.waiting then
        return ({ s' with waiting := s.waiting.replace previousId id }, id)
      else none
    | none =>
      return ({ s' with
        waiting := s.waiting ++ [id]
        waitingRoots :=
          if rootSessionId ∈ s.waitingRoots then s.waitingRoots
          else s.waitingRoots ++ [rootSessionId] }, id)

/-- `submit_for`: the ticket's id, or the queue is full; and the slots handed out. -/
def QueueState.submitFor (q : RouterSummaryQueue) (s : QueueState τ)
    (rootSessionId sessionId : String) (work : τ) :
    Option (QueueState τ × Except RouterSummaryQueueFull ℕ × List (Dispatch τ)) := do
  let root := s.admittedRoot rootSessionId sessionId
  let canStart := AssocMap.size s.active < q.concurrency && (s.active.lookup sessionId).isNone
  let waitingEntries ← s.waiting.mapM fun id => s.entries.lookup id
  let rootWaiting := waitingEntries.countP fun entry => entry.rootSessionId = root
  if (s.pendingBySession.lookup sessionId).isNone && !canStart &&
      (decide (q.maxPendingSessions ≤ s.waiting.length) ||
        decide (q.maxPendingPerRoot ≤ rootWaiting)) then
    return (s, .error .full, [])
  else
    let (s', id) ← s.enqueue root sessionId work
    let (s'', ds) ← s'.dispatch q.concurrency
    return (s'', .ok id, ds)

/-- `cancel`: forget the entry `id` if it is there, and hand out what that frees. -/
def QueueState.cancel (q : RouterSummaryQueue) (s : QueueState τ) (id : ℕ) :
    Option (QueueState τ × List (Dispatch τ)) :=
  match s.entries.lookup id with
  | none => some (s, [])
  | some entry =>
    let s' : QueueState τ := { s with
      entries := s.entries.erase id
      pendingBySession := s.pendingBySession.erase entry.sessionId }
    if entry.reserved then
      QueueState.dispatch { s' with active := s.active.erase entry.sessionId } q.concurrency
    else do
      let waiting := s.waiting.filter fun queuedId => queuedId ≠ id
      let stillWaiting ← s'.anyUnder waiting entry.rootSessionId
      let waitingRoots :=
        if stillWaiting then s.waitingRoots
        else s.waitingRoots.filter fun root => root ≠ entry.rootSessionId
      QueueState.dispatch { s' with waiting := waiting, waitingRoots := waitingRoots } q.concurrency

/-- `RouterSummaryUpdate::update`: replace the work of a pending entry. -/
def QueueState.update (s : QueueState τ) (id : ℕ) (work : τ) : QueueState τ × Bool :=
  match s.entries.lookup id with
  | none => (s, false)
  | some entry => ({ s with entries := s.entries.insert id { entry with work := work } }, true)

/-- What a poll of `RouterSummaryTicket::start` returns. -/
inductive Poll (τ : Type) where
  /-- Not admitted yet. -/
  | pending
  /-- `None`: the entry is gone. -/
  | superseded
  /-- The newest work, with a permit for the session. -/
  | started (work : τ) (sessionId : String)

/-- One locked poll of `RouterSummaryTicket::start`. -/
def QueueState.start (s : QueueState τ) (id : ℕ) : QueueState τ × Poll τ :=
  match s.entries.lookup id with
  | none => (s, .superseded)
  | some entry =>
    if entry.reserved then
      ({ s with
          entries := s.entries.erase id
          pendingBySession := s.pendingBySession.erase entry.sessionId },
        .started entry.work entry.sessionId)
    else (s, .pending)

/-- `Drop` of a `RouterSummaryPermit`: give the slot back if it is still this permit's. -/
def QueueState.dropPermit (q : RouterSummaryQueue) (s : QueueState τ) (sessionId : String)
    (id : ℕ) : Option (QueueState τ × List (Dispatch τ)) :=
  if (s.active.lookup sessionId).map Prod.fst = some id then
    QueueState.dispatch { s with active := s.active.erase sessionId } q.concurrency
  else some (s, [])

/-! ## Interleavings -/

/-- The queue together with what its callers hold: the tickets that were neither started nor
dropped, and the permits that were not dropped. -/
structure World (τ : Type) where
  /-- The queue. -/
  queue : QueueState τ
  /-- The live tickets. -/
  tickets : List ℕ
  /-- The live permits, each a leaf session and the id of its item. -/
  permits : List (String × ℕ)

/-- A fresh queue. -/
def World.new : World τ := ⟨.new, [], []⟩

/-- What a caller may do. -/
inductive Event (τ : Type) where
  /-- `submit_for`. -/
  | submitFor (rootSessionId sessionId : String) (work : τ)
  /-- `update` on the handle of the ticket `id`, or on a clone of it. -/
  | update (id : ℕ) (work : τ)
  /-- A poll of `start` on the ticket `id`. -/
  | start (id : ℕ)
  /-- The ticket `id`, or the pending future of its `start`, is dropped. -/
  | dropTicket (id : ℕ)
  /-- A permit is dropped. -/
  | dropPermit (sessionId : String) (id : ℕ)

/-- What the caller sees. -/
inductive Answer (τ : Type) where
  | submitted (result : Except RouterSummaryQueueFull ℕ)
  | updated (accepted : Bool)
  | polled (result : Poll τ)
  | dropped

/-- One operation with its answer and the slots it handed out. -/
structure Label (τ : Type) where
  /-- The operation. -/
  event : Event τ
  /-- Its answer. -/
  answer : Answer τ
  /-- The dispatches it made, in order. -/
  dispatches : List (Dispatch τ)

/-- The callers own what the operation is called on. A handle may outlive its ticket. -/
def World.Enabled (w : World τ) : Event τ → Prop
  | .submitFor _ _ _ => True
  | .update id _ => id < w.queue.nextId
  | .start id => id ∈ w.tickets
  | .dropTicket id => id ∈ w.tickets
  | .dropPermit sessionId id => (sessionId, id) ∈ w.permits

/-- One operation, `none` if it panics. -/
def World.step (q : RouterSummaryQueue) (w : World τ) :
    Event τ → Option (World τ × Answer τ × List (Dispatch τ))
  | .submitFor rootSessionId sessionId work => do
    let (queue, result, ds) ← w.queue.submitFor q rootSessionId sessionId work
    let tickets := match result with
      | .ok id => w.tickets ++ [id]
      | .error _ => w.tickets
    return ({ w with queue := queue, tickets := tickets }, .submitted result, ds)
  | .update id work =>
    let (queue, accepted) := w.queue.update id work
    some ({ w with queue := queue }, .updated accepted, [])
  | .start id =>
    let (queue, poll) := w.queue.start id
    match poll with
    | .pending => some (w, .polled .pending, [])
    | .superseded => some ({ w with tickets := w.tickets.erase id }, .polled .superseded, [])
    | .started work sessionId =>
      some (⟨queue, w.tickets.erase id, w.permits ++ [(sessionId, id)]⟩,
        .polled (.started work sessionId), [])
  | .dropTicket id => do
    let (queue, ds) ← w.queue.cancel q id
    return ({ w with queue := queue, tickets := w.tickets.erase id }, .dropped, ds)
  | .dropPermit sessionId id => do
    let (queue, ds) ← w.queue.dropPermit q sessionId id
    return ({ w with queue := queue, permits := w.permits.erase (sessionId, id) }, .dropped, ds)

/-- An enabled operation that does not panic. -/
def World.Step (q : RouterSummaryQueue) (w : World τ) (l : Label τ) (w' : World τ) : Prop :=
  w.Enabled l.event ∧ w.step q l.event = some (w', l.answer, l.dispatches)

/-- The runs of a queue from its creation: any operations in any order. -/
abbrev RunsTo (q : RouterSummaryQueue) (tr : List (Label τ)) (w : World τ) : Prop :=
  Run (World.Step q) World.new tr w

/-! ### Running a list of operations -/

instance (w : World τ) : DecidablePred w.Enabled := fun ev =>
  match ev with
  | .submitFor _ _ _ => inferInstanceAs (Decidable True)
  | .update id _ => inferInstanceAs (Decidable (id < w.queue.nextId))
  | .start id | .dropTicket id => inferInstanceAs (Decidable (id ∈ w.tickets))
  | .dropPermit sessionId id => inferInstanceAs (Decidable ((sessionId, id) ∈ w.permits))

/-- Performs operations one after the other, as long as they are enabled and do not panic. -/
def World.exec (q : RouterSummaryQueue) (w : World τ) :
    List (Event τ) → Option (List (Label τ) × World τ)
  | [] => some ([], w)
  | ev :: evs =>
    if w.Enabled ev then do
      let (w', answer, ds) ← w.step q ev
      let (tr, w'') ← w'.exec q evs
      return (⟨ev, answer, ds⟩ :: tr, w'')
    else none

theorem World.exec_run {q : RouterSummaryQueue} {evs : List (Event τ)} :
    ∀ {w w' : World τ} {tr : List (Label τ)}, w.exec q evs = some (tr, w') →
      Run (World.Step q) w tr w' := by
  induction evs with
  | nil =>
    intro w w' tr h
    cases h
    exact Run.refl
  | cons ev evs ih =>
    intro w w' tr h
    simp only [World.exec, Option.bind_eq_bind] at h
    split at h
    · next hen =>
      obtain ⟨⟨w₁, answer, ds⟩, hstep, h⟩ := Option.bind_eq_some_iff.1 h
      obtain ⟨⟨tr', w₂⟩, hexec, h⟩ := Option.bind_eq_some_iff.1 h
      cases h
      exact (ih hexec).cons ⟨hen, hstep⟩
    · cases h

end SummaryQueue

end OpenBitFun
