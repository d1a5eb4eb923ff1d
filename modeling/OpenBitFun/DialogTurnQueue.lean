import Mathlib
import OpenBitFun.AssocMap
import OpenBitFun.Lists
import OpenBitFun.Run

/-!
# The dialog turn queue

`DialogTurnQueue` keeps the turns of each session that wait for their start, highest priority first
and in the order of their arrival within a priority. A turn whose start failed is put back in front.
-/

namespace OpenBitFun

open List

/-- `DialogQueuePriority`. -/
inductive DialogQueuePriority where
  | low
  | normal
  | high
  deriving DecidableEq, Repr

/-- The discriminant, by which priorities are ordered. -/
def DialogQueuePriority.rank : DialogQueuePriority → ℕ
  | .low => 0
  | .normal => 1
  | .high => 2

/-- `DialogTurnQueueError`. -/
inductive DialogTurnQueueError where
  | full (sessionId : String) (maxDepth : ℕ)
  deriving DecidableEq, Repr

/-- `Display for DialogTurnQueueError`. -/
def DialogTurnQueueError.message : DialogTurnQueueError → String
  | .full sessionId maxDepth =>
    "Message queue full for session " ++ sessionId ++ " (max " ++ toString maxDepth ++ " messages)"

/-- `QueuedDialogTurn`. -/
structure QueuedDialogTurn (T : Type) where
  /-- The priority. -/
  priority : DialogQueuePriority
  /-- The turn. -/
  turn : T
  deriving DecidableEq

/-- `DialogTurnQueue`. -/
structure DialogTurnQueue (T : Type) where
  /-- How many turns a session may queue. -/
  maxDepth : ℕ
  /-- The queue of each session, front first. -/
  inner : AssocMap String (List (QueuedDialogTurn T))

namespace DialogTurnQueue

variable {T : Type}

/-- `with_max_depth`. -/
def withMaxDepth (maxDepth : ℕ) : DialogTurnQueue T := ⟨maxDepth, ∅⟩

/-- The queue of a session. -/
def get (q : DialogTurnQueue T) (sessionId : String) : List (QueuedDialogTurn T) :=
  (q.inner.lookup sessionId).getD []

/-- `depth`. -/
def depth (q : DialogTurnQueue T) (sessionId : String) : ℕ := (q.get sessionId).length

/-- `has_items`. -/
def hasItems (q : DialogTurnQueue T) (sessionId : String) : Bool := 0 < q.depth sessionId

/-- A turn goes before the first of a lower priority. -/
def insertByPriority (queue : List (QueuedDialogTurn T)) (queued : QueuedDialogTurn T) :
    List (QueuedDialogTurn T) :=
  match queue.findIdx? (·.priority.rank < queued.priority.rank) with
  | some index => queue.insertIdx index queued
  | none => queue ++ [queued]

/-- `enqueue`. -/
def enqueue (q : DialogTurnQueue T) (sessionId : String) (turn : T)
    (priority : DialogQueuePriority) : Except DialogTurnQueueError ℕ × DialogTurnQueue T :=
  let queue := q.get sessionId
  if q.maxDepth ≤ queue.length then
    (.error (.full sessionId q.maxDepth), { q with inner := q.inner.insert sessionId queue })
  else
    let queue := insertByPriority queue ⟨priority, turn⟩
    (.ok queue.length, { q with inner := q.inner.insert sessionId queue })

/-- `clear`. -/
def clear (q : DialogTurnQueue T) (sessionId : String) : List T × DialogTurnQueue T :=
  ((q.get sessionId).map (·.turn), { q with inner := q.inner.erase sessionId })

/-- `remove_if(session_id, |_, queue| queue.is_empty())`. -/
def removeIfEmpty (q : DialogTurnQueue T) (sessionId : String) : DialogTurnQueue T :=
  match q.inner.lookup sessionId with
  | some [] => { q with inner := q.inner.erase sessionId }
  | _ => q

/-- `dequeue_next`. -/
def dequeueNext (q : DialogTurnQueue T) (sessionId : String) : Option T × DialogTurnQueue T :=
  match q.inner.lookup sessionId with
  | some (item :: queue) =>
    (some item.turn,
      removeIfEmpty { q with inner := q.inner.insert sessionId queue } sessionId)
  | _ => (none, q.removeIfEmpty sessionId)

/-- `remove_first_matching`. -/
def removeFirstMatching (q : DialogTurnQueue T) (sessionId : String) (predicate : T → Bool) :
    Option T × DialogTurnQueue T :=
  match q.inner.lookup sessionId with
  | some queue =>
    match queue.findIdx? (predicate ·.turn) with
    | some index => (queue[index]?.map (·.turn),
        removeIfEmpty { q with inner := q.inner.insert sessionId (queue.eraseIdx index) } sessionId)
    | none => (none, q.removeIfEmpty sessionId)
  | none => (none, q)

/-- The positions that `reorder_subset` permutes, if the ids are queued and distinct. -/
def positionsOf (queue : List (QueuedDialogTurn T)) (identify : T → Option String) :
    List String → List ℕ → Option (List ℕ)
  | [], positions => some positions
  | id :: ids, positions =>
    match queue.findIdx? (identify ·.turn = some id) with
    | some position =>
      if positions.contains position then none
      else positionsOf queue identify ids (positions ++ [position])
    | none => none

/-- `reorder_subset`. -/
def reorderSubset (q : DialogTurnQueue T) (sessionId : String) (ids : List String)
    (identify : T → Option String) : Bool × DialogTurnQueue T :=
  match q.inner.lookup sessionId with
  | none => (false, q)
  | some queue =>
    match positionsOf queue identify ids [] with
    | none => (false, q)
    | some positions =>
      let entries := positions.filterMap (queue[·]?)
      if entries.any fun entry => (entries.head?.map (·.priority)) != some entry.priority then
        (false, q)
      else
        let turns := entries.map (·.turn)
        let queue := ((positions.mergeSort).zip turns).foldl
          (fun queue (position, turn) => queue.modify position ({ · with turn := turn })) queue
        (true, { q with inner := q.inner.insert sessionId queue })

/-- `requeue_front`: in front of whatever is queued. -/
def requeueFront (q : DialogTurnQueue T) (sessionId : String) (turn : T)
    (priority : DialogQueuePriority) : DialogTurnQueue T :=
  { q with inner := q.inner.insert sessionId (⟨priority, turn⟩ :: q.get sessionId) }

/-! ## The queue of a session after an operation -/

variable {q : DialogTurnQueue T} {sessionId : String}

theorem get_insert (q : DialogTurnQueue T) (queue : List (QueuedDialogTurn T))
    (sessionId session : String) :
    DialogTurnQueue.get { q with inner := q.inner.insert sessionId queue } session =
      if session = sessionId then queue else q.get session := by
  rw [get, AssocMap.lookup_insert]
  split_ifs <;> rfl

theorem get_erase (q : DialogTurnQueue T) (sessionId session : String) :
    DialogTurnQueue.get { q with inner := q.inner.erase sessionId } session =
      if session = sessionId then [] else q.get session := by
  rw [get, AssocMap.lookup_erase]
  split_ifs <;> rfl

@[simp] theorem get_removeIfEmpty (q : DialogTurnQueue T) (sessionId session : String) :
    (q.removeIfEmpty sessionId).get session = q.get session := by
  rw [removeIfEmpty]
  split
  · next hempty =>
    rw [get_erase]
    split_ifs with h
    · rw [h, get, hempty]
      rfl
    · rfl
  · rfl

@[simp] theorem maxDepth_removeIfEmpty (q : DialogTurnQueue T) (sessionId : String) :
    (q.removeIfEmpty sessionId).maxDepth = q.maxDepth := by
  rw [removeIfEmpty]
  split <;> rfl

theorem get_requeueFront (q : DialogTurnQueue T) (sessionId session : String) (turn : T)
    (priority : DialogQueuePriority) : (q.requeueFront sessionId turn priority).get session =
      if session = sessionId then ⟨priority, turn⟩ :: q.get sessionId else q.get session :=
  get_insert _ _ _ _

theorem get_clear (q : DialogTurnQueue T) (sessionId session : String) :
    (q.clear sessionId).2.get session = if session = sessionId then [] else q.get session :=
  get_erase _ _ _

theorem dequeueNext_spec (q : DialogTurnQueue T) (sessionId : String) :
    (q.dequeueNext sessionId).1 = (q.get sessionId).head?.map (·.turn) ∧
      (q.dequeueNext sessionId).2.maxDepth = q.maxDepth ∧
      ∀ session, (q.dequeueNext sessionId).2.get session =
        if session = sessionId then (q.get sessionId).tail else q.get session := by
  rw [dequeueNext, get]
  split
  · next item queue hsome =>
    refine ⟨by simp [hsome], by simp, fun session => ?_⟩
    rw [get_removeIfEmpty, get_insert, hsome]
    rfl
  · next hnot =>
    have hnil : (q.inner.lookup sessionId).getD [] = [] := by
      cases hlookup : q.inner.lookup sessionId with
      | none => rfl
      | some queue =>
        cases queue with
        | nil => rfl
        | cons item queue => exact absurd hlookup (hnot item queue)
    refine ⟨by simp [hnil], by simp, fun session => ?_⟩
    rw [get_removeIfEmpty, hnil]
    split_ifs with h
    · rw [h]
      exact hnil
    · rfl

theorem removeFirstMatching_spec (q : DialogTurnQueue T) (sessionId : String)
    (predicate : T → Bool) :
    (q.removeFirstMatching sessionId predicate).1 =
        ((q.get sessionId).find? (predicate ·.turn)).map (·.turn) ∧
      (q.removeFirstMatching sessionId predicate).2.maxDepth = q.maxDepth ∧
      ∀ session, (q.removeFirstMatching sessionId predicate).2.get session =
        if session = sessionId then (q.get sessionId).eraseP (predicate ·.turn)
        else q.get session := by
  cases hlookup : q.inner.lookup sessionId with
  | none =>
    have hnil : q.get sessionId = [] := by
      rw [get, hlookup]
      rfl
    rw [removeFirstMatching, hlookup, hnil]
    refine ⟨rfl, rfl, fun session => ?_⟩
    split_ifs with h
    · rw [h, hnil]
      rfl
    · rfl
  | some queue =>
    have hget : q.get sessionId = queue := by
      rw [get, hlookup]
      rfl
    rw [removeFirstMatching, hlookup, hget]
    simp only
    cases hindex : queue.findIdx? (predicate ·.turn) with
    | none =>
      have hnot := findIdx?_eq_none_iff.1 hindex
      refine ⟨?_, by simp, fun session => ?_⟩
      · rw [find?_eq_none.2 (by simpa using hnot)]
        rfl
      · rw [get_removeIfEmpty]
        split_ifs with h
        · rw [h, hget, eraseP_eq_self_iff.2 (by simpa using hnot)]
        · rfl
    | some index =>
      refine ⟨?_, by simp, fun session => ?_⟩
      · obtain ⟨hlt, hmatch, hbefore⟩ := findIdx?_eq_some_iff_getElem.1 hindex
        have hfind : queue.find? (predicate ·.turn) = some queue[index] :=
          find?_eq_some_iff_getElem.2 ⟨hmatch, index, hlt, rfl, by simpa using hbefore⟩
        simp only [hfind, getElem?_eq_getElem hlt]
      · rw [get_removeIfEmpty, get_insert, eraseP_eq_eraseIdx, hindex]

/-- `remove_first_matching` takes one turn out, or there is none that matches. -/
theorem removeFirstMatching_cases (q : DialogTurnQueue T) (sessionId : String)
    (predicate : T → Bool) :
    (∃ q', q.removeFirstMatching sessionId predicate = (none, q') ∧
        (∀ session, q'.get session = q.get session) ∧
        ∀ item ∈ q.get sessionId, ¬predicate item.turn) ∨
      ∃ q' front item back, q.removeFirstMatching sessionId predicate = (some item.turn, q') ∧
        q.get sessionId = front ++ item :: back ∧ (∀ x ∈ front, ¬predicate x.turn) ∧
        predicate item.turn ∧
        ∀ session, q'.get session = if session = sessionId then front ++ back else q.get session := by
  obtain ⟨hturn, -, hget⟩ := q.removeFirstMatching_spec sessionId predicate
  cases hfind : (q.get sessionId).find? (predicate ·.turn) with
  | none =>
    have hnot := find?_eq_none.1 hfind
    refine .inl ⟨_, Prod.ext (hturn.trans (by rw [hfind]; rfl)) rfl, fun session => ?_, hnot⟩
    rw [hget]
    split_ifs with h
    · rw [h, eraseP_eq_self_iff.2 hnot]
    · rfl
  | some item =>
    obtain ⟨hmatch, front, back, hsplit, hfront⟩ := find?_eq_some_iff_append.1 hfind
    refine .inr ⟨_, front, item, back, Prod.ext (hturn.trans (by rw [hfind]; rfl)) rfl, hsplit,
      fun x hx => by simpa using hfront x hx, hmatch, fun session => ?_⟩
    rw [hget, hsplit, eraseP_append_right _ (fun x hx => by simpa using hfront x hx),
      eraseP_cons_of_pos (p := fun x : QueuedDialogTurn T => predicate x.turn) hmatch]

/-- `dequeue_next` takes the first turn, if there is one. -/
theorem dequeueNext_cases (q : DialogTurnQueue T) (sessionId : String) :
    (∃ q', q.dequeueNext sessionId = (none, q') ∧ (∀ session, q'.get session = q.get session) ∧
        q.get sessionId = []) ∨
      ∃ q' item back, q.dequeueNext sessionId = (some item.turn, q') ∧
        q.get sessionId = item :: back ∧
        ∀ session, q'.get session = if session = sessionId then back else q.get session := by
  obtain ⟨hturn, -, hget⟩ := q.dequeueNext_spec sessionId
  cases hqueue : q.get sessionId with
  | nil =>
    refine .inl ⟨_, Prod.ext (hturn.trans (by rw [hqueue]; rfl)) rfl, fun session => ?_, rfl⟩
    rw [hget, hqueue]
    split_ifs with h
    · rw [h, hqueue]
      rfl
    · rfl
  | cons item back =>
    refine .inr ⟨_, item, back, Prod.ext (hturn.trans (by rw [hqueue]; rfl)) rfl, rfl,
      fun session => ?_⟩
    rw [hget, hqueue]
    rfl

theorem insertByPriority_eq (queue : List (QueuedDialogTurn T)) (queued : QueuedDialogTurn T) :
    insertByPriority queue queued =
      queue.takeWhile (queued.priority.rank ≤ ·.priority.rank) ++
        queued :: queue.dropWhile (queued.priority.rank ≤ ·.priority.rank) := by
  rw [insertByPriority]
  induction queue with
  | nil => rfl
  | cons item queue ih =>
    rw [findIdx?_cons]
    by_cases hlt : item.priority.rank < queued.priority.rank
    · simp [hlt]
    · have hle : queued.priority.rank ≤ item.priority.rank := by omega
      rw [takeWhile_cons, dropWhile_cons]
      simp only [hlt, hle, decide_true, decide_false, if_true, cons_append, Bool.false_eq_true,
        if_false]
      rw [← ih]
      cases queue.findIdx? (·.priority.rank < queued.priority.rank) <;> rfl

theorem insertByPriority_perm (queue : List (QueuedDialogTurn T)) (queued : QueuedDialogTurn T) :
    (insertByPriority queue queued).Perm (queued :: queue) := by
  rw [insertByPriority_eq]
  refine perm_middle.trans ?_
  rw [takeWhile_append_dropWhile]

theorem enqueue_spec (q : DialogTurnQueue T) (sessionId : String) (turn : T)
    (priority : DialogQueuePriority) :
    (q.enqueue sessionId turn priority).1 = (if q.maxDepth ≤ q.depth sessionId then
        .error (.full sessionId q.maxDepth) else .ok (q.depth sessionId + 1)) ∧
      (q.enqueue sessionId turn priority).2.maxDepth = q.maxDepth ∧
      ∀ session, (q.enqueue sessionId turn priority).2.get session =
        if session = sessionId ∧ q.depth sessionId < q.maxDepth then
          insertByPriority (q.get sessionId) ⟨priority, turn⟩ else q.get session := by
  have hlen : (insertByPriority (q.get sessionId) ⟨priority, turn⟩).length =
      q.depth sessionId + 1 := by
    rw [insertByPriority_eq, length_append, length_cons, ← Nat.add_assoc,
      ← length_append, takeWhile_append_dropWhile, depth]
  by_cases hfull : q.maxDepth ≤ q.depth sessionId
  · have heq : q.enqueue sessionId turn priority = (.error (.full sessionId q.maxDepth),
        { q with inner := q.inner.insert sessionId (q.get sessionId) }) := if_pos hfull
    rw [heq, if_pos hfull]
    refine ⟨rfl, rfl, fun session => ?_⟩
    rw [get_insert, if_neg (not_and_of_not_right _ (Nat.not_lt.2 hfull))]
    split_ifs with h
    · rw [h]
    · rfl
  · have heq : q.enqueue sessionId turn priority =
        (.ok (insertByPriority (q.get sessionId) ⟨priority, turn⟩).length, { q with
          inner := q.inner.insert sessionId
            (insertByPriority (q.get sessionId) ⟨priority, turn⟩) }) := if_neg hfull
    rw [heq, if_neg hfull, hlen]
    refine ⟨rfl, rfl, fun session => ?_⟩
    simp only [get_insert, Nat.lt_of_not_le hfull, and_true]

/-! ### Reordering -/

/-- The positions are those of the first turns with the ids, and distinct. -/
theorem positionsOf_spec (queue : List (QueuedDialogTurn T)) (identify : T → Option String)
    (ids : List String) : ∀ {acc positions : List ℕ},
    positionsOf queue identify ids acc = some positions →
      ∃ new, positions = acc ++ new ∧
        List.Forall₂ (fun id i => queue.findIdx? (identify ·.turn = some id) = some i) ids new ∧
          (acc.Nodup → positions.Nodup) := by
  induction ids with
  | nil =>
    rintro acc positions ⟨⟩
    exact ⟨[], (append_nil acc).symm, .nil, id⟩
  | cons id ids ih =>
    intro acc positions h
    rw [positionsOf] at h
    split at h
    · next i hi =>
      split_ifs at h with hin
      obtain ⟨new, heq, hall, hnodup⟩ := ih h
      refine ⟨i :: new, by rw [heq, append_assoc]; rfl, .cons hi hall, fun hacc => ?_⟩
      refine hnodup (nodup_append.2 ⟨hacc, nodup_singleton i, ?_⟩)
      rintro j hj _ hi' rfl
      rw [mem_singleton] at hi'
      rw [hi'] at hj
      exact hin (contains_iff_mem.2 hj)
    · cases h

/-- The turns whose ids are reordered. -/
def selects (identify : T → Option String) (ids : List String) (item : QueuedDialogTurn T) : Bool :=
  (identify item.turn).any ids.contains

theorem selects_iff {identify : T → Option String} {ids : List String} {item : QueuedDialogTurn T} :
    selects identify ids item ↔ ∃ id ∈ ids, identify item.turn = some id := by
  rw [selects, Option.any_eq_true]
  constructor
  · rintro ⟨id, hid, hmem⟩
    exact ⟨id, contains_iff_mem.1 hmem, hid⟩
  · rintro ⟨id, hmem, hid⟩
    exact ⟨id, hid, contains_iff_mem.2 hmem⟩

/-- The turns at the positions that were found. -/
theorem identify_found {queue : List (QueuedDialogTurn T)} {identify : T → Option String}
    {ids : List String} {found : List ℕ}
    (h : List.Forall₂ (fun id i => queue.findIdx? (identify ·.turn = some id) = some i) ids found) :
    (found.filterMap (queue[·]?)).map (fun item => identify item.turn) = ids.map some := by
  induction h with
  | nil => rfl
  | cons hi _ ih =>
    obtain ⟨hlt, hmatch, -⟩ := findIdx?_eq_some_iff_getElem.1 hi
    rw [filterMap_cons_some (getElem?_eq_getElem hlt), map_cons, map_cons, ih]
    rw [of_decide_eq_true hmatch]

/-- Sorted, they are the positions of the turns with the ids. -/
theorem found_perm {queue : List (QueuedDialogTurn T)} {identify : T → Option String}
    {ids : List String} {found : List ℕ}
    (hunique : ∀ id ∈ ids, queue.countP (identify ·.turn = some id) ≤ 1)
    (h : List.Forall₂ (fun id i => queue.findIdx? (identify ·.turn = some id) = some i) ids found)
    (hnodup : found.Nodup) : found.Perm (positions (selects identify ids) queue) := by
  refine (perm_ext_iff_of_nodup hnodup ((positions_pairwise _).imp Nat.ne_of_lt)).2 fun i => ?_
  rw [mem_positions]
  constructor
  · intro hi
    obtain ⟨id, hid, hfind⟩ := exists_left_of_forall₂ h hi
    obtain ⟨hlt, hmatch, -⟩ := findIdx?_eq_some_iff_getElem.1 hfind
    exact ⟨_, getElem?_eq_getElem hlt, selects_iff.2 ⟨id, hid, of_decide_eq_true hmatch⟩⟩
  · rintro ⟨item, hitem, hselects⟩
    obtain ⟨id, hid, hmatch⟩ := selects_iff.1 hselects
    obtain ⟨j, hj, hfind⟩ := exists_right_of_forall₂ h hid
    obtain ⟨hlt, hmatch', -⟩ := findIdx?_eq_some_iff_getElem.1 hfind
    -- only one turn has the id
    rw [position_unique (hunique id hid) hitem (getElem?_eq_getElem hlt) (by simpa using hmatch)
      hmatch']
    exact hj

/-- Turns of one priority that are written over turns of that priority. -/
theorem zipWith_turn {priority : DialogQueuePriority} :
    ∀ {entries items : List (QueuedDialogTurn T)}, entries.length = items.length →
      (∀ item ∈ entries, item.priority = priority) → (∀ item ∈ items, item.priority = priority) →
        List.zipWith (fun turn (item : QueuedDialogTurn T) => { item with turn })
          (entries.map (·.turn)) items = entries
  | [], _, _, _, _ => rfl
  | entry :: entries, item :: items, hlength, hentries, hitems => by
    rw [forall_mem_cons] at hentries hitems
    rw [map_cons, zipWith_cons_cons,
      zipWith_turn (Nat.succ.inj hlength) hentries.2 hitems.2, hitems.1, ← hentries.1]

/-- The check of `reorder_subset` that all turns have the priority of the first. -/
theorem exists_lane {entries : List (QueuedDialogTurn T)}
    (h : (entries.any fun entry => (entries.head?.map (·.priority)) != some entry.priority) =
      false) : ∃ priority, ∀ item ∈ entries, item.priority = priority := by
  cases hhead : entries.head? with
  | none =>
    rw [head?_eq_none_iff.1 hhead]
    exact ⟨.low, by simp⟩
  | some first =>
    refine ⟨first.priority, fun item hitem => ?_⟩
    have hsame := any_eq_false.1 h item hitem
    rw [hhead, Option.map_some, bne_iff_ne, not_not] at hsame
    exact (Option.some.inj hsame).symm

/-- `reorder_subset` leaves the queues of other sessions alone. -/
theorem reorderSubset_get_ne (q : DialogTurnQueue T) (sessionId : String) (ids : List String)
    (identify : T → Option String) {session : String} (hne : session ≠ sessionId) :
    (q.reorderSubset sessionId ids identify).2.get session = q.get session := by
  rw [reorderSubset]
  cases q.inner.lookup sessionId with
  | none => rfl
  | some queue =>
    simp only
    cases positionsOf queue identify ids [] with
    | none => rfl
    | some found =>
      simp only
      split_ifs
      · rfl
      · exact (get_insert _ _ _ _).trans (if_neg hne)

/-- `reorder_subset`, where no other queued turn has one of the ids: it changes nothing, or
overwrites the turns with the ids by the same turns in the new order. -/
theorem reorderSubset_spec (q : DialogTurnQueue T) (sessionId : String) (ids : List String)
    (identify : T → Option String)
    (hunique : ∀ id ∈ ids, (q.get sessionId).countP (identify ·.turn = some id) ≤ 1) :
    (q.reorderSubset sessionId ids identify).2.maxDepth = q.maxDepth ∧
      ((q.reorderSubset sessionId ids identify).1 = false →
        (q.reorderSubset sessionId ids identify).2 = q) ∧
      ((q.reorderSubset sessionId ids identify).1 = true → ∃ turns,
        turns.map identify = ids.map some ∧
        turns.length = (q.get sessionId).countP (selects identify ids) ∧
        (overwrite (selects identify ids) (fun turn item => { item with turn })
          (q.get sessionId) turns).Perm (q.get sessionId) ∧
        ∀ session, (q.reorderSubset sessionId ids identify).2.get session =
          if session = sessionId then
            overwrite (selects identify ids) (fun turn item => { item with turn })
              (q.get sessionId) turns
          else q.get session) := by
  rw [reorderSubset]
  cases hlookup : q.inner.lookup sessionId with
  | none => exact ⟨rfl, fun _ => rfl, by rintro ⟨⟩⟩
  | some queue =>
    have hget : q.get sessionId = queue := by
      rw [get, hlookup]
      rfl
    simp only
    cases hpositions : positionsOf queue identify ids [] with
    | none => exact ⟨rfl, fun _ => rfl, by rintro ⟨⟩⟩
    | some found =>
      simp only
      split_ifs with hpriority
      · exact ⟨rfl, fun _ => rfl, by rintro ⟨⟩⟩
      refine ⟨rfl, (by rintro ⟨⟩), fun _ => ?_⟩
      rw [hget] at hunique ⊢
      obtain ⟨_, rfl, hall, hnodup⟩ := positionsOf_spec queue identify ids hpositions
      replace hnodup := hnodup nodup_nil
      have hperm := found_perm hunique hall hnodup
      have hsorted : found.mergeSort = positions (selects identify ids) queue := by
        refine ((mergeSort_perm _ _).trans hperm).eq_of_pairwise' (r := (· ≤ ·)) ?_
          ((positions_pairwise _).imp Nat.le_of_lt)
        refine (pairwise_mergeSort (fun a b c hab hbc => ?_) (fun a b => ?_) found).imp
          of_decide_eq_true
        · simp only [decide_eq_true_eq] at hab hbc ⊢
          exact hab.trans hbc
        · simpa using Nat.le_total a b
      -- the turns at the positions, which all have one priority
      set entries := found.filterMap (queue[·]?) with hentries
      have hselected : entries.Perm (queue.filter (selects identify ids)) :=
        filterMap_positions queue ▸ hperm.filterMap _
      refine ⟨entries.map (·.turn), ?_, ?_, ?_, fun session => ?_⟩
      · rw [map_map]
        exact identify_found hall
      · rw [length_map, hselected.length_eq, countP_eq_length_filter]
      · obtain ⟨priority, hentries⟩ := exists_lane (Bool.eq_false_iff.2 hpriority)
        refine (overwrite_perm queue _ (by
          rw [length_map, hselected.length_eq, countP_eq_length_filter])).trans ?_
        rw [zipWith_turn hselected.length_eq hentries
          fun item hitem => hentries item (hselected.mem_iff.2 hitem)]
        exact (hselected.append_right _).trans (filter_append_perm _ queue)
      · have hfold := foldl_modify_positions (p := selects identify ids)
          (g := fun (turn : T) (item : QueuedDialogTurn T) => { item with turn }) queue
          (entries.map (·.turn))
        rw [hsorted]
        exact (get_insert _ _ _ _).trans (by rw [hfold])

/-- The queue after a reordering of the turns that were found under the ids. -/
structure Reorders (identify : T → Option String) (ids : List String)
    (queue queue' : List (QueuedDialogTurn T)) (found : List ℕ) : Prop where
  /-- The slots are those of the first turns with the ids. -/
  first : List.Forall₂ (fun id i => queue.findIdx? (identify ·.turn = some id) = some i) ids found
  nodup : found.Nodup
  /-- They are in one lane. -/
  lane : ∃ priority, ∀ i ∈ found, (queue[i]?).map (·.priority) = some priority
  perm : queue'.Perm queue
  priorities : queue'.map (·.priority) = queue.map (·.priority)
  /-- The other slots hold what they held. -/
  frame : ∀ i ∉ found, queue'[i]? = queue[i]?
  /-- From front to back the slots hold the turns in the order of the ids. -/
  order : ∀ slots : List ℕ, slots.Perm found → slots.Pairwise (· < ·) →
    (slots.filterMap (queue'[·]?)).map (·.turn) = (found.filterMap (queue[·]?)).map (·.turn)

theorem map_turn_zipWith :
    ∀ {turns : List T} {items : List (QueuedDialogTurn T)}, turns.length = items.length →
      (List.zipWith (fun turn (item : QueuedDialogTurn T) => { item with turn }) turns items).map
        (·.turn) = turns
  | [], _, _ => by rw [zipWith_nil_left, map_nil]
  | turn :: turns, item :: items, hlength => by
    rw [zipWith_cons_cons, map_cons, map_turn_zipWith (Nat.succ.inj hlength)]

/-- Writing the turns that were found to the slots, from front to back. -/
theorem reorders_writeAt {queue : List (QueuedDialogTurn T)} {identify : T → Option String}
    {ids : List String} {found : List ℕ}
    (hfirst : List.Forall₂ (fun id i => queue.findIdx? (identify ·.turn = some id) = some i)
      ids found) (hnodup : found.Nodup) {priority : DialogQueuePriority}
    (hlane : ∀ item ∈ found.filterMap (queue[·]?), item.priority = priority) :
    Reorders identify ids queue (writeAt (fun turn item => { item with turn }) queue
      found.mergeSort ((found.filterMap (queue[·]?)).map (·.turn))) found := by
  have hlt : ∀ i ∈ found, i < queue.length := by
    intro i hi
    obtain ⟨id, -, hfind⟩ := exists_left_of_forall₂ hfirst hi
    exact (findIdx?_eq_some_iff_getElem.1 hfind).1
  have hlength : (found.filterMap (queue[·]?)).length = found.length := by
    have hmap : found.map (queue[·]?) = (found.filterMap (queue[·]?)).map some := by
      rw [map_filterMap_some_eq_filter_map_isSome, filter_eq_self.2]
      intro x hx
      obtain ⟨i, hi, rfl⟩ := mem_map.1 hx
      rw [getElem?_eq_getElem (hlt i hi)]
      rfl
    rw [← @List.length_map _ _ (found.filterMap (queue[·]?)) some, ← hmap, length_map]
  have hsorted := mergeSort_perm found fun a b => decide (a ≤ b)
  have hslots : (found.mergeSort).length = ((found.filterMap (queue[·]?)).map (·.turn)).length := by
    rw [hsorted.length_eq, length_map, hlength]
  have hselected := hsorted.filterMap (queue[·]?)
  have hwritten := @filterMap_writeAt _ _ (fun (turn : T) (item : QueuedDialogTurn T) =>
    { item with turn }) _ queue _ (hsorted.nodup_iff.2 hnodup) hslots
    fun i hi => hlt i (hsorted.mem_iff.1 hi)
  refine ⟨hfirst, hnodup, ⟨priority, fun i hi => ?_⟩, ?_, ?_,
    fun i hi => getElem?_writeAt_of_not_mem _ _ _ fun hmem => hi (hsorted.mem_iff.1 hmem), ?_⟩
  · have hitem := getElem?_eq_getElem (hlt i hi)
    rw [hitem, Option.map_some, hlane _ (mem_filterMap.2 ⟨i, hi, hitem⟩)]
  · apply writeAt_perm (hsorted.nodup_iff.2 hnodup) hslots
      fun i hi => hlt i (hsorted.mem_iff.1 hi)
    -- the entries are in one lane, so they are overwritten by each other
    rw [zipWith_turn hselected.length_eq.symm hlane fun item hitem =>
      hlane item (hselected.mem_iff.1 hitem)]
    exact hselected.symm
  · apply map_writeAt
    exact fun _ _ => rfl
  · intro slots hperm hincreasing
    have hslots : slots = found.mergeSort := by
      refine (hperm.trans hsorted.symm).eq_of_pairwise' (r := (· ≤ ·))
        (hincreasing.imp Nat.le_of_lt) ?_
      refine (pairwise_mergeSort (fun a b c hab hbc => ?_) (fun a b => ?_) found).imp
        of_decide_eq_true
      · simp only [decide_eq_true_eq] at hab hbc ⊢
        exact hab.trans hbc
      · simpa using Nat.le_total a b
    rw [hslots, hwritten]
    apply map_turn_zipWith
    rw [length_map, hselected.length_eq]

/-- `reorder_subset` changes nothing, or it reorders the turns with the ids in their slots. -/
theorem reorderSubset_all_or_nothing (q : DialogTurnQueue T) (sessionId : String)
    (ids : List String) (identify : T → Option String) :
    ((q.reorderSubset sessionId ids identify).1 = false →
      (q.reorderSubset sessionId ids identify).2 = q) ∧
    ((q.reorderSubset sessionId ids identify).1 = true →
      (∃ found, Reorders identify ids (q.get sessionId)
        ((q.reorderSubset sessionId ids identify).2.get sessionId) found) ∧
      (q.reorderSubset sessionId ids identify).2.maxDepth = q.maxDepth ∧
      ∀ session ≠ sessionId,
        (q.reorderSubset sessionId ids identify).2.get session = q.get session) := by
  have hother := fun session => @reorderSubset_get_ne T q sessionId ids identify session
  rw [reorderSubset] at hother ⊢
  cases hlookup : q.inner.lookup sessionId with
  | none => exact ⟨fun _ => rfl, by rintro ⟨⟩⟩
  | some queue =>
    have hget : q.get sessionId = queue := by
      rw [get, hlookup]
      rfl
    simp only [hlookup] at hother ⊢
    cases hpositions : positionsOf queue identify ids [] with
    | none => exact ⟨fun _ => rfl, by rintro ⟨⟩⟩
    | some found =>
      simp only [hpositions] at hother ⊢
      split_ifs with hpriority
      · exact ⟨fun _ => rfl, by rintro ⟨⟩⟩
      rw [if_neg hpriority] at hother
      refine ⟨(by rintro ⟨⟩), fun _ => ⟨⟨found, ?_⟩, rfl, hother⟩⟩
      obtain ⟨_, rfl, hfirst, hnodup⟩ := positionsOf_spec queue identify ids hpositions
      obtain ⟨priority, hlane⟩ := exists_lane (Bool.eq_false_iff.2 hpriority)
      have hreorders := reorders_writeAt hfirst (hnodup nodup_nil) hlane
      rw [hget]
      convert hreorders using 1
      exact (get_insert _ _ _ _).trans (if_pos rfl)

end DialogTurnQueue

end OpenBitFun
