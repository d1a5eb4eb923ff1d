import OpenBitFun.SummaryQueueOperations

/-!
# The safety invariant of the summary queue

What the callers hold matches the queue: every slot belongs to a reserved entry or to one live
permit, and every entry to a live ticket. `World.Move` lists what each operation can do from such
a state; the invariant is then kept move by move, and holds of every reachable state.
-/

namespace OpenBitFun

open List

namespace SummaryQueue

variable {τ : Type} {q : RouterSummaryQueue} {s s' : QueueState τ} {w w' : World τ}

/-! ## Tickets and permits -/

/-- What the callers hold matches the queue: entries have live tickets, slots belong to reserved
entries or to live permits. -/
structure World.Held (w : World τ) : Prop where
  /-- The ticket of an entry is live. -/
  ticket_of_entry : ∀ id e, w.queue.entries.lookup id = some e → id ∈ w.tickets
  /-- Live tickets were issued. -/
  ticket_lt : ∀ id ∈ w.tickets, id < w.queue.nextId
  /-- No ticket is issued twice. -/
  tickets_nodup : w.tickets.Nodup
  /-- A live permit holds its session's slot, and its entry is consumed. -/
  permit_active : ∀ sessionId id, (sessionId, id) ∈ w.permits →
    (∃ root, w.queue.active.lookup sessionId = some (id, root)) ∧
      w.queue.entries.lookup id = none ∧ id < w.queue.nextId
  /-- Every slot is accounted for. -/
  active_owned : ∀ sessionId id root, w.queue.active.lookup sessionId = some (id, root) →
    (∃ e, w.queue.entries.lookup id = some e ∧ e.reserved = true ∧ e.sessionId = sessionId) ∨
      (sessionId, id) ∈ w.permits
  /-- No permit is held twice. -/
  permits_nodup : w.permits.Nodup

/-- Granting slots changes nothing the callers hold. -/
theorem World.Held.granted {tickets : List ℕ} {permits : List (String × ℕ)}
    (h : World.Held ⟨s, tickets, permits⟩) (hg : s.Granted s') :
    World.Held ⟨s', tickets, permits⟩ where
  ticket_of_entry id e he := by
    rcases hg.entries id with heq | ⟨e', he', -, -⟩
    · exact h.ticket_of_entry id e (heq ▸ he)
    · exact h.ticket_of_entry id e' he'
  ticket_lt id hid := by
    rw [hg.nextId_eq]
    exact h.ticket_lt id hid
  tickets_nodup := h.tickets_nodup
  permit_active sessionId id hp := by
    obtain ⟨⟨root, hactive⟩, hnone, hlt⟩ := h.permit_active sessionId id hp
    refine ⟨⟨root, hg.active_old _ _ hactive⟩, ?_, by rw [hg.nextId_eq]; exact hlt⟩
    rcases hg.entries id with heq | ⟨e', he', -, -⟩
    · exact heq.trans hnone
    · rw [hnone] at he'
      cases he'
  active_owned sessionId id root hactive := by
    rcases hg.active_new sessionId id root hactive with hactive | hentry
    · rcases h.active_owned sessionId id root hactive with ⟨e, he, hres, hs⟩ | hp
      · exact Or.inl ⟨e, hg.reserved he hres, hres, hs⟩
      · exact Or.inr hp
    · exact Or.inl hentry
  permits_nodup := h.permits_nodup

/-- **The invariant of every reachable state.** -/
structure World.Inv (q : RouterSummaryQueue) (w : World τ) : Prop where
  /-- The collections agree. -/
  wf : w.queue.WF
  /-- The concurrency is respected. -/
  active_le : AssocMap.size w.queue.active ≤ q.concurrency
  /-- No slot is left unused. -/
  conserving : w.queue.Conserving q
  /-- The waiting bounds. -/
  bounded : w.queue.Bounded q
  /-- The callers' side. -/
  held : w.Held

/-- A dispatch from a state that satisfies all but work conservation restores the invariant. -/
theorem World.Inv.of_dispatch {tickets : List ℕ} {permits : List (String × ℕ)}
    {ds : List (Dispatch τ)} (hall : s.DispatchedAll q.concurrency ds s')
    (hle : AssocMap.size s.active ≤ q.concurrency) (hb : s'.Bounded q)
    (hheld : World.Held ⟨s, tickets, permits⟩) : World.Inv q ⟨s', tickets, permits⟩ where
  wf := hall.wf
  active_le := hall.active_le hle
  conserving := hall.conserving
  bounded := hb
  held := hheld.granted hall.granted

theorem World.Inv.new (q : RouterSummaryQueue) : World.Inv q (World.new : World τ) where
  wf :=
    { waiting_nodup := nodup_nil
      mem_waiting := by simp [World.new, QueueState.new]
      pending_iff := by simp [World.new, QueueState.new]
      reserved_active := by simp [World.new, QueueState.new]
      roots_nodup := nodup_nil
      mem_roots := by simp [World.new, QueueState.new]
      id_lt := by simp [World.new, QueueState.new] }
  active_le := Nat.zero_le _
  conserving := by
    rintro - root ⟨id, e, hrun, -⟩
    simp [QueueState.Runnable, World.new, QueueState.new] at hrun
  bounded := ⟨Nat.zero_le _, fun _ => Nat.zero_le _⟩
  held :=
    { ticket_of_entry := by simp [World.new, QueueState.new]
      ticket_lt := by simp [World.new]
      tickets_nodup := nodup_nil
      permit_active := by simp [World.new]
      active_owned := by simp [World.new, QueueState.new]
      permits_nodup := nodup_nil }

/-! ## The moves -/

/-- What each operation does in a state that satisfies the invariant. -/
inductive World.Move (q : RouterSummaryQueue) (w : World τ) :
    Event τ → World τ × Answer τ × List (Dispatch τ) → Prop
  /-- The queue is full. -/
  | refused (rootSessionId sessionId : String) (work : τ) :
      Move q w (.submitFor rootSessionId sessionId work) (w, .submitted (.error .full), [])
  /-- The work is admitted under a new ticket. -/
  | admitted (rootSessionId sessionId : String) (work : τ) (s₁ s' : QueueState τ)
      (ds : List (Dispatch τ)) :
      w.queue.Admitted (w.queue.admittedRoot rootSessionId sessionId) sessionId work s₁ →
      (w.queue.pendingBySession.lookup sessionId = none →
        ¬(AssocMap.size w.queue.active < q.concurrency ∧
          w.queue.active.lookup sessionId = none) →
        w.queue.waiting.length < q.maxPendingSessions ∧
          w.queue.rootWaiting (w.queue.admittedRoot rootSessionId sessionId) <
            q.maxPendingPerRoot) →
      s₁.DispatchedAll q.concurrency ds s' →
      Move q w (.submitFor rootSessionId sessionId work)
        ({ w with queue := s', tickets := w.tickets ++ [w.queue.nextId] },
          .submitted (.ok w.queue.nextId), ds)
  /-- The handle's work is consumed, superseded or dropped. -/
  | stale (id : ℕ) (work : τ) : w.queue.entries.lookup id = none →
      Move q w (.update id work) (w, .updated false, [])
  /-- The handle's work is replaced. -/
  | updated (id : ℕ) (work : τ) (e : Entry τ) : w.queue.entries.lookup id = some e →
      Move q w (.update id work)
        ({ w with queue := { w.queue with
            entries := w.queue.entries.insert id { e with work := work } } }, .updated true, [])
  /-- The ticket still waits for a slot. -/
  | pending (id : ℕ) (e : Entry τ) : w.queue.entries.lookup id = some e → e.reserved = false →
      Move q w (.start id) (w, .polled .pending, [])
  /-- The ticket's entry is gone. -/
  | superseded (id : ℕ) : w.queue.entries.lookup id = none →
      Move q w (.start id) ({ w with tickets := w.tickets.erase id }, .polled .superseded, [])
  /-- The ticket takes its work and becomes a permit. -/
  | started (id : ℕ) (e : Entry τ) : w.queue.entries.lookup id = some e → e.reserved = true →
      Move q w (.start id)
        (⟨w.queue.forget id e, w.tickets.erase id, w.permits ++ [(e.sessionId, id)]⟩,
          .polled (.started e.work e.sessionId), [])
  /-- A superseded ticket is dropped. -/
  | droppedStale (id : ℕ) : w.queue.entries.lookup id = none →
      Move q w (.dropTicket id) ({ w with tickets := w.tickets.erase id }, .dropped, [])
  /-- A ticket with a slot is dropped. -/
  | droppedReserved (id : ℕ) (e : Entry τ) (s' : QueueState τ) (ds : List (Dispatch τ)) :
      w.queue.entries.lookup id = some e → e.reserved = true →
      QueueState.DispatchedAll q.concurrency
        { w.queue.forget id e with active := w.queue.active.erase e.sessionId } ds s' →
      Move q w (.dropTicket id)
        ({ w with queue := s', tickets := w.tickets.erase id }, .dropped, ds)
  /-- A waiting ticket is dropped. -/
  | droppedWaiting (id : ℕ) (e : Entry τ) (s' : QueueState τ) (ds : List (Dispatch τ)) :
      w.queue.entries.lookup id = some e → e.reserved = false →
      (w.queue.unqueue id e).DispatchedAll q.concurrency ds s' →
      Move q w (.dropTicket id)
        ({ w with queue := s', tickets := w.tickets.erase id }, .dropped, ds)
  /-- A permit is dropped; the slot is always its own. -/
  | released (sessionId : String) (id : ℕ) (s' : QueueState τ) (ds : List (Dispatch τ)) :
      QueueState.DispatchedAll q.concurrency
        { w.queue with active := w.queue.active.erase sessionId } ds s' →
      Move q w (.dropPermit sessionId id)
        ({ w with queue := s', permits := w.permits.erase (sessionId, id) }, .dropped, ds)

/-- The slot of a live permit can be given back. -/
theorem World.Inv.release_wf (h : w.Inv q) {sessionId : String} {id : ℕ}
    (hp : (sessionId, id) ∈ w.permits) :
    QueueState.WF { w.queue with active := w.queue.active.erase sessionId } := by
  obtain ⟨⟨root, hactive⟩, hnone, -⟩ := h.held.permit_active sessionId id hp
  refine h.wf.release ?_
  intro id' e he hs
  by_contra hres
  have hown := h.wf.reserved_active id' e he (by simpa using hres)
  rw [hs, hactive] at hown
  cases hown
  rw [hnone] at he
  cases he

/-- **Every enabled operation is a move**, and only a submission with no ticket id left can fail. -/
theorem World.Inv.step_spec (h : w.Inv q) (ev : Event τ) (hen : w.Enabled ev) :
    (w.step q ev = none ∧ ¬w.queue.nextId + 1 < 2 ^ 64) ∨
    ∃ r, w.step q ev = some r ∧ w.Move q ev r := by
  cases ev with
  | submitFor rootSessionId sessionId work =>
    rcases h.wf.submitFor_spec q rootSessionId sessionId work with ⟨hnone, hid⟩ | ⟨r, hr, hs⟩
    · exact Or.inl ⟨by simp [World.step, hnone], hid⟩
    · cases hs with
      | full => exact Or.inr ⟨_, by simp only [World.step, hr]; rfl, .refused _ _ _⟩
      | admitted s₁ s' ds ha hroom hall =>
        exact Or.inr ⟨_, by simp only [World.step, hr]; rfl,
          .admitted _ _ _ s₁ s' ds ha hroom hall⟩
  | update id work =>
    right
    rcases he : w.queue.entries.lookup id with _ | e
    · exact ⟨_, by simp only [World.step, QueueState.update, he], .stale id work he⟩
    · exact ⟨_, by simp only [World.step, QueueState.update, he], .updated id work e he⟩
  | start id =>
    right
    rcases he : w.queue.entries.lookup id with _ | e
    · exact ⟨_, by simp only [World.step, QueueState.start, he], .superseded id he⟩
    · rcases hres : e.reserved with _ | _
      · exact ⟨_, by simp [World.step, QueueState.start, he, hres], .pending id e he hres⟩
      · exact ⟨_, by simp only [World.step, QueueState.start, he, hres, if_true]; rfl,
          .started id e he hres⟩
  | dropTicket id =>
    right
    rcases he : w.queue.entries.lookup id with _ | e
    · exact ⟨_, by simp only [World.step, QueueState.cancel, he]; rfl, .droppedStale id he⟩
    · obtain ⟨s₁, s', ds, hcancel, -, hall, ⟨hres, rfl⟩ | ⟨hres, rfl⟩⟩ := h.wf.cancel_spec q he
      · exact ⟨_, by simp only [World.step, hcancel]; rfl, .droppedReserved id e s' ds he hres hall⟩
      · exact ⟨_, by simp only [World.step, hcancel]; rfl, .droppedWaiting id e s' ds he hres hall⟩
  | dropPermit sessionId id =>
    right
    obtain ⟨⟨root, hactive⟩, -, -⟩ := h.held.permit_active sessionId id hen
    have hwf := h.release_wf hen
    obtain ⟨s', ds, hdispatch, hall⟩ := hwf.dispatch_spec q.concurrency
    refine ⟨_, ?_, .released sessionId id s' ds hall⟩
    simp only [World.step, QueueState.dropPermit, hactive, Option.map_some, if_true, hdispatch]
    rfl

/-- The step relation is the move relation. -/
theorem World.Inv.move (h : w.Inv q) {l : Label τ} (hstep : w.Step q l w') :
    w.Move q l.event (w', l.answer, l.dispatches) := by
  obtain ⟨hen, heq⟩ := hstep
  rcases h.step_spec l.event hen with ⟨hnone, -⟩ | ⟨r, hr, hmove⟩
  · rw [hnone] at heq
    cases heq
  · rw [hr] at heq
    cases heq
    exact hmove

/-! ## Every move keeps the callers' side -/

section Held

variable {tickets : List ℕ} {permits : List (String × ℕ)} {root sessionId : String} {id : ℕ}
  {e : Entry τ} {work : τ}

theorem World.Held.eraseTicket (h : World.Held ⟨s, tickets, permits⟩)
    (hnone : s.entries.lookup id = none) : World.Held ⟨s, tickets.erase id, permits⟩ := by
  refine { h with ticket_of_entry := ?_, ticket_lt := ?_, tickets_nodup := h.tickets_nodup.erase id }
  · intro id' e' he'
    refine (mem_erase_of_ne ?_).2 (h.ticket_of_entry id' e' he')
    rintro rfl
    rw [hnone] at he'
    cases he'
  · intro id' hid'
    exact h.ticket_lt id' (mem_of_mem_erase hid')

theorem World.Held.admitted (hwf : s.WF) (h : World.Held ⟨s, tickets, permits⟩)
    (ha : s.Admitted root sessionId work s') :
    World.Held ⟨s', tickets ++ [s.nextId], permits⟩ := by
  have htickets : (tickets ++ [s.nextId]).Nodup := by
    refine nodup_append.2 ⟨h.tickets_nodup, by simp, ?_⟩
    intro a ha b hb hab
    rw [mem_singleton] at hb
    rw [hab, hb] at ha
    exact Nat.lt_irrefl _ (h.ticket_lt _ ha)
  have hlt : ∀ id ∈ tickets ++ [s.nextId], id < s.nextId + 1 := by
    intro id hid
    rcases mem_append.1 hid with hid | hid
    · exact Nat.lt_succ_of_lt (h.ticket_lt id hid)
    · rw [mem_singleton] at hid
      omega
  have hentry : ∀ reserved id e,
      (s.renew root sessionId work reserved).entries.lookup id = some e →
        id ∈ tickets ++ [s.nextId] := by
    intro reserved id e he
    rcases hwf.lookup_renew_iff.1 he with ⟨rfl, -⟩ | ⟨he, -⟩
    · simp
    · exact mem_append_left _ (h.ticket_of_entry id e he)
  have hpermit : ∀ reserved sessionId' id, (sessionId', id) ∈ permits →
      (s.renew root sessionId work reserved).entries.lookup id = none ∧ id < s.nextId + 1 := by
    intro reserved sessionId' id hp
    obtain ⟨-, hnone, hid⟩ := h.permit_active sessionId' id hp
    refine ⟨?_, Nat.lt_succ_of_lt hid⟩
    have : id ≠ s.nextId := Nat.ne_of_lt hid
    simp only [QueueState.lookup_renew, this, if_false, ite_eq_left_iff]
    exact fun _ => hnone
  -- a reserved entry of another session survives the renewal
  have howned : ∀ reserved, (∀ id e, s.entries.lookup id = some e → e.reserved = true →
      e.sessionId ≠ sessionId) → ∀ sessionId' id root',
      s.active.lookup sessionId' = some (id, root') →
      (∃ e, (s.renew root sessionId work reserved).entries.lookup id = some e ∧
        e.reserved = true ∧ e.sessionId = sessionId') ∨ (sessionId', id) ∈ permits := by
    intro reserved hne sessionId' id root' hactive
    rcases h.active_owned sessionId' id root' hactive with ⟨e, he, hres, hs⟩ | hp
    · exact Or.inl ⟨e, hwf.lookup_renew_iff.2 (Or.inr ⟨he, hne id e he hres⟩), hres, hs⟩
    · exact Or.inr hp
  cases ha with
  | takeOver p e hp he hres hroot =>
    have hs : e.sessionId = sessionId := by
      obtain ⟨e', he', hs'⟩ := (hwf.pending_iff sessionId p).1 hp
      rw [he] at he'
      cases he'
      exact hs'
    have hown := hwf.reserved_active p e he hres
    refine
      { ticket_of_entry := hentry true
        ticket_lt := hlt
        tickets_nodup := htickets
        permit_active := ?_
        active_owned := ?_
        permits_nodup := h.permits_nodup }
    · intro sessionId' id hpermit'
      obtain ⟨⟨root', hactive⟩, hnone, -⟩ := h.permit_active sessionId' id hpermit'
      have hne : sessionId' ≠ sessionId := by
        rintro rfl
        rw [hs, hactive] at hown
        cases hown
        rw [hnone] at he
        cases he
      refine ⟨⟨root', ?_⟩, hpermit true sessionId' id hpermit'⟩
      simp only [AssocMap.lookup_insert, hne, if_false]
      exact hactive
    · intro sessionId' id root' hactive
      simp only [AssocMap.lookup_insert] at hactive
      split at hactive
      · next hss =>
        cases hactive
        exact Or.inl ⟨_, hwf.lookup_renew_iff.2 (Or.inl ⟨rfl, rfl⟩), rfl, hss.symm⟩
      · next hss =>
        rcases h.active_owned sessionId' id root' hactive with ⟨e', he', hres', hs'⟩ | hp'
        · exact Or.inl ⟨e', hwf.lookup_renew_iff.2 (Or.inr ⟨he', hs' ▸ hss⟩), hres', hs'⟩
        · exact Or.inr hp'
  | replace p e hp he hres hroot =>
    refine
      { ticket_of_entry := hentry false
        ticket_lt := hlt
        tickets_nodup := htickets
        permit_active := fun sessionId' id hp' =>
          ⟨(h.permit_active sessionId' id hp').1, hpermit false sessionId' id hp'⟩
        active_owned := howned false ?_
        permits_nodup := h.permits_nodup }
    intro id' e' he' hres'
    refine (hwf.session_ne_iff hp he').2 ?_
    rintro rfl
    rw [he] at he'
    cases he'
    rw [hres] at hres'
    cases hres'
  | join hp =>
    refine
      { ticket_of_entry := hentry false
        ticket_lt := hlt
        tickets_nodup := htickets
        permit_active := fun sessionId' id hp' =>
          ⟨(h.permit_active sessionId' id hp').1, hpermit false sessionId' id hp'⟩
        active_owned := howned false ?_
        permits_nodup := h.permits_nodup }
    rintro id' e' he' - hs
    rw [(hwf.pending_iff sessionId id').2 ⟨e', he', hs⟩] at hp
    cases hp

/-- A consumed or dropped entry takes its ticket with it. -/
theorem World.Held.forget_ticket (h : World.Held ⟨s, tickets, permits⟩) (id : ℕ) (e : Entry τ) :
    (∀ id' e', (s.forget id e).entries.lookup id' = some e' → id' ∈ tickets.erase id) ∧
      (∀ id' ∈ tickets.erase id, id' < s.nextId) ∧ (tickets.erase id).Nodup := by
  refine ⟨?_, fun id' hid' => h.ticket_lt id' (mem_of_mem_erase hid'),
    h.tickets_nodup.erase id⟩
  intro id' e' he'
  rw [QueueState.lookup_forget] at he'
  split at he'
  · cases he'
  · next hid => exact (mem_erase_of_ne hid).2 (h.ticket_of_entry id' e' he')

theorem World.Held.forget_permit (h : World.Held ⟨s, tickets, permits⟩) {sessionId' : String}
    {id' : ℕ} (hp : (sessionId', id') ∈ permits) :
    (s.forget id e).entries.lookup id' = none ∧ id' < s.nextId := by
  obtain ⟨-, hnone, hlt⟩ := h.permit_active sessionId' id' hp
  refine ⟨?_, hlt⟩
  rw [QueueState.lookup_forget, ite_eq_left_iff]
  exact fun _ => hnone

/-- Starting turns a ticket into a permit. -/
theorem World.Held.started (hwf : s.WF) (h : World.Held ⟨s, tickets, permits⟩)
    (he : s.entries.lookup id = some e) (hres : e.reserved = true) :
    World.Held ⟨s.forget id e, tickets.erase id, permits ++ [(e.sessionId, id)]⟩ := by
  obtain ⟨hentry, hlt, hnodup⟩ := h.forget_ticket id e
  refine
    { ticket_of_entry := hentry
      ticket_lt := hlt
      tickets_nodup := hnodup
      permit_active := ?_
      active_owned := ?_
      permits_nodup := ?_ }
  · intro sessionId' id' hp
    rcases mem_append.1 hp with hp | hp
    · exact ⟨(h.permit_active sessionId' id' hp).1, h.forget_permit hp⟩
    · rw [mem_singleton] at hp
      cases hp
      exact ⟨⟨_, hwf.reserved_active id e he hres⟩, by simp [QueueState.lookup_forget],
        hwf.id_lt id e he⟩
  · intro sessionId' id' root' hactive
    rcases h.active_owned sessionId' id' root' hactive with ⟨e', he', hres', rfl⟩ | hp
    · by_cases hid : id' = id
      · subst hid
        rw [he] at he'
        cases he'
        exact Or.inr (by simp)
      · exact Or.inl ⟨e', (QueueState.lookup_forget_ne hid).trans he', hres', rfl⟩
    · exact Or.inr (mem_append_left _ hp)
  · refine nodup_append.2 ⟨h.permits_nodup, by simp, ?_⟩
    intro a ha b hb hab
    rw [mem_singleton] at hb
    rw [hab, hb] at ha
    have hnone := (h.permit_active _ _ ha).2.1
    simp only at hnone
    rw [he] at hnone
    cases hnone

theorem World.Held.unqueue (h : World.Held ⟨s, tickets, permits⟩)
    (he : s.entries.lookup id = some e) (hres : e.reserved = false) :
    World.Held ⟨s.unqueue id e, tickets.erase id, permits⟩ := by
  obtain ⟨hentry, hlt, hnodup⟩ := h.forget_ticket id e
  refine
    { ticket_of_entry := hentry
      ticket_lt := hlt
      tickets_nodup := hnodup
      permit_active := fun sessionId' id' hp =>
        ⟨(h.permit_active sessionId' id' hp).1, h.forget_permit (e := e) hp⟩
      active_owned := ?_
      permits_nodup := h.permits_nodup }
  intro sessionId' id' root' hactive
  rcases h.active_owned sessionId' id' root' hactive with ⟨e', he', hres', hs⟩ | hp
  · have hid : id' ≠ id := by
      rintro rfl
      simp only at he'
      rw [he] at he'
      cases he'
      rw [hres] at hres'
      cases hres'
    exact Or.inl ⟨e', (QueueState.lookup_forget_ne (e := e) hid).trans he', hres', hs⟩
  · exact Or.inr hp

/-- Dropping a ticket that holds a slot gives the slot back. -/
theorem World.Held.cancelReserved (hwf : s.WF) (h : World.Held ⟨s, tickets, permits⟩)
    (he : s.entries.lookup id = some e) (hres : e.reserved = true) :
    World.Held ⟨{ s.forget id e with active := s.active.erase e.sessionId }, tickets.erase id,
      permits⟩ := by
  obtain ⟨hentry, hlt, hnodup⟩ := h.forget_ticket id e
  have hown := hwf.reserved_active id e he hres
  refine
    { ticket_of_entry := hentry
      ticket_lt := hlt
      tickets_nodup := hnodup
      permit_active := ?_
      active_owned := ?_
      permits_nodup := h.permits_nodup }
  · intro sessionId' id' hp
    obtain ⟨⟨root', hactive⟩, hnone, -⟩ := h.permit_active sessionId' id' hp
    simp only at hactive hnone
    have hne : sessionId' ≠ e.sessionId := by
      rintro rfl
      rw [hactive] at hown
      cases hown
      rw [hnone] at he
      cases he
    exact ⟨⟨root', by simp only [AssocMap.lookup_erase, hne, if_false]; exact hactive⟩,
      h.forget_permit (e := e) hp⟩
  · intro sessionId' id' root' hactive
    simp only [AssocMap.lookup_erase] at hactive
    split at hactive
    · cases hactive
    · next hne =>
      rcases h.active_owned sessionId' id' root' hactive with ⟨e', he', hres', hs⟩ | hp
      · have hid : id' ≠ id := by
          rintro rfl
          simp only at he'
          rw [he] at he'
          cases he'
          exact hne hs.symm
        exact Or.inl ⟨e', (QueueState.lookup_forget_ne (e := e) hid).trans he', hres', hs⟩
      · exact Or.inr hp

/-- Dropping a permit gives its slot back. -/
theorem World.Held.release (h : World.Held ⟨s, tickets, permits⟩)
    (hp : (sessionId, id) ∈ permits) :
    World.Held ⟨{ s with active := s.active.erase sessionId }, tickets,
      permits.erase (sessionId, id)⟩ := by
  obtain ⟨⟨root, hactive⟩, hnone, -⟩ := h.permit_active sessionId id hp
  refine
    { ticket_of_entry := h.ticket_of_entry
      ticket_lt := h.ticket_lt
      tickets_nodup := h.tickets_nodup
      permit_active := ?_
      active_owned := ?_
      permits_nodup := h.permits_nodup.erase _ }
  · intro sessionId' id' hp'
    obtain ⟨hpair, hp'⟩ := (h.permits_nodup.mem_erase_iff).1 hp'
    obtain ⟨⟨root', hactive'⟩, hrest⟩ := h.permit_active sessionId' id' hp'
    have hne : sessionId' ≠ sessionId := by
      rintro rfl
      rw [hactive] at hactive'
      cases hactive'
      exact hpair rfl
    exact ⟨⟨root', by simp only [AssocMap.lookup_erase, hne, if_false]; exact hactive'⟩, hrest⟩
  · intro sessionId' id' root' hactive'
    simp only [AssocMap.lookup_erase] at hactive'
    split at hactive'
    · cases hactive'
    · next hne =>
      rcases h.active_owned sessionId' id' root' hactive' with hentry | hp'
      · exact Or.inl hentry
      · exact Or.inr ((h.permits_nodup.mem_erase_iff).2 ⟨fun heq => hne (congrArg Prod.fst heq),
          hp'⟩)

end Held

/-! ## The invariant -/

/-- **A step keeps the invariant.** -/
theorem World.Inv.step (h : w.Inv q) {l : Label τ} (hstep : w.Step q l w') : w'.Inv q := by
  have hmove := h.move hstep
  have hen := hstep.1
  obtain ⟨ev, answer, ds⟩ := l
  simp only at hmove hen
  obtain ⟨s, tickets, permits⟩ := w
  obtain ⟨hwf, hle, hc, hb, hheld⟩ := h
  simp only at hwf hle hc hb
  generalize hr : (w', answer, ds) = r at hmove
  cases hmove with
  | refused | stale | pending =>
    cases hr
    exact ⟨hwf, hle, hc, hb, hheld⟩
  | admitted rootSessionId sessionId work s₁ s' ds' ha hroom hall =>
    cases hr
    refine World.Inv.of_dispatch hall ?_ (hwf.admitted_bounded hb hc ha hroom hall)
      (hheld.admitted hwf ha)
    cases ha with
    | takeOver p e hp he hres hroot =>
      obtain ⟨e', he', hs⟩ := (hwf.pending_iff sessionId p).1 hp
      simp only at he
      rw [he] at he'
      cases he'
      have hown := hwf.reserved_active p e he hres
      rw [hs] at hown
      simp only [AssocMap.size_insert_of_some hown]
      exact hle
    | replace | join => exact hle
  | updated id work e he =>
    cases hr
    simp only at he
    have hlookup : ∀ id', ∀ e', (s.entries.insert id { e with work := work }).lookup id' = some e' →
        ∃ e₀, s.entries.lookup id' = some e₀ ∧ e' = { e₀ with work := e'.work } := by
      intro id' e' he'
      rw [AssocMap.lookup_insert] at he'
      split at he'
      · next hid =>
        cases he'
        exact ⟨e, hid ▸ he, rfl⟩
      · exact ⟨e', he', rfl⟩
    refine ⟨hwf.update he, hle, ?_, ?_, ?_⟩
    · intro hfree root hrun
      obtain ⟨id', e', ⟨he', hres', hidle⟩, hroot⟩ := hrun
      obtain ⟨e₀, he₀, heq⟩ := hlookup id' e' he'
      rw [heq] at hres' hidle hroot
      exact hc hfree root ⟨id', e₀, ⟨he₀, hres', hidle⟩, hroot⟩
    · refine hb.shrink (List.Sublist.refl _) ?_
      intro root id' _
      simp only [QueueState.under, AssocMap.lookup_insert]
      split
      · next hid =>
        subst hid
        simp [he]
      · rfl
    · refine { hheld with ticket_of_entry := ?_, permit_active := ?_, active_owned := ?_ }
      · intro id' e' he'
        obtain ⟨e₀, he₀, -⟩ := hlookup id' e' he'
        exact hheld.ticket_of_entry id' e₀ he₀
      · intro sessionId id' hp
        obtain ⟨hactive, hnone, hlt⟩ := hheld.permit_active sessionId id' hp
        refine ⟨hactive, ?_, hlt⟩
        simp only at hnone
        simp only [AssocMap.lookup_insert, hnone, ite_eq_right_iff, reduceCtorEq, imp_false]
        rintro rfl
        rw [he] at hnone
        cases hnone
      · intro sessionId id' root hactive
        rcases hheld.active_owned sessionId id' root hactive with ⟨e', he', hres', hs⟩ | hp
        · simp only at he'
          by_cases hid : id' = id
          · subst hid
            rw [he] at he'
            cases he'
            exact Or.inl ⟨{ e with work := work }, by simp, hres', hs⟩
          · exact Or.inl ⟨e', by simp [hid, he'], hres', hs⟩
        · exact Or.inr hp
  | superseded id hnone | droppedStale id hnone =>
    cases hr
    exact ⟨hwf, hle, hc, hb, hheld.eraseTicket hnone⟩
  | started id e he hres =>
    cases hr
    simp only at he
    refine ⟨hwf.forget_reserved he hres, hle, ?_, ?_, hheld.started hwf he hres⟩
    · rintro hfree root ⟨id', e', ⟨he', hrun⟩, hroot⟩
      simp only [QueueState.lookup_forget] at he'
      split at he'
      · cases he'
      · exact hc hfree root ⟨id', e', ⟨he', hrun⟩, hroot⟩
    · refine hb.shrink (List.Sublist.refl _) ?_
      intro root id' hid'
      have hne : id' ≠ id := by
        rintro rfl
        obtain ⟨e', he', hres'⟩ := (hwf.mem_waiting id').1 hid'
        rw [he] at he'
        cases he'
        rw [hres] at hres'
        cases hres'
      simp [QueueState.under, QueueState.lookup_forget_ne hne]
  | droppedReserved id e s' ds' he hres hall =>
    cases hr
    simp only at he
    refine World.Inv.of_dispatch hall (le_trans (AssocMap.size_erase_le _ _) hle) ?_
      (hheld.cancelReserved hwf he hres)
    refine QueueState.Bounded.granted ?_ hall.granted
    refine hb.shrink (List.Sublist.refl _) ?_
    intro root id' hid'
    have hne : id' ≠ id := by
      rintro rfl
      obtain ⟨e', he', hres'⟩ := (hwf.mem_waiting id').1 hid'
      rw [he] at he'
      cases he'
      rw [hres] at hres'
      cases hres'
    have hl := QueueState.lookup_forget_ne (s := s) (e := e) hne
    simp only [QueueState.under, hl]
  | droppedWaiting id e s' ds' he hres hall =>
    cases hr
    simp only at he
    refine World.Inv.of_dispatch hall hle ?_ (hheld.unqueue he hres)
    refine QueueState.Bounded.granted ?_ hall.granted
    refine hb.shrink filter_sublist ?_
    intro root id' hid'
    have hne : id' ≠ id := by simpa using (mem_filter.1 hid').2
    have hl := QueueState.lookup_forget_ne (s := s) (e := e) hne
    simp only [QueueState.under, QueueState.unqueue, hl]
  | released sessionId id s' ds' hall =>
    cases hr
    refine World.Inv.of_dispatch hall (le_trans (AssocMap.size_erase_le _ _) hle) ?_
      (hheld.release hen)
    refine QueueState.Bounded.granted ?_ hall.granted
    exact hb.shrink (List.Sublist.refl _) fun _ _ _ => rfl

/-- **Every reachable state satisfies the invariant.** -/
theorem RunsTo.inv {tr : List (Label τ)} (h : RunsTo q tr w) : w.Inv q :=
  h.invariant (P := World.Inv q) (World.Inv.new q) fun _ _ _ hinv hstep => hinv.step hstep

/-! ## Safety -/

/-- `available_permits`; the subtraction must not underflow. -/
def QueueState.availablePermits (q : RouterSummaryQueue) (s : QueueState τ) : Option ℕ :=
  if AssocMap.size s.active ≤ q.concurrency then some (q.concurrency - AssocMap.size s.active)
  else none

/-- What makes a queue safe to use: its collections agree, its bounds hold, and no operation its
callers can call next panics. -/
structure World.Safe (q : RouterSummaryQueue) (w : World τ) : Prop where
  /-- The concurrency is respected. -/
  active_le : AssocMap.size w.queue.active ≤ q.concurrency
  /-- `available_permits` does not underflow. -/
  availablePermits : (w.queue.availablePermits q).isSome
  /-- Nothing waits twice. -/
  waiting_nodup : w.queue.waiting.Nodup
  /-- Exactly the entries without a slot wait. -/
  mem_waiting : ∀ id, id ∈ w.queue.waiting ↔
    ∃ e, w.queue.entries.lookup id = some e ∧ e.reserved = false
  /-- The pending work of a session is its one entry. -/
  pending_iff : ∀ sessionId id, w.queue.pendingBySession.lookup sessionId = some id ↔
    ∃ e, w.queue.entries.lookup id = some e ∧ e.sessionId = sessionId
  /-- Every reserved entry is the active item of its session. -/
  reserved_active : ∀ id e, w.queue.entries.lookup id = some e → e.reserved = true →
    w.queue.active.lookup e.sessionId = some (id, e.rootSessionId)
  /-- No root is listed twice. -/
  roots_nodup : w.queue.waitingRoots.Nodup
  /-- Exactly the roots of waiting entries are listed. -/
  mem_roots : ∀ root, root ∈ w.queue.waitingRoots ↔
    ∃ id ∈ w.queue.waiting, ∃ e, w.queue.entries.lookup id = some e ∧ e.rootSessionId = root
  /-- The bound on what waits. -/
  waiting_le : w.queue.waiting.length ≤ q.maxPendingSessions
  /-- The bound on what waits under one root. -/
  root_le : ∀ root, w.queue.rootWaiting root ≤ q.maxPendingPerRoot
  /-- While ticket ids are left, no operation panics. -/
  no_panic : ∀ ev, w.Enabled ev → w.queue.nextId + 1 < 2 ^ 64 → (w.step q ev).isSome

/-- **Safety of the summary queue**: after any operations in any order. -/
theorem RunsTo.safe {tr : List (Label τ)} (h : RunsTo q tr w) : w.Safe q := by
  have hinv := RunsTo.inv h
  refine
    { active_le := hinv.active_le
      availablePermits := by simp [QueueState.availablePermits, hinv.active_le]
      waiting_nodup := hinv.wf.waiting_nodup
      mem_waiting := hinv.wf.mem_waiting
      pending_iff := hinv.wf.pending_iff
      reserved_active := hinv.wf.reserved_active
      roots_nodup := hinv.wf.roots_nodup
      mem_roots := ?_
      waiting_le := hinv.bounded.waiting_le
      root_le := hinv.bounded.root_le
      no_panic := ?_ }
  · intro root
    rw [hinv.wf.mem_roots]
    constructor
    · rintro ⟨id, e, he, hres, hroot⟩
      exact ⟨id, (hinv.wf.mem_waiting id).2 ⟨e, he, hres⟩, e, he, hroot⟩
    · rintro ⟨id, hid, e, he, hroot⟩
      obtain ⟨e', he', hres⟩ := (hinv.wf.mem_waiting id).1 hid
      rw [he] at he'
      cases he'
      exact ⟨id, e, he, hres, hroot⟩
  · intro ev hen hid
    rcases hinv.step_spec ev hen with ⟨-, hnot⟩ | ⟨r, hr, -⟩
    · exact absurd hid hnot
    · simp [hr]

/-- A queue with one slot and room for two sessions. -/
def smallQueue : RouterSummaryQueue := ⟨1, 2, by decide⟩

/-- Two submissions on a small queue: the first gets the slot, the second waits. -/
theorem safe_smallQueue : ∃ tr w, World.new.exec smallQueue
      [.submitFor "root" "a" 7, .submitFor "root" "b" 8] = some (tr, w) ∧
    w.queue.waiting = [1] ∧ w.Safe smallQueue := by
  obtain ⟨tr, w, hexec, hwaiting⟩ : ∃ tr w, (World.new : World ℕ).exec smallQueue
      [.submitFor "root" "a" 7, .submitFor "root" "b" 8] = some (tr, w) ∧
      w.queue.waiting = [1] := ⟨_, _, rfl, rfl⟩
  exact ⟨tr, w, hexec, hwaiting, RunsTo.safe (World.exec_run hexec)⟩

end SummaryQueue

end OpenBitFun
