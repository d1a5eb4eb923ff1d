import OpenBitFun.SummaryQueueInvariant

/-!
# The life of a ticket

`Life` is what a caller may believe about one ticket, computed from the operations and their
answers alone: accepted work is queued, an update that was answered `true` changes it, an accepted
submission of the same session supersedes it, and a poll or a drop ends it. The queue agrees with
that belief in every reachable state, so each ticket has at most one outcome, a started ticket
carries the newest work, and stale tickets change nothing.
-/

namespace OpenBitFun

open List

namespace SummaryQueue

variable {τ : Type} {q : RouterSummaryQueue} {s s' : QueueState τ} {w w' : World τ} {id : ℕ}

/-! ## The abstract life cycle -/

/-- What became of a ticket. -/
inductive Life (τ : Type) where
  /-- The id was not handed out yet. -/
  | unissued
  /-- Its work is pending. -/
  | queued (sessionId : String) (work : τ)
  /-- A newer submission of its session took its place. -/
  | superseded
  /-- `start` returned its work. -/
  | started
  /-- `start` returned `None`. -/
  | refused
  /-- It was dropped. -/
  | dropped

/-- How an operation and its answer change the life of the ticket `id`. -/
def Life.next (id : ℕ) (life : Life τ) (l : Label τ) : Life τ :=
  match l.event, l.answer with
  | .submitFor _ sessionId work, .submitted (.ok newId) =>
    if newId = id then .queued sessionId work
    else match life with
      | .queued sessionId' work' =>
        if sessionId' = sessionId then .superseded else .queued sessionId' work'
      | _ => life
  | .update id' work, .updated true =>
    match life with
    | .queued sessionId work' => .queued sessionId (if id' = id then work else work')
    | _ => life
  | .start id', .polled (.started _ _) => if id' = id then .started else life
  | .start id', .polled .superseded => if id' = id then .refused else life
  | .dropTicket id', _ => if id' = id then .dropped else life
  | _, _ => life

/-- The life of the ticket `id` after a run. -/
def lifeOf (id : ℕ) (tr : List (Label τ)) : Life τ := tr.foldl (Life.next id) .unissued

@[simp] theorem lifeOf_concat (id : ℕ) (tr : List (Label τ)) (l : Label τ) :
    lifeOf id (tr ++ [l]) = (lifeOf id tr).next id l := by
  simp [lifeOf]

/-- The label ends the ticket: `start` resolves, or the ticket is dropped. -/
def Label.ends (id : ℕ) (l : Label τ) : Bool :=
  match l.event, l.answer with
  | .start id', .polled (.started _ _) => id' = id
  | .start id', .polled .superseded => id' = id
  | .dropTicket id', _ => id' = id
  | _, _ => false

/-- The label is an operation on the ticket `id` or on its handle. -/
def Label.actsOn (id : ℕ) (l : Label τ) : Prop :=
  match l.event with
  | .update id' _ | .start id' | .dropTicket id' => id' = id
  | _ => False

/-! ## The queue agrees with it -/

/-- The ticket was issued and its entry is gone. -/
def World.Gone (w : World τ) (id : ℕ) : Prop :=
  id < w.queue.nextId ∧ w.queue.entries.lookup id = none

/-- No permit belongs to the ticket. -/
def World.NoPermit (w : World τ) (id : ℕ) : Prop := ∀ sessionId, (sessionId, id) ∉ w.permits

/-- What the life of a ticket says about the queue. -/
def Life.Agrees (w : World τ) (id : ℕ) : Life τ → Prop
  | .unissued => w.queue.nextId ≤ id
  | .queued sessionId work =>
    ∃ e, w.queue.entries.lookup id = some e ∧ e.sessionId = sessionId ∧ e.work = work
  | .superseded => w.Gone id ∧ id ∈ w.tickets ∧ w.NoPermit id
  | .started => w.Gone id ∧ id ∉ w.tickets
  | .refused | .dropped => w.Gone id ∧ id ∉ w.tickets ∧ w.NoPermit id

/-- Granting slots changes no ticket's life. -/
theorem Life.Agrees.granted {life : Life τ} {tickets : List ℕ} {permits : List (String × ℕ)}
    (h : life.Agrees ⟨s, tickets, permits⟩ id) (hg : s.Granted s') :
    life.Agrees ⟨s', tickets, permits⟩ id := by
  have hgone : World.Gone ⟨s, tickets, permits⟩ id → World.Gone ⟨s', tickets, permits⟩ id := by
    rintro ⟨hlt, hnone⟩
    refine ⟨by rw [hg.nextId_eq]; exact hlt, ?_⟩
    rcases hg.entries id with heq | ⟨e, he, -, -⟩
    · exact heq.trans hnone
    · rw [hnone] at he
      cases he
  cases life with
  | unissued =>
    simp only [Life.Agrees] at h ⊢
    rw [hg.nextId_eq]
    exact h
  | queued sessionId work =>
    obtain ⟨e, he, hs, hwork⟩ := h
    rcases hg.entries id with heq | ⟨e', he', -, hnext⟩
    · exact ⟨e, heq.trans he, hs, hwork⟩
    · simp only at he
      rw [he] at he'
      cases he'
      exact ⟨_, hnext, hs, hwork⟩
  | superseded | started | refused | dropped => exact ⟨hgone h.1, h.2⟩

/-- A ticket with an entry is not issued again, has no permit, and its own ticket is live. -/
theorem World.Held.noPermit (h : w.Held) {e : Entry τ} (he : w.queue.entries.lookup id = some e) :
    w.NoPermit id := by
  intro sessionId hp
  rw [(h.permit_active sessionId id hp).2.1] at he
  cases he

theorem Life.Agrees.frame {life : Life τ} (h : life.Agrees w id)
    (hnext : w'.queue.nextId = w.queue.nextId)
    (hentry : w'.queue.entries.lookup id = w.queue.entries.lookup id)
    (htickets : id ∈ w'.tickets ↔ id ∈ w.tickets) (hpermits : w.NoPermit id → w'.NoPermit id) :
    life.Agrees w' id := by
  have hgone : w.Gone id → w'.Gone id := fun hg => ⟨hnext ▸ hg.1, hentry ▸ hg.2⟩
  cases life with
  | unissued =>
    simp only [Life.Agrees] at h ⊢
    rw [hnext]
    exact h
  | queued sessionId work =>
    simp only [Life.Agrees] at h ⊢
    rw [hentry]
    exact h
  | superseded => exact ⟨hgone h.1, htickets.2 h.2.1, hpermits h.2.2⟩
  | started => exact ⟨hgone h.1, fun hid => h.2 (htickets.1 hid)⟩
  | refused | dropped => exact ⟨hgone h.1, fun hid => h.2.1 (htickets.1 hid), hpermits h.2.2⟩

/-- A live ticket without an entry was superseded. -/
theorem Life.Agrees.eq_superseded {life : Life τ} (hheld : w.Held) (h : life.Agrees w id)
    (hid : id ∈ w.tickets) (hnone : w.queue.entries.lookup id = none) : life = .superseded := by
  cases life with
  | unissued => exact absurd (hheld.ticket_lt id hid) (Nat.not_lt.2 h)
  | queued sessionId work =>
    obtain ⟨e, he, -⟩ := h
    rw [hnone] at he
    cases he
  | superseded => rfl
  | started => exact absurd hid h.2
  | refused | dropped => exact absurd hid h.2.1

theorem Life.Agrees.eq_queued {life : Life τ} (hwf : w.queue.WF) (h : life.Agrees w id)
    {e : Entry τ} (he : w.queue.entries.lookup id = some e) :
    life = .queued e.sessionId e.work := by
  cases life with
  | unissued => exact absurd (hwf.id_lt id e he) (Nat.not_lt.2 h)
  | queued sessionId work =>
    obtain ⟨e', he', hs, hwork⟩ := h
    rw [he] at he'
    cases he'
    rw [hs, hwork]
  | superseded | started | refused | dropped =>
    have hnone := h.1.2
    rw [he] at hnone
    cases hnone

/-- An admitted submission issues one ticket and supersedes the pending one of its session. -/
theorem Life.Agrees.admitted {life : Life τ} {tickets : List ℕ} {permits : List (String × ℕ)}
    {root sessionId : String} {work : τ} (hwf : s.WF)
    (hheld : World.Held ⟨s, tickets, permits⟩) (h : life.Agrees ⟨s, tickets, permits⟩ id)
    (ha : s.Admitted root sessionId work s') (rootSessionId : String) (ds : List (Dispatch τ)) :
    (life.next id ⟨.submitFor rootSessionId sessionId work, .submitted (.ok s.nextId), ds⟩).Agrees
      ⟨s', tickets ++ [s.nextId], permits⟩ id := by
  obtain ⟨reserved, hentries, hnextId⟩ : ∃ reserved,
      s'.entries = (s.renew root sessionId work reserved).entries ∧ s'.nextId = s.nextId + 1 := by
    cases ha with
    | takeOver => exact ⟨true, rfl, rfl⟩
    | replace | join => exact ⟨false, rfl, rfl⟩
  have hlookup : ∀ e', s'.entries.lookup id = some e' ↔
      id = s.nextId ∧ e' = ⟨root, sessionId, work, reserved⟩ ∨
        s.entries.lookup id = some e' ∧ e'.sessionId ≠ sessionId := by
    intro e'
    rw [hentries]
    exact hwf.lookup_renew_iff
  simp only [Life.next]
  by_cases hid : s.nextId = id
  · simp only [hid, if_true]
    exact ⟨_, (hlookup _).2 (Or.inl ⟨hid.symm, rfl⟩), rfl, rfl⟩
  · have hne : id ≠ s.nextId := fun h => hid h.symm
    have hgone : s.entries.lookup id = none → s'.entries.lookup id = none := by
      intro hnone
      rcases hl : s'.entries.lookup id with _ | e'
      · rfl
      · rcases (hlookup e').1 hl with ⟨heq, -⟩ | ⟨he', -⟩
        · exact absurd heq hne
        · rw [hnone] at he'
          cases he'
    simp only [hid, if_false]
    cases life with
    | unissued =>
      simp only [Life.Agrees] at h ⊢
      rw [hnextId]
      omega
    | queued sessionId' work' =>
      obtain ⟨e, he, hs, hwork⟩ := h
      simp only at he ⊢
      split
      · next hss =>
        refine ⟨⟨by simp only [hnextId]; exact Nat.lt_succ_of_lt (hwf.id_lt id e he), ?_⟩,
          mem_append_left _ (hheld.ticket_of_entry id e he), fun sid => hheld.noPermit he sid⟩
        rcases hl : s'.entries.lookup id with _ | e'
        · rfl
        · rcases (hlookup e').1 hl with ⟨heq, -⟩ | ⟨he', hs'⟩
          · exact absurd heq hne
          · rw [he] at he'
            cases he'
            exact absurd (hs.trans hss) hs'
      · next hss =>
        exact ⟨e, (hlookup e).2 (Or.inr ⟨he, fun h => hss (hs.symm.trans h)⟩), hs, hwork⟩
    | superseded =>
      exact ⟨⟨by simp only [hnextId]; exact Nat.lt_succ_of_lt h.1.1, hgone h.1.2⟩,
        mem_append_left _ h.2.1, h.2.2⟩
    | started =>
      exact ⟨⟨by simp only [hnextId]; exact Nat.lt_succ_of_lt h.1.1, hgone h.1.2⟩,
        by simpa [hne] using h.2⟩
    | refused | dropped =>
      exact ⟨⟨by simp only [hnextId]; exact Nat.lt_succ_of_lt h.1.1, hgone h.1.2⟩,
        by simpa [hne] using h.2.1, h.2.2⟩

/-- A ticket that ends leaves the callers, and its permits are those it had. -/
theorem Life.Agrees.ended {life : Life τ} (hinv : w.Inv q) (h : life.Agrees w id)
    (hid : id ∈ w.tickets) :
    id < w.queue.nextId ∧ id ∉ w.tickets.erase id ∧ w.NoPermit id := by
  refine ⟨hinv.held.ticket_lt id hid, hinv.held.tickets_nodup.not_mem_erase, ?_⟩
  rcases he : w.queue.entries.lookup id with _ | e
  · have := h.eq_superseded hinv.held hid he
    subst this
    exact h.2.2
  · exact hinv.held.noPermit he

/-- **The step lemma**: every operation moves the life of every ticket as the answer tells. -/
theorem Life.Agrees.step {life : Life τ} (hinv : w.Inv q) (h : life.Agrees w id) {l : Label τ}
    (hstep : w.Step q l w') : (life.next id l).Agrees w' id := by
  have hmove := hinv.move hstep
  have hen := hstep.1
  obtain ⟨ev, answer, ds⟩ := l
  simp only at hmove hen
  generalize hr : (w', answer, ds) = r at hmove
  cases hmove with
  | refused | stale | pending =>
    cases hr
    exact h
  | admitted rootSessionId sessionId work s₁ s' ds' ha hroom hall =>
    cases hr
    exact (h.admitted hinv.wf hinv.held ha rootSessionId _).granted hall.granted
  | updated id' work e he =>
    cases hr
    by_cases hid : id' = id
    · subst hid
      have := h.eq_queued hinv.wf he
      subst this
      simp only [Life.next, if_true]
      exact ⟨{ e with work := work }, by simp, rfl, rfl⟩
    · have hnext : life.next id ⟨.update id' work, .updated true, []⟩ = life := by
        cases life <;> simp [Life.next, hid]
      rw [hnext]
      have hne : id ≠ id' := fun heq => hid heq.symm
      exact h.frame rfl (by simp [hne]) Iff.rfl fun hp => hp
  | superseded id' hnone =>
    cases hr
    simp only [Life.next]
    split
    · next hid =>
      subst hid
      obtain ⟨hlt, hticket, hpermit⟩ := h.ended hinv hen
      exact ⟨⟨hlt, hnone⟩, hticket, hpermit⟩
    · next hid =>
      exact h.frame rfl rfl (mem_erase_of_ne fun heq => hid heq.symm) fun hp => hp
  | started id' e he hres =>
    cases hr
    simp only [Life.next]
    split
    · next hid =>
      subst hid
      obtain ⟨hlt, hticket, -⟩ := h.ended hinv hen
      exact ⟨⟨hlt, by simp [QueueState.lookup_forget]⟩, hticket⟩
    · next hid =>
      have hne : id ≠ id' := fun heq => hid heq.symm
      refine h.frame rfl (QueueState.lookup_forget_ne hne) (mem_erase_of_ne hne) ?_
      intro hp sessionId hmem
      rcases mem_append.1 hmem with hmem | hmem
      · exact hp sessionId hmem
      · rw [mem_singleton] at hmem
        exact hne (congrArg Prod.snd hmem)
  | droppedStale id' hnone =>
    cases hr
    simp only [Life.next]
    split
    · next hid =>
      subst hid
      obtain ⟨hlt, hticket, hpermit⟩ := h.ended hinv hen
      exact ⟨⟨hlt, hnone⟩, hticket, hpermit⟩
    · next hid =>
      exact h.frame rfl rfl (mem_erase_of_ne fun heq => hid heq.symm) fun hp => hp
  | droppedReserved id' e s' ds' he hres hall =>
    cases hr
    refine Life.Agrees.granted ?_ hall.granted
    simp only [Life.next]
    split
    · next hid =>
      subst hid
      obtain ⟨hlt, hticket, hpermit⟩ := h.ended hinv hen
      exact ⟨⟨hlt, by simp [QueueState.lookup_forget]⟩, hticket, hpermit⟩
    · next hid =>
      have hne : id ≠ id' := fun heq => hid heq.symm
      exact h.frame rfl (QueueState.lookup_forget_ne (e := e) hne) (mem_erase_of_ne hne)
        fun hp => hp
  | droppedWaiting id' e s' ds' he hres hall =>
    cases hr
    refine Life.Agrees.granted ?_ hall.granted
    simp only [Life.next]
    split
    · next hid =>
      subst hid
      obtain ⟨hlt, hticket, hpermit⟩ := h.ended hinv hen
      have hl : (w.queue.unqueue id' e).entries.lookup id' = none :=
        AList.lookup_erase _ _
      exact ⟨⟨hlt, hl⟩, hticket, hpermit⟩
    · next hid =>
      have hne : id ≠ id' := fun heq => hid heq.symm
      exact h.frame rfl (QueueState.lookup_forget_ne (e := e) hne) (mem_erase_of_ne hne)
        fun hp => hp
  | released sessionId id' s' ds' hall =>
    cases hr
    refine Life.Agrees.granted ?_ hall.granted
    have hnext : life.next id ⟨.dropPermit sessionId id', .dropped, ds⟩ = life := by
      cases life <;> rfl
    rw [hnext]
    exact h.frame rfl rfl Iff.rfl fun hp sid hmem => hp sid (mem_of_mem_erase hmem)

/-- The run lemma: the queue agrees with the life of every ticket. -/
theorem RunsTo.agrees {tr : List (Label τ)} (h : RunsTo q tr w) (id : ℕ) :
    (lifeOf id tr).Agrees w id := by
  refine (h.history (P := fun tr w => w.Inv q ∧ (lifeOf id tr).Agrees w id)
    ⟨World.Inv.new q, Nat.zero_le _⟩ ?_).2
  rintro tr w l w' ⟨hinv, hagrees⟩ hstep
  rw [lifeOf_concat]
  exact ⟨hinv.step hstep, hagrees.step hinv hstep⟩

/-! ## Outcomes -/

/-- The ticket has had its outcome. -/
def Life.ended : Life τ → Bool
  | .started | .refused | .dropped => true
  | .unissued | .queued _ _ | .superseded => false

/-- A ticket that ended was issued, and is not live. -/
theorem Life.Agrees.of_ended {life : Life τ} (h : life.Agrees w id) (hended : life.ended = true) :
    id < w.queue.nextId ∧ id ∉ w.tickets := by
  cases life with
  | unissued | queued | superseded => cases hended
  | started => exact ⟨h.1.1, h.2⟩
  | refused | dropped => exact ⟨h.1.1, h.2.1⟩

/-- An ending label ends a live ticket, and no other label ends one or revives it. -/
theorem Life.Agrees.ended_next {life : Life τ} (hinv : w.Inv q) (h : life.Agrees w id)
    {l : Label τ} (hstep : w.Step q l w') :
    (life.next id l).ended.toNat = life.ended.toNat + (l.ends id).toNat := by
  have hmove := hinv.move hstep
  have hen := hstep.1
  -- a live ticket has not ended
  have hlive : ∀ id', id' ∈ w.tickets → id' = id → life.ended = false := by
    rintro id' hid' rfl
    by_contra hended
    exact (h.of_ended (by simpa using hended)).2 hid'
  obtain ⟨ev, answer, ds⟩ := l
  simp only at hmove hen
  generalize hr : (w', answer, ds) = r at hmove
  cases hmove with
  | refused | stale | pending | released =>
    cases hr
    simp [Life.next, Label.ends]
  | updated id' work e he =>
    cases hr
    cases life <;> simp [Life.next, Label.ends, Life.ended]
  | admitted rootSessionId sessionId work s₁ s' ds' ha hroom hall =>
    cases hr
    simp only [Life.next, Label.ends, Bool.toNat_false, Nat.add_zero]
    split
    · next hid =>
      have hnot : life.ended = false := by
        by_contra hended
        have := (h.of_ended (by simpa using hended)).1
        omega
      rw [hnot]
      rfl
    · cases life with
      | queued sessionId' work' =>
        by_cases hs : sessionId' = sessionId <;> simp [Life.ended, hs]
      | unissued | superseded | started | refused | dropped => rfl
  | superseded id' | started id' | droppedStale id' | droppedReserved id' | droppedWaiting id' =>
    cases hr
    simp only [Life.next, Label.ends]
    split
    · next hid =>
      rw [hlive id' hen hid]
      simp [Life.ended, hid]
    · next hid => simp [hid]

/-- The labels that end a ticket, counted. -/
theorem RunsTo.countP_ends {tr : List (Label τ)} (h : RunsTo q tr w) (id : ℕ) :
    tr.countP (Label.ends id) = (lifeOf id tr).ended.toNat := by
  refine (h.history (P := fun tr w => w.Inv q ∧ (lifeOf id tr).Agrees w id ∧
    tr.countP (Label.ends id) = (lifeOf id tr).ended.toNat)
    ⟨World.Inv.new q, Nat.zero_le _, rfl⟩ ?_).2.2
  rintro tr w l w' ⟨hinv, hagrees, hcount⟩ hstep
  rw [lifeOf_concat]
  refine ⟨hinv.step hstep, hagrees.step hinv hstep, ?_⟩
  rw [hagrees.ended_next hinv hstep, countP_append, hcount, countP_singleton]
  cases l.ends id <;> rfl

/-- **What callers can rely on**, over the operations and answers of a run. -/
structure Outcomes (q : RouterSummaryQueue) (tr : List (Label τ)) (w : World τ) : Prop where
  /-- A ticket has at most one outcome: `start` returns work, `start` returns `None`, or the
  ticket is dropped. -/
  once : ∀ id, tr.countP (Label.ends id) ≤ 1
  /-- `start` returns work for a ticket that is pending, that is neither superseded nor dropped,
  and the work is the newest one. -/
  started : ∀ pre l post id work sessionId, tr = pre ++ l :: post → l.event = .start id →
    l.answer = .polled (.started work sessionId) → lifeOf id pre = .queued sessionId work
  /-- `start` returns `None` for a ticket that was superseded. -/
  refused : ∀ pre l post id, tr = pre ++ l :: post → l.event = .start id →
    l.answer = .polled .superseded → lifeOf id pre = .superseded
  /-- At most one permit per leaf session is live. -/
  permits_nodup : (w.permits.map Prod.fst).Nodup
  /-- A superseded or dropped ticket holds no permit, and what is done with it or with its handle
  changes nothing in the queue: no entry and no slot of any other ticket. -/
  stale : ∀ id, lifeOf id tr = .superseded ∨ lifeOf id tr = .refused ∨ lifeOf id tr = .dropped →
    w.NoPermit id ∧ ∀ l w', l.actsOn id → w.Step q l w' →
      w'.queue = w.queue ∧ w'.permits = w.permits
  /-- Dropping a permit removes no entry, and releases no slot but its own. -/
  permitDrop : ∀ sessionId id l w', l.event = .dropPermit sessionId id → w.Step q l w' →
    (∀ id' e, w.queue.entries.lookup id' = some e →
      ∃ reserved, w'.queue.entries.lookup id' = some { e with reserved := reserved }) ∧
    ∀ sessionId' id' root, w.queue.active.lookup sessionId' = some (id', root) → id' ≠ id →
      w'.queue.active.lookup sessionId' = some (id', root)

/-- Two live permits are for different sessions. -/
theorem World.Held.permits_map_nodup (h : w.Held) : (w.permits.map Prod.fst).Nodup := by
  refine List.Nodup.map_on ?_ h.permits_nodup
  rintro ⟨sessionId, id⟩ hp ⟨sessionId', id'⟩ hp' heq
  simp only at heq
  subst heq
  obtain ⟨⟨root, hactive⟩, -⟩ := h.permit_active _ _ hp
  obtain ⟨⟨root', hactive'⟩, -⟩ := h.permit_active _ _ hp'
  rw [hactive] at hactive'
  cases hactive'
  rfl

/-- An operation on a ticket without an entry leaves the queue as it is. -/
theorem World.Inv.stale (hinv : w.Inv q) (hnone : w.queue.entries.lookup id = none) {l : Label τ}
    (hacts : l.actsOn id) (hstep : w.Step q l w') :
    w'.queue = w.queue ∧ w'.permits = w.permits := by
  have hmove := hinv.move hstep
  obtain ⟨ev, answer, ds⟩ := l
  simp only at hmove
  generalize hr : (w', answer, ds) = r at hmove
  cases hmove with
  | refused | admitted | released => exact hacts.elim
  | stale | pending | superseded | droppedStale =>
    cases hr
    exact ⟨rfl, rfl⟩
  | updated id' work e he | started id' e he | droppedReserved id' e s' ds he
  | droppedWaiting id' e s' ds he =>
    cases hacts
    rw [hnone] at he
    cases he

/-- Dropping a permit frees one slot; other slots and all entries stay. -/
theorem World.Inv.permitDrop (hinv : w.Inv q) {sessionId : String} {l : Label τ}
    (hl : l.event = .dropPermit sessionId id) (hstep : w.Step q l w') :
    (∀ id' e, w.queue.entries.lookup id' = some e →
      ∃ reserved, w'.queue.entries.lookup id' = some { e with reserved := reserved }) ∧
    ∀ sessionId' id' root, w.queue.active.lookup sessionId' = some (id', root) → id' ≠ id →
      w'.queue.active.lookup sessionId' = some (id', root) := by
  have hmove := hinv.move hstep
  have hen := hstep.1
  obtain ⟨ev, answer, ds⟩ := l
  simp only at hmove hen hl
  subst hl
  generalize hr : (w', answer, ds) = r at hmove
  cases hmove with
  | released _ _ s' ds' hall =>
    cases hr
    have hg := hall.granted
    refine ⟨?_, ?_⟩
    · intro id' e he
      rcases hg.entries id' with heq | ⟨e', he', -, hnext⟩
      · exact ⟨e.reserved, heq.trans he⟩
      · simp only at he'
        rw [he] at he'
        cases he'
        exact ⟨true, hnext⟩
    · intro sessionId' id' root hactive hne
      obtain ⟨⟨root', hown⟩, -⟩ := hinv.held.permit_active sessionId id hen
      refine hg.active_old _ _ ?_
      have hs : sessionId' ≠ sessionId := by
        rintro rfl
        rw [hown] at hactive
        cases hactive
        exact hne rfl
      simp only [AssocMap.lookup_erase, hs, if_false]
      exact hactive

/-- **The outcome of every ticket.** -/
theorem RunsTo.outcomes {tr : List (Label τ)} (h : RunsTo q tr w) : Outcomes q tr w := by
  have hinv := RunsTo.inv h
  refine
    { once := ?_
      started := ?_
      refused := ?_
      permits_nodup := hinv.held.permits_map_nodup
      stale := ?_
      permitDrop := fun sessionId id l w' hl hstep => hinv.permitDrop hl hstep }
  · intro id
    rw [RunsTo.countP_ends h id]
    cases (lifeOf id tr).ended <;> decide
  · rintro pre ⟨ev, answer, ds⟩ post id work sessionId rfl rfl rfl
    obtain ⟨w₁, hpre, hrest⟩ := Run.split h
    obtain ⟨w₂, hstep, -⟩ := run_cons.1 hrest
    have hmove := (RunsTo.inv hpre).move hstep
    generalize hr : (w₂, _, ds) = r at hmove
    cases hmove with
    | pending | superseded => cases hr
    | started _ e he hres =>
      cases hr
      exact (RunsTo.agrees hpre id).eq_queued (RunsTo.inv hpre).wf he
  · rintro pre ⟨ev, answer, ds⟩ post id rfl rfl rfl
    obtain ⟨w₁, hpre, hrest⟩ := Run.split h
    obtain ⟨w₂, hstep, -⟩ := run_cons.1 hrest
    have hmove := (RunsTo.inv hpre).move hstep
    generalize hr : (w₂, _, ds) = r at hmove
    cases hmove with
    | pending | started => cases hr
    | superseded _ hnone =>
      exact (RunsTo.agrees hpre id).eq_superseded (RunsTo.inv hpre).held hstep.1 hnone
  · intro id hlife
    have hagrees := RunsTo.agrees h id
    have hgone : w.Gone id ∧ w.NoPermit id := by
      rcases hlife with hlife | hlife | hlife <;> rw [hlife] at hagrees <;>
        exact ⟨hagrees.1, hagrees.2.2⟩
    exact ⟨hgone.2, fun l w' hacts hstep => hinv.stale hgone.1.2 hacts hstep⟩

/-- A second submission of a session supersedes the first, and takes over its update and slot. -/
theorem outcomes_smallQueue : ∃ tr w, (World.new : World ℕ).exec smallQueue
      [.submitFor "r" "a" 7, .submitFor "r" "a" 8, .update 1 9, .start 0, .start 1] =
        some (tr, w) ∧
    w.permits = [("a", 1)] ∧ Outcomes smallQueue tr w := by
  obtain ⟨tr, w, hexec, hpermits⟩ : ∃ tr w, (World.new : World ℕ).exec smallQueue
      [.submitFor "r" "a" 7, .submitFor "r" "a" 8, .update 1 9, .start 0, .start 1] =
        some (tr, w) ∧
      w.permits = [("a", 1)] := ⟨_, _, rfl, rfl⟩
  exact ⟨tr, w, hexec, hpermits, RunsTo.outcomes (World.exec_run hexec)⟩

end SummaryQueue

end OpenBitFun
