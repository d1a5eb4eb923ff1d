import OpenBitFun.SummaryQueueDispatch

/-!
# The operations of the summary queue

Each operation changes the collections and then dispatches. This file shows that the change keeps
the queue well formed, so the dispatch that follows cannot panic, and that a submission keeps the
waiting bounds. The bounds need work conservation: a submission that skips the capacity check is
dispatched at once.
-/

namespace OpenBitFun

open List

namespace SummaryQueue

variable {τ : Type} {q : RouterSummaryQueue} {s s' : QueueState τ} {root sessionId : String}
  {id : ℕ} {e : Entry τ} {work : τ}

/-! ## Removing entries and slots -/

/-- The entry `id` is forgotten, whatever else refers to it. -/
def QueueState.forget (s : QueueState τ) (id : ℕ) (e : Entry τ) : QueueState τ :=
  { s with
    entries := s.entries.erase id
    pendingBySession := s.pendingBySession.erase e.sessionId }

theorem QueueState.lookup_forget {id' : ℕ} : (s.forget id e).entries.lookup id' =
    if id' = id then none else s.entries.lookup id' :=
  AssocMap.lookup_erase _ _ _

theorem QueueState.lookup_forget_ne {id' : ℕ} (hid : id' ≠ id) :
    (s.forget id e).entries.lookup id' = s.entries.lookup id' := by
  simp [QueueState.lookup_forget, hid]

/-- The pending work of the sessions after an entry is forgotten. -/
theorem QueueState.WF.pending_forget (h : s.WF) (he : s.entries.lookup id = some e)
    (sessionId : String) (id' : ℕ) :
    (s.forget id e).pendingBySession.lookup sessionId = some id' ↔
      ∃ e', (s.forget id e).entries.lookup id' = some e' ∧ e'.sessionId = sessionId := by
  simp only [QueueState.lookup_forget]
  simp only [QueueState.forget, AssocMap.lookup_erase]
  by_cases hsession : sessionId = e.sessionId
  · simp only [hsession, if_true, reduceCtorEq, false_iff, not_exists, not_and]
    intro e' he' hs
    split at he'
    · cases he'
    · next hid => exact hid (h.session_unique he' he hs)
  · simp only [hsession, if_false, h.pending_iff]
    refine exists_congr fun e' => ?_
    split
    · next hid =>
      subst hid
      simp only [he, Option.some.injEq, reduceCtorEq, false_and, iff_false, not_and]
      rintro rfl hs
      exact hsession hs.symm
    · rfl

theorem QueueState.WF.forget_reserved (h : s.WF) (he : s.entries.lookup id = some e)
    (hres : e.reserved = true) : (s.forget id e).WF := by
  -- what waits is not `id`, so the waiting entries are untouched
  have hwait : ∀ id' e', (s.forget id e).entries.lookup id' = some e' ∧ e'.reserved = false ↔
      s.entries.lookup id' = some e' ∧ e'.reserved = false := by
    intro id' e'
    rw [QueueState.lookup_forget]
    split
    · next hid =>
      subst hid
      simp only [he, reduceCtorEq, false_and, Option.some.injEq, false_iff, not_and]
      rintro rfl
      simp [hres]
    · rfl
  refine
    { waiting_nodup := h.waiting_nodup
      mem_waiting := ?_
      pending_iff := h.pending_forget he
      reserved_active := ?_
      roots_nodup := h.roots_nodup
      mem_roots := ?_
      id_lt := ?_ }
  · intro id'
    simp only [hwait]
    exact h.mem_waiting id'
  · intro id' e' he' hres'
    rw [QueueState.lookup_forget] at he'
    split at he'
    · cases he'
    · exact h.reserved_active id' e' he' hres'
  · intro root
    simp only [← and_assoc, hwait]
    simp only [and_assoc]
    exact h.mem_roots root
  · intro id' e' he'
    rw [QueueState.lookup_forget] at he'
    split at he'
    · cases he'
    · exact h.id_lt id' e' he'

/-- A slot can be given back when no reserved entry needs it. -/
theorem QueueState.WF.release (h : s.WF)
    (hfree : ∀ id e, s.entries.lookup id = some e → e.sessionId = sessionId →
      e.reserved = false) :
    QueueState.WF { s with active := s.active.erase sessionId } := by
  refine { h with reserved_active := ?_ }
  intro id e he hres
  have hsession : e.sessionId ≠ sessionId := by
    intro hs
    rw [hfree id e he hs] at hres
    cases hres
  simp only [AssocMap.lookup_erase, hsession, if_false]
  exact h.reserved_active id e he hres

/-- A reserved entry can be forgotten together with its slot. -/
theorem QueueState.WF.cancelReserved (h : s.WF) (he : s.entries.lookup id = some e)
    (hres : e.reserved = true) :
    QueueState.WF { s.forget id e with active := s.active.erase e.sessionId } := by
  refine (h.forget_reserved he hres).release ?_
  intro id' e' he' hs
  rw [QueueState.lookup_forget] at he'
  split at he'
  · cases he'
  · next hid => exact absurd (h.session_unique he' he hs) hid

/-- A waiting entry is forgotten and leaves its places in the queue. -/
def QueueState.unqueue (s : QueueState τ) (id : ℕ) (e : Entry τ) : QueueState τ :=
  { s.forget id e with
    waiting := s.waiting.filter fun queuedId => queuedId ≠ id
    waitingRoots :=
      if (s.waiting.erase id).any (s.under e.rootSessionId) then s.waitingRoots
      else s.waitingRoots.filter fun root => root ≠ e.rootSessionId }

theorem QueueState.WF.unqueue (h : s.WF) (he : s.entries.lookup id = some e) :
    (s.unqueue id e).WF := by
  have hwait : ∀ id' e', (s.unqueue id e).entries.lookup id' = some e' ∧ e'.reserved = false ↔
      id' ≠ id ∧ s.entries.lookup id' = some e' ∧ e'.reserved = false := by
    intro id' e'
    have := @QueueState.lookup_forget τ s id e id'
    simp only [QueueState.unqueue, this]
    split
    · next hid => simp [hid]
    · next hid => simp [hid]
  have hroots : ∀ root, root ≠ e.rootSessionId → (root ∈ s.waitingRoots ↔
      ∃ id' e', id' ≠ id ∧ s.entries.lookup id' = some e' ∧ e'.reserved = false ∧
        e'.rootSessionId = root) := by
    intro root hroot
    rw [h.mem_roots]
    constructor
    · rintro ⟨id', e', he', hres, rfl⟩
      refine ⟨id', e', ?_, he', hres, rfl⟩
      rintro rfl
      rw [he] at he'
      cases he'
      exact hroot rfl
    · rintro ⟨id', e', -, hrest⟩
      exact ⟨id', e', hrest⟩
  refine
    { waiting_nodup := h.waiting_nodup.filter _
      mem_waiting := ?_
      pending_iff := h.pending_forget he
      reserved_active := ?_
      roots_nodup := ?_
      mem_roots := ?_
      id_lt := ?_ }
  · intro id'
    simp only [hwait]
    simp only [QueueState.unqueue, mem_filter, h.mem_waiting, decide_eq_true_eq, ne_eq]
    constructor
    · rintro ⟨⟨e', hrest⟩, hid⟩
      exact ⟨e', hid, hrest⟩
    · rintro ⟨e', hid, hrest⟩
      exact ⟨⟨e', hrest⟩, hid⟩
  · intro id' e' he' hres'
    have hl := @QueueState.lookup_forget τ s id e id'
    simp only [QueueState.unqueue, hl] at he' ⊢
    split at he'
    · cases he'
    · exact h.reserved_active id' e' he' hres'
  · simp only [QueueState.unqueue]
    split
    · exact h.roots_nodup
    · exact h.roots_nodup.filter _
  · intro root
    simp only [← and_assoc, hwait]
    simp only [and_assoc, QueueState.unqueue]
    by_cases hroot : root = e.rootSessionId
    · subst hroot
      rw [← h.any_under_iff]
      split
      · next hany =>
        obtain ⟨id', e', -, hrest⟩ := h.any_under_iff.1 hany
        simp only [hany, iff_true]
        exact (h.mem_roots _).2 ⟨id', e', hrest⟩
      · next hany => simp [hany]
    · rw [← hroots root hroot]
      split
      · rfl
      · simp [hroot]
  · intro id' e' he'
    have hl := @QueueState.lookup_forget τ s id e id'
    simp only [QueueState.unqueue, hl] at he'
    split at he'
    · cases he'
    · exact h.id_lt id' e' he'

/-! ## Admitting work -/

/-- The entry a submission creates takes the id, and its session's pending work is gone. -/
def QueueState.renew (s : QueueState τ) (root sessionId : String) (work : τ) (reserved : Bool) :
    QueueState τ :=
  { s with
    nextId := s.nextId + 1
    entries := (match s.pendingBySession.lookup sessionId with
      | some previousId => s.entries.erase previousId
      | none => s.entries).insert s.nextId ⟨root, sessionId, work, reserved⟩
    pendingBySession := s.pendingBySession.insert sessionId s.nextId }

theorem QueueState.lookup_renew {reserved : Bool} {id' : ℕ} :
    (s.renew root sessionId work reserved).entries.lookup id' =
      if id' = s.nextId then some ⟨root, sessionId, work, reserved⟩
      else if s.pendingBySession.lookup sessionId = some id' then none
      else s.entries.lookup id' := by
  simp only [QueueState.renew, AssocMap.lookup_insert]
  split
  · rfl
  · rcases hp : s.pendingBySession.lookup sessionId with _ | previousId
    · simp
    · simp only [AssocMap.lookup_erase, Option.some.injEq, eq_comm (a := id')]

/-- What a submission makes of the queue before it dispatches. -/
inductive QueueState.Admitted (s : QueueState τ) (root sessionId : String) (work : τ) :
    QueueState τ → Prop
  /-- The session's pending work holds a slot: the new work takes it over. -/
  | takeOver (p : ℕ) (e : Entry τ) :
      s.pendingBySession.lookup sessionId = some p → s.entries.lookup p = some e →
      e.reserved = true → e.rootSessionId = root →
      Admitted s root sessionId work
        { s.renew root sessionId work true with
          active := s.active.insert sessionId (s.nextId, root) }
  /-- The session's pending work waits: the new work takes its position. -/
  | replace (p : ℕ) (e : Entry τ) :
      s.pendingBySession.lookup sessionId = some p → s.entries.lookup p = some e →
      e.reserved = false → e.rootSessionId = root →
      Admitted s root sessionId work
        { s.renew root sessionId work false with waiting := s.waiting.replace p s.nextId }
  /-- The session has no pending work: the new work joins the queue. -/
  | join :
      s.pendingBySession.lookup sessionId = none →
      Admitted s root sessionId work
        { s.renew root sessionId work false with
          waiting := s.waiting ++ [s.nextId]
          waitingRoots :=
            if root ∈ s.waitingRoots then s.waitingRoots else s.waitingRoots ++ [root] }

/-- `enqueue` does not panic on a well-formed queue. -/
theorem QueueState.WF.enqueue_spec (h : s.WF) (hid : s.nextId + 1 < 2 ^ 64)
    (rootSessionId sessionId : String) (work : τ) :
    ∃ s', s.enqueue (s.admittedRoot rootSessionId sessionId) sessionId work =
        some (s', s.nextId) ∧
      s.Admitted (s.admittedRoot rootSessionId sessionId) sessionId work s' := by
  have hsucc : checkedSucc s.nextId = some (s.nextId + 1) := if_pos hid
  rcases hp : s.pendingBySession.lookup sessionId with _ | p
  · refine ⟨_, ?_, .join hp⟩
    simp [QueueState.enqueue, QueueState.renew, hp, hsucc]
  · obtain ⟨e, he, hs⟩ := (h.pending_iff sessionId p).1 hp
    have hroot : e.rootSessionId = s.admittedRoot rootSessionId sessionId := by
      simp [QueueState.admittedRoot, hp, he]
    rcases hres : e.reserved with _ | _
    · refine ⟨_, ?_, .replace p e hp he hres hroot⟩
      have hmem : p ∈ s.waiting := (h.mem_waiting p).2 ⟨e, he, hres⟩
      simp [QueueState.enqueue, QueueState.renew, hp, he, hres, hsucc, hmem]
    · refine ⟨_, ?_, .takeOver p e hp he hres hroot⟩
      simp [QueueState.enqueue, QueueState.renew, hp, he, hres, hsucc]

section Renew

variable {reserved : Bool} {id' : ℕ} {e' : Entry τ}

/-- An entry of another session is untouched by a renewal. -/
theorem QueueState.WF.lookup_renew_iff (h : s.WF) :
    (s.renew root sessionId work reserved).entries.lookup id' = some e' ↔
      id' = s.nextId ∧ e' = ⟨root, sessionId, work, reserved⟩ ∨
      s.entries.lookup id' = some e' ∧ e'.sessionId ≠ sessionId := by
  rw [QueueState.lookup_renew]
  have hlt : s.entries.lookup id' = some e' → id' ≠ s.nextId :=
    fun he => Nat.ne_of_lt (h.id_lt id' e' he)
  have hsession : s.entries.lookup id' = some e' →
      (e'.sessionId = sessionId ↔ s.pendingBySession.lookup sessionId = some id') := by
    intro he
    rw [h.pending_iff]
    simp [he]
  split
  · next hid =>
    subst hid
    constructor
    · intro he
      exact Or.inl ⟨rfl, (Option.some.inj he).symm⟩
    · rintro (⟨-, rfl⟩ | ⟨he, -⟩)
      · rfl
      · exact absurd rfl (hlt he)
  · next hid =>
    simp only [hid, false_and, false_or]
    split
    · next hp =>
      simp only [reduceCtorEq, false_iff, not_and, not_not]
      exact fun he => (hsession he).2 hp
    · next hp =>
      constructor
      · exact fun he => ⟨he, fun hs => hp ((hsession he).1 hs)⟩
      · exact fun he => he.1

theorem QueueState.WF.pending_renew (h : s.WF) (sessionId' : String) :
    (s.renew root sessionId work reserved).pendingBySession.lookup sessionId' = some id' ↔
      ∃ e', (s.renew root sessionId work reserved).entries.lookup id' = some e' ∧
        e'.sessionId = sessionId' := by
  simp only [h.lookup_renew_iff]
  simp only [QueueState.renew, AssocMap.lookup_insert]
  split
  · next hs =>
    subst hs
    constructor
    · intro hid
      exact ⟨_, Or.inl ⟨(Option.some.inj hid).symm, rfl⟩, rfl⟩
    · rintro ⟨e', ⟨rfl, -⟩ | ⟨-, hne⟩, hs⟩
      · rfl
      · exact absurd hs hne
  · next hs =>
    rw [h.pending_iff]
    constructor
    · rintro ⟨e', he', rfl⟩
      exact ⟨e', Or.inr ⟨he', hs⟩, rfl⟩
    · rintro ⟨e', ⟨-, rfl⟩ | ⟨he', -⟩, hs'⟩
      · exact absurd hs'.symm hs
      · exact ⟨e', he', hs'⟩

theorem QueueState.WF.id_lt_renew (h : s.WF)
    (he : (s.renew root sessionId work reserved).entries.lookup id' = some e') :
    id' < s.nextId + 1 := by
  rcases h.lookup_renew_iff.1 he with ⟨rfl, -⟩ | ⟨he, -⟩
  · exact Nat.lt_succ_self _
  · exact Nat.lt_succ_of_lt (h.id_lt id' e' he)

/-- The entry that a session's pending work names is the only one of the session. -/
theorem QueueState.WF.session_ne_iff (h : s.WF) {p : ℕ}
    (hp : s.pendingBySession.lookup sessionId = some p) (he : s.entries.lookup id' = some e') :
    e'.sessionId ≠ sessionId ↔ id' ≠ p := by
  have := h.pending_iff sessionId id'
  rw [hp] at this
  simp only [Option.some.injEq, he, exists_eq_left'] at this
  rw [ne_eq, ← this, eq_comm]

end Renew

/-- A reserved entry of another session keeps its slot. -/
theorem QueueState.WF.reserved_active_renew (h : s.WF) {id' : ℕ} {e' : Entry τ}
    (he : (s.renew root sessionId work false).entries.lookup id' = some e')
    (hres : e'.reserved = true) :
    s.active.lookup e'.sessionId = some (id', e'.rootSessionId) := by
  rcases h.lookup_renew_iff.1 he with ⟨-, rfl⟩ | ⟨he, -⟩
  · cases hres
  · exact h.reserved_active id' e' he hres

/-- A submission keeps the queue well formed. -/
theorem QueueState.WF.admitted (h : s.WF) (ha : s.Admitted root sessionId work s') : s'.WF := by
  have hfresh : s.nextId ∉ s.waiting := by
    intro hmem
    obtain ⟨e, he, -⟩ := (h.mem_waiting _).1 hmem
    exact Nat.lt_irrefl _ (h.id_lt _ e he)
  cases ha with
  | takeOver p e hp he hres hroot =>
    -- the waiting entries are those of other sessions, as before
    have hwait : ∀ id' e',
        (s.renew root sessionId work true).entries.lookup id' = some e' ∧ e'.reserved = false ↔
          s.entries.lookup id' = some e' ∧ e'.reserved = false := by
      intro id' e'
      rw [h.lookup_renew_iff]
      constructor
      · rintro ⟨⟨-, rfl⟩ | ⟨he', -⟩, hres'⟩
        · cases hres'
        · exact ⟨he', hres'⟩
      · rintro ⟨he', hres'⟩
        refine ⟨Or.inr ⟨he', (h.session_ne_iff hp he').2 ?_⟩, hres'⟩
        rintro rfl
        rw [he] at he'
        cases he'
        rw [hres] at hres'
        cases hres'
    refine
      { waiting_nodup := h.waiting_nodup
        mem_waiting := ?_
        pending_iff := fun sessionId' id' => h.pending_renew sessionId'
        reserved_active := ?_
        roots_nodup := h.roots_nodup
        mem_roots := ?_
        id_lt := fun id' e' he' => h.id_lt_renew he' }
    · intro id'
      simp only [hwait]
      exact h.mem_waiting id'
    · intro id' e' he' hres'
      simp only [AssocMap.lookup_insert]
      rcases h.lookup_renew_iff.1 he' with ⟨rfl, rfl⟩ | ⟨he', hs⟩
      · simp
      · simp only [hs, if_false]
        exact h.reserved_active id' e' he' hres'
    · intro root'
      simp only [← and_assoc, hwait]
      simp only [and_assoc]
      exact h.mem_roots root'
  | replace p e hp he hres hroot =>
    have hmem : p ∈ s.waiting := (h.mem_waiting p).2 ⟨e, he, hres⟩
    refine
      { waiting_nodup := nodup_replace h.waiting_nodup hfresh
        mem_waiting := ?_
        pending_iff := fun sessionId' id' => h.pending_renew sessionId'
        reserved_active := fun id' e' he' hres' => h.reserved_active_renew he' hres'
        roots_nodup := h.roots_nodup
        mem_roots := ?_
        id_lt := fun id' e' he' => h.id_lt_renew he' }
    · intro id'
      simp only [mem_replace h.waiting_nodup hmem, h.lookup_renew_iff, h.mem_waiting]
      constructor
      · rintro (rfl | ⟨hid, e', he', hres'⟩)
        · exact ⟨_, Or.inl ⟨rfl, rfl⟩, rfl⟩
        · exact ⟨e', Or.inr ⟨he', (h.session_ne_iff hp he').2 hid⟩, hres'⟩
      · rintro ⟨e', ⟨rfl, -⟩ | ⟨he', hs⟩, hres'⟩
        · exact Or.inl rfl
        · exact Or.inr ⟨(h.session_ne_iff hp he').1 hs, e', he', hres'⟩
    · intro root'
      simp only [h.lookup_renew_iff]
      -- the replaced entry and the new one are under the same root
      refine (h.mem_roots root').trans ⟨?_, ?_⟩
      · rintro ⟨id', e', he', hres', rfl⟩
        by_cases hid : id' = p
        · subst hid
          rw [he] at he'
          cases he'
          exact ⟨_, _, Or.inl ⟨rfl, rfl⟩, rfl, hroot.symm⟩
        · exact ⟨id', e', Or.inr ⟨he', (h.session_ne_iff hp he').2 hid⟩, hres', rfl⟩
      · rintro ⟨id', e', ⟨-, rfl⟩ | ⟨he', -⟩, hres', rfl⟩
        · exact ⟨p, e, he, hres, hroot⟩
        · exact ⟨id', e', he', hres', rfl⟩
  | join hp =>
    have hother : ∀ id' e', s.entries.lookup id' = some e' → e'.sessionId ≠ sessionId := by
      rintro id' e' he' hs
      rw [(h.pending_iff sessionId id').2 ⟨e', he', hs⟩] at hp
      cases hp
    refine
      { waiting_nodup := ?_
        mem_waiting := ?_
        pending_iff := fun sessionId' id' => h.pending_renew sessionId'
        reserved_active := fun id' e' he' hres' => h.reserved_active_renew he' hres'
        roots_nodup := ?_
        mem_roots := ?_
        id_lt := fun id' e' he' => h.id_lt_renew he' }
    · exact nodup_append.2 ⟨h.waiting_nodup, by simp,
        fun a ha b hb hab => hfresh (by rw [mem_singleton] at hb; rwa [← hb, ← hab])⟩
    · intro id'
      simp only [mem_append, mem_singleton, h.lookup_renew_iff, h.mem_waiting]
      constructor
      · rintro (⟨e', he', hres'⟩ | rfl)
        · exact ⟨e', Or.inr ⟨he', hother id' e' he'⟩, hres'⟩
        · exact ⟨_, Or.inl ⟨rfl, rfl⟩, rfl⟩
      · rintro ⟨e', ⟨rfl, -⟩ | ⟨he', -⟩, hres'⟩
        · exact Or.inr rfl
        · exact Or.inl ⟨e', he', hres'⟩
    · simp only
      split
      · exact h.roots_nodup
      · next hmem =>
        exact nodup_append.2 ⟨h.roots_nodup, by simp,
          fun a ha b hb hab => hmem (by rw [mem_singleton] at hb; rwa [← hb, ← hab])⟩
    · intro root'
      have hmem : (root' ∈ if root ∈ s.waitingRoots then s.waitingRoots
          else s.waitingRoots ++ [root]) ↔ root' = root ∨ root' ∈ s.waitingRoots := by
        split
        · next hmem =>
          constructor
          · exact Or.inr
          · rintro (rfl | hr)
            · exact hmem
            · exact hr
        · simp [or_comm]
      simp only [hmem, h.lookup_renew_iff, h.mem_roots]
      constructor
      · rintro (rfl | ⟨id', e', he', hrest⟩)
        · exact ⟨_, _, Or.inl ⟨rfl, rfl⟩, rfl, rfl⟩
        · exact ⟨id', e', Or.inr ⟨he', hother id' e' he'⟩, hrest⟩
      · rintro ⟨id', e', ⟨-, rfl⟩ | ⟨he', -⟩, hrest⟩
        · exact Or.inl hrest.2.symm
        · exact Or.inr ⟨id', e', he', hrest⟩

/-! ## The waiting bounds -/

/-- How many entries wait under a root. -/
def QueueState.rootWaiting (s : QueueState τ) (root : String) : ℕ := s.waiting.countP (s.under root)

/-- The waiting bounds. -/
structure QueueState.Bounded (q : RouterSummaryQueue) (s : QueueState τ) : Prop where
  /-- At most `maxPendingSessions` entries wait. -/
  waiting_le : s.waiting.length ≤ q.maxPendingSessions
  /-- At most `maxPendingPerRoot` of them under one root. -/
  root_le : ∀ root, s.rootWaiting root ≤ q.maxPendingPerRoot

/-- The bounds survive when entries stop waiting. -/
theorem QueueState.Bounded.shrink (h : s.Bounded q) (hsub : s'.waiting.Sublist s.waiting)
    (hunder : ∀ root, ∀ id ∈ s'.waiting, s'.under root id = s.under root id) : s'.Bounded q where
  waiting_le := le_trans hsub.length_le h.waiting_le
  root_le root := by
    refine le_trans ?_ (h.root_le root)
    unfold QueueState.rootWaiting
    rw [countP_congr fun id hid => by rw [hunder root id hid]]
    exact hsub.countP_le

theorem QueueState.Bounded.granted (h : s.Bounded q) (hg : s.Granted s') : s'.Bounded q :=
  h.shrink hg.waiting fun root _ _ => by rw [hg.under_eq root]

/-- Entries of other ids are under the same root after a renewal. -/
theorem QueueState.under_renew {reserved : Bool} {id' : ℕ} (hid : id' ≠ s.nextId)
    (hp : s.pendingBySession.lookup sessionId ≠ some id') (root' : String) :
    (s.renew root sessionId work reserved).under root' id' = s.under root' id' := by
  simp [QueueState.under, QueueState.lookup_renew, hid, hp]

theorem QueueState.under_renew_self {reserved : Bool} (root' : String) :
    (s.renew root sessionId work reserved).under root' s.nextId = decide (root = root') := by
  simp [QueueState.under, QueueState.lookup_renew]

theorem QueueState.WF.ne_nextId_of_waiting (h : s.WF) (hid : id ∈ s.waiting) : id ≠ s.nextId := by
  obtain ⟨e, he, -⟩ := (h.mem_waiting id).1 hid
  exact Nat.ne_of_lt (h.id_lt id e he)

/-- Everything waiting is blocked: what work conservation says of a queue with a free slot. -/
def QueueState.Conserving (q : RouterSummaryQueue) (s : QueueState τ) : Prop :=
  AssocMap.size s.active < q.concurrency → ∀ root, ¬s.RunnableRoot root

/-- In a conserving queue with a free slot, a joining entry is the only one that can run, so the
dispatch that follows reserves it first and the other entries wait as before. -/
theorem QueueState.WF.join_dispatched (h : s.WF) (hc : s.Conserving q)
    (hfree : AssocMap.size s.active < q.concurrency)
    (hidle : s.active.lookup sessionId = none) {s₁ : QueueState τ} {ds : List (Dispatch τ)}
    (hall : s₁.DispatchedAll q.concurrency ds s') (hs₁ : s₁.waiting = s.waiting ++ [s.nextId])
    (hent : s₁.entries = (s.renew root sessionId work false).entries)
    (hact : s₁.active = s.active) :
    s'.waiting.Sublist s.waiting := by
  have hlookup : ∀ id', s₁.entries.lookup id' =
      (s.renew root sessionId work false).entries.lookup id' := fun id' => by rw [hent]
  have hnew : s₁.Runnable s.nextId ⟨root, sessionId, work, false⟩ := by
    refine ⟨?_, rfl, by rw [hact]; exact hidle⟩
    rw [hlookup, h.lookup_renew_iff]
    exact Or.inl ⟨rfl, rfl⟩
  have honly : ∀ id' e', s₁.Runnable id' e' → id' = s.nextId := by
    rintro id' e' ⟨he', hres', hidle'⟩
    rw [hlookup] at he'
    rcases h.lookup_renew_iff.1 he' with ⟨rfl, -⟩ | ⟨he', -⟩
    · rfl
    · rw [hact] at hidle'
      exact absurd ⟨id', e', ⟨he', hres', hidle'⟩, rfl⟩ (hc hfree e'.rootSessionId)
  have hnot : s.nextId ∉ s.waiting := fun hmem => h.ne_nextId_of_waiting hmem rfl
  cases ds with
  | nil =>
    have heq := run_nil.1 hall.run
    subst heq
    exact absurd ⟨_, _, hnew, rfl⟩ (hall.conserving (by rw [hact]; exact hfree) root)
  | cons d ds =>
    obtain ⟨s₂, hround, hrest⟩ := run_cons.1 hall.run
    obtain ⟨-, e, hd⟩ := hround
    have hall₂ : s₂.DispatchedAll q.concurrency ds s' := ⟨hrest, hall.conserving, hall.wf⟩
    refine hall₂.granted.waiting.trans ?_
    rw [hd.next_eq]
    simp only [QueueState.reserve, hs₁, honly _ _ hd.runnable]
    rw [erase_append_right _ hnot]
    simp

/-- **A submission keeps the waiting bounds.** -/
theorem QueueState.WF.admitted_bounded (h : s.WF) (hb : s.Bounded q) (hc : s.Conserving q)
    {s₁ : QueueState τ} {ds : List (Dispatch τ)} (ha : s.Admitted root sessionId work s₁)
    (hroom : s.pendingBySession.lookup sessionId = none →
      ¬(AssocMap.size s.active < q.concurrency ∧ s.active.lookup sessionId = none) →
      s.waiting.length < q.maxPendingSessions ∧ s.rootWaiting root < q.maxPendingPerRoot)
    (hall : s₁.DispatchedAll q.concurrency ds s') : s'.Bounded q := by
  cases ha with
  | takeOver p e hp he hres hroot =>
    refine QueueState.Bounded.granted ?_ hall.granted
    refine hb.shrink (List.Sublist.refl _) ?_
    intro root' id' hid'
    refine QueueState.under_renew (h.ne_nextId_of_waiting hid') ?_ root'
    rw [hp]
    rintro heq
    cases heq
    obtain ⟨e', he', hres'⟩ := (h.mem_waiting _).1 hid'
    rw [he] at he'
    cases he'
    rw [hres] at hres'
    cases hres'
  | replace p e hp he hres hroot =>
    refine QueueState.Bounded.granted ⟨?_, ?_⟩ hall.granted
    · simp only [length_replace]
      exact hb.waiting_le
    · intro root'
      refine le_of_eq_of_le ?_ (hb.root_le root')
      simp only [QueueState.rootWaiting, replace_eq_map h.waiting_nodup, countP_map]
      refine countP_congr fun id' hid' => ?_
      simp only [Function.comp]
      split
      · next hid =>
        subst hid
        have h₁ : (s.renew root sessionId work false).under root' s.nextId = decide (root = root') :=
          QueueState.under_renew_self root'
        have h₂ : s.under root' id' = decide (root = root') := by
          simp [QueueState.under, he, hroot]
        simp only [QueueState.under] at h₁ h₂ ⊢
        rw [h₁, h₂]
      · next hid =>
        have h₁ : (s.renew root sessionId work false).under root' id' = s.under root' id' :=
          QueueState.under_renew (h.ne_nextId_of_waiting hid')
            (by rw [hp]; simpa using fun heq => hid heq.symm) root'
        simp only [QueueState.under] at h₁ ⊢
        rw [h₁]
  | join hp =>
    have hunder : ∀ root', ∀ id' ∈ s.waiting,
        (s.renew root sessionId work false).under root' id' = s.under root' id' :=
      fun root' id' hid' => QueueState.under_renew (h.ne_nextId_of_waiting hid')
        (by rw [hp]; simp) root'
    by_cases hcan : AssocMap.size s.active < q.concurrency ∧ s.active.lookup sessionId = none
    · have hsub := h.join_dispatched hc hcan.1 hcan.2 hall rfl rfl rfl
      refine hb.shrink hsub ?_
      intro root' id' hid'
      rw [hall.granted.under_eq]
      exact hunder root' id' (hsub.subset hid')
    · obtain ⟨hlt, hrootlt⟩ := hroom hp hcan
      refine QueueState.Bounded.granted ⟨?_, ?_⟩ hall.granted
      · simp only [length_append, length_singleton]
        exact hlt
      · intro root'
        have hcount : (s.waiting ++ [s.nextId]).countP
            ((s.renew root sessionId work false).under root') =
            s.rootWaiting root' + if root = root' then 1 else 0 := by
          rw [countP_append, countP_singleton, QueueState.under_renew_self,
            QueueState.rootWaiting,
            countP_congr fun id' hid' => by rw [hunder root' id' hid']]
          simp
        refine le_of_eq_of_le hcount ?_
        split
        · next heq =>
          subst heq
          exact hrootlt
        · exact hb.root_le root'

/-! ## The operations on a well-formed queue -/

/-- What a submission does: it is refused and nothing changes, or it is admitted and the queue
dispatches. -/
inductive QueueState.Submits (q : RouterSummaryQueue) (s : QueueState τ)
    (rootSessionId sessionId : String) (work : τ) :
    QueueState τ × Except RouterSummaryQueueFull ℕ × List (Dispatch τ) → Prop
  | full : Submits q s rootSessionId sessionId work (s, .error .full, [])
  | admitted (s₁ s' : QueueState τ) (ds : List (Dispatch τ)) :
      s.Admitted (s.admittedRoot rootSessionId sessionId) sessionId work s₁ →
      (s.pendingBySession.lookup sessionId = none →
        ¬(AssocMap.size s.active < q.concurrency ∧ s.active.lookup sessionId = none) →
        s.waiting.length < q.maxPendingSessions ∧
          s.rootWaiting (s.admittedRoot rootSessionId sessionId) < q.maxPendingPerRoot) →
      s₁.DispatchedAll q.concurrency ds s' →
      Submits q s rootSessionId sessionId work (s', .ok s.nextId, ds)

theorem QueueState.WF.submitFor_spec (h : s.WF) (q : RouterSummaryQueue)
    (rootSessionId sessionId : String) (work : τ) :
    (s.submitFor q rootSessionId sessionId work = none ∧ ¬s.nextId + 1 < 2 ^ 64) ∨
    ∃ r, s.submitFor q rootSessionId sessionId work = some r ∧
      s.Submits q rootSessionId sessionId work r := by
  obtain ⟨entries, hentries⟩ := exists_mapM h.waiting_isSome
  by_cases hfull : ((s.pendingBySession.lookup sessionId).isNone &&
      !(AssocMap.size s.active < q.concurrency && (s.active.lookup sessionId).isNone) &&
      (decide (q.maxPendingSessions ≤ s.waiting.length) ||
        decide (q.maxPendingPerRoot ≤ entries.countP fun entry =>
          entry.rootSessionId = s.admittedRoot rootSessionId sessionId))) = true
  · exact Or.inr ⟨_, by
      simp only [QueueState.submitFor, hentries, Option.bind_eq_bind, Option.bind_some, hfull,
        if_true]
      rfl, .full⟩
  have hunfold : s.submitFor q rootSessionId sessionId work =
      (s.enqueue (s.admittedRoot rootSessionId sessionId) sessionId work).bind fun queued =>
        (queued.1.dispatch q.concurrency).bind fun sent => some (sent.1, .ok queued.2, sent.2) := by
    simp only [QueueState.submitFor, hentries, Option.bind_eq_bind, Option.bind_some, hfull]
    rfl
  by_cases hid : s.nextId + 1 < 2 ^ 64
  · right
    obtain ⟨s₁, henqueue, ha⟩ := h.enqueue_spec hid rootSessionId sessionId work
    obtain ⟨s', ds, hdispatch, hall⟩ := (h.admitted ha).dispatch_spec q.concurrency
    refine ⟨(s', .ok s.nextId, ds), by simp [hunfold, henqueue, hdispatch],
      .admitted s₁ s' ds ha ?_ hall⟩
    intro hp hcan
    rw [countP_of_mapM hentries] at hfull
    simp only [hp, Option.isNone_none, Bool.true_and, Bool.and_eq_true, Bool.or_eq_true,
      Bool.not_eq_true', decide_eq_true_eq, not_and, not_or, not_le, Bool.eq_false_iff,
      Option.isNone_iff_eq_none, ne_eq] at hfull
    exact hfull (by tauto)
  · left
    refine ⟨?_, hid⟩
    have hsucc : checkedSucc s.nextId = none := if_neg hid
    simp [hunfold, QueueState.enqueue, hsucc]

/-- `cancel` of a pending ticket forgets its entry, or frees its slot too, and dispatches. -/
theorem QueueState.WF.cancel_spec (h : s.WF) (q : RouterSummaryQueue)
    (he : s.entries.lookup id = some e) :
    ∃ s₁ s' ds, s.cancel q id = some (s', ds) ∧ s₁.WF ∧ s₁.DispatchedAll q.concurrency ds s' ∧
      (e.reserved = true ∧ s₁ = { s.forget id e with active := s.active.erase e.sessionId } ∨
        e.reserved = false ∧ s₁ = s.unqueue id e) := by
  rcases hres : e.reserved with _ | _
  · have hwf := h.unqueue he
    obtain ⟨s', ds, hdispatch, hall⟩ := hwf.dispatch_spec q.concurrency
    refine ⟨_, s', ds, ?_, hwf, hall, Or.inr ⟨rfl, rfl⟩⟩
    have hfilter : (s.waiting.filter fun queuedId => queuedId ≠ id) = s.waiting.erase id := by
      rw [h.waiting_nodup.erase_eq_filter]
      exact filter_congr fun x _ => by by_cases hx : x = id <;> simp [hx]
    have hany : (s.forget id e).anyUnder (s.waiting.erase id) e.rootSessionId =
        some ((s.waiting.erase id).any (s.under e.rootSessionId)) := by
      have hlookup : ∀ id' ∈ s.waiting.erase id,
          (s.forget id e).entries.lookup id' = s.entries.lookup id' := by
        intro id' hid'
        have hne := (h.waiting_nodup.mem_erase_iff.1 hid').1
        exact QueueState.lookup_forget_ne hne
      rw [QueueState.anyUnder_eq fun id' hid' => by
        rw [hlookup id' hid']
        exact h.waiting_isSome id' (mem_of_mem_erase hid')]
      congr 1
      refine Bool.eq_iff_iff.2 ?_
      simp only [any_eq_true, QueueState.under]
      refine exists_congr fun id' => and_congr_right fun hid' => ?_
      rw [hlookup id' hid']
    simp only [QueueState.unqueue, hfilter] at hdispatch
    simp only [QueueState.forget] at hany hdispatch
    simp only [QueueState.cancel, he, hres, hfilter, hany, Option.bind_eq_bind, Option.bind_some]
    exact hdispatch
  · have hwf := h.cancelReserved he hres
    obtain ⟨s', ds, hdispatch, hall⟩ := hwf.dispatch_spec q.concurrency
    exact ⟨_, s', ds, by simp only [QueueState.cancel, he, hres, if_true]; exact hdispatch, hwf,
      hall, Or.inl ⟨rfl, rfl⟩⟩

theorem QueueState.WF.update (h : s.WF) (he : s.entries.lookup id = some e) :
    QueueState.WF { s with entries := s.entries.insert id { e with work := work } } := by
  have hlookup : ∀ id' (p : Entry τ → Prop), (∀ x, p { e with work := x } ↔ p e) →
      ((∃ e', (s.entries.insert id { e with work := work }).lookup id' = some e' ∧ p e') ↔
        ∃ e', s.entries.lookup id' = some e' ∧ p e') := by
    intro id' p hp
    simp only [AssocMap.lookup_insert]
    split
    · next hid =>
      subst hid
      simp [he, hp]
    · rfl
  refine
    { waiting_nodup := h.waiting_nodup
      mem_waiting := ?_
      pending_iff := ?_
      reserved_active := ?_
      roots_nodup := h.roots_nodup
      mem_roots := ?_
      id_lt := ?_ }
  · intro id'
    rw [hlookup id' (fun e => e.reserved = false) fun _ => Iff.rfl]
    exact h.mem_waiting id'
  · intro sessionId' id'
    rw [hlookup id' (fun e => e.sessionId = sessionId') fun _ => Iff.rfl]
    exact h.pending_iff sessionId' id'
  · intro id' e' he' hres
    simp only [AssocMap.lookup_insert] at he'
    split at he'
    · next hid =>
      cases he'
      subst hid
      exact h.reserved_active id' e he hres
    · exact h.reserved_active id' e' he' hres
  · intro root'
    refine (h.mem_roots root').trans (exists_congr fun id' => ?_)
    exact (hlookup id' (fun e => e.reserved = false ∧ e.rootSessionId = root')
      fun _ => Iff.rfl).symm
  · intro id' e' he'
    simp only [AssocMap.lookup_insert] at he'
    split at he'
    · next hid =>
      subst hid
      exact h.id_lt id' e he
    · exact h.id_lt id' e' he'

end SummaryQueue

end OpenBitFun
