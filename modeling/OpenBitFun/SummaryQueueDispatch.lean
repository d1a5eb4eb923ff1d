import OpenBitFun.Lists
import OpenBitFun.SummaryQueue

/-!
# What a dispatch does

`QueueState.WF` ties the six collections of the queue together. In a well-formed queue no index of
the dispatch loop fails, and one round of it is completely described by `Dispatched`: it reserves
the first runnable entry of the root whose turn it is. Every later fact about the scheduler is read
off that description, never off the code.
-/

namespace OpenBitFun

open List

namespace SummaryQueue

variable {τ : Type} {s s' : QueueState τ} {root : String} {id : ℕ} {e : Entry τ}

/-! ## Well-formed queues -/

/-- The entry `id` is scheduled under `root`. -/
def QueueState.under (s : QueueState τ) (root : String) (id : ℕ) : Bool :=
  (s.entries.lookup id).any fun e => e.rootSessionId = root

/-- `id` waits, and its leaf session holds no slot. -/
def QueueState.Runnable (s : QueueState τ) (id : ℕ) (e : Entry τ) : Prop :=
  s.entries.lookup id = some e ∧ e.reserved = false ∧ s.active.lookup e.sessionId = none

/-- A root that could use a slot now. -/
def QueueState.RunnableRoot (s : QueueState τ) (root : String) : Prop :=
  ∃ id e, s.Runnable id e ∧ e.rootSessionId = root

/-- The cross-references between the collections of a queue. -/
structure QueueState.WF (s : QueueState τ) : Prop where
  /-- Nothing waits twice. -/
  waiting_nodup : s.waiting.Nodup
  /-- What waits is what is not reserved. -/
  mem_waiting : ∀ id, id ∈ s.waiting ↔ ∃ e, s.entries.lookup id = some e ∧ e.reserved = false
  /-- The pending work of a session is its entry. -/
  pending_iff : ∀ sessionId id, s.pendingBySession.lookup sessionId = some id ↔
    ∃ e, s.entries.lookup id = some e ∧ e.sessionId = sessionId
  /-- A reserved entry holds its session's slot. -/
  reserved_active : ∀ id e, s.entries.lookup id = some e → e.reserved = true →
    s.active.lookup e.sessionId = some (id, e.rootSessionId)
  /-- No root is listed twice. -/
  roots_nodup : s.waitingRoots.Nodup
  /-- The roots listed are those that wait. -/
  mem_roots : ∀ root, root ∈ s.waitingRoots ↔
    ∃ id e, s.entries.lookup id = some e ∧ e.reserved = false ∧ e.rootSessionId = root
  /-- Ids are issued in order. -/
  id_lt : ∀ id e, s.entries.lookup id = some e → id < s.nextId

theorem QueueState.under_iff : s.under root id = true ↔
    ∃ e, s.entries.lookup id = some e ∧ e.rootSessionId = root := by
  simp [QueueState.under, Option.any_eq_true]

theorem QueueState.WF.session_unique (h : s.WF) {id' : ℕ} {e' : Entry τ}
    (he : s.entries.lookup id = some e) (he' : s.entries.lookup id' = some e')
    (hs : e.sessionId = e'.sessionId) : id = id' := by
  have h₁ := (h.pending_iff e.sessionId id).2 ⟨e, he, rfl⟩
  have h₂ := (h.pending_iff e.sessionId id').2 ⟨e', he', hs.symm⟩
  rw [h₁] at h₂
  exact Option.some.inj h₂

theorem QueueState.WF.waiting_isSome (h : s.WF) :
    ∀ id ∈ s.waiting, (s.entries.lookup id).isSome := by
  intro id hid
  obtain ⟨e, he, -⟩ := (h.mem_waiting id).1 hid
  simp [he]

theorem QueueState.WF.mem_waiting_of_runnable (h : s.WF) (hr : s.Runnable id e) :
    id ∈ s.waiting :=
  (h.mem_waiting id).2 ⟨e, hr.1, hr.2.1⟩

/-! ## The choice of an entry -/

/-- `anyUnder` does not panic when every id has an entry. -/
theorem QueueState.anyUnder_eq {ids : List ℕ} (h : ∀ id ∈ ids, (s.entries.lookup id).isSome) :
    s.anyUnder ids root = some (ids.any (s.under root)) := by
  obtain ⟨r, hr⟩ := exists_mapM h
  simp only [QueueState.anyUnder, hr, Option.bind_eq_bind, Option.bind_some, any_of_mapM hr]
  rfl

/-- The entry at a position is the first runnable one of `root`. -/
structure QueueState.FirstRunnable (s : QueueState τ) (root : String) (position id : ℕ)
    (e : Entry τ) : Prop where
  /-- It stands there. -/
  at_position : s.waiting[position]? = some id
  /-- It is runnable. -/
  runnable : s.Runnable id e
  /-- It is the root's. -/
  root_eq : e.rootSessionId = root
  /-- Nothing before it is a runnable entry of the root. -/
  first : ∀ i < position, ∀ id' e', s.waiting[i]? = some id' → s.Runnable id' e' →
    e'.rootSessionId ≠ root

/-- The test that `runnable_position` searches with. -/
theorem QueueState.WF.runnable_test (h : s.WF) (hid : id ∈ s.waiting) :
    ((s.entries.lookup id).any fun entry =>
      entry.rootSessionId = root && (s.active.lookup entry.sessionId).isNone) = true ↔
    ∃ e, s.Runnable id e ∧ e.rootSessionId = root := by
  obtain ⟨e, he, hres⟩ := (h.mem_waiting id).1 hid
  simp only [he, Option.any_some, Bool.and_eq_true, decide_eq_true_eq, Option.isNone_iff_eq_none,
    QueueState.Runnable, Option.some.injEq]
  constructor
  · rintro ⟨hroot, hactive⟩
    exact ⟨e, ⟨rfl, hres, hactive⟩, hroot⟩
  · rintro ⟨_, ⟨rfl, -, hactive⟩, hroot⟩
    exact ⟨hroot, hactive⟩

/-- `runnable_position` finds the first runnable entry of a root, if there is one. -/
theorem QueueState.WF.runnablePosition_spec (h : s.WF) (root : String) :
    (s.runnablePosition root = some none ∧ ¬s.RunnableRoot root) ∨
    ∃ position id e, s.runnablePosition root = some (some position) ∧
      s.FirstRunnable root position id e := by
  obtain ⟨r, hr⟩ := exists_mapM h.waiting_isSome
  have hpos : s.runnablePosition root = some (s.waiting.findIdx? fun id =>
      (s.entries.lookup id).any fun entry =>
        entry.rootSessionId = root && (s.active.lookup entry.sessionId).isNone) := by
    simp only [QueueState.runnablePosition, hr, Option.bind_eq_bind, Option.bind_some,
      findIdx?_of_mapM hr]
    rfl
  rw [hpos]
  rcases hfind : s.waiting.findIdx? _ with _ | position
  · left
    refine ⟨rfl, ?_⟩
    rintro ⟨id, e, hrun, hroot⟩
    have hid := h.mem_waiting_of_runnable hrun
    have := findIdx?_eq_none_iff.1 hfind id hid
    rw [(h.runnable_test hid).2 ⟨e, hrun, hroot⟩] at this
    cases this
  · right
    obtain ⟨hlt, htest, hbefore⟩ := findIdx?_eq_some_iff_getElem.1 hfind
    obtain ⟨e, hrun, hroot⟩ := (h.runnable_test (getElem_mem hlt)).1 htest
    refine ⟨position, _, e, rfl, List.getElem?_eq_getElem hlt, hrun, hroot, ?_⟩
    intro i hi id' e' hid' hrun' hroot'
    obtain ⟨hlt', rfl⟩ := List.getElem?_eq_some_iff.1 hid'
    exact hbefore i hi ((h.runnable_test (List.getElem_mem hlt')).2 ⟨e', hrun', hroot'⟩)

/-- What the candidates are: the roots with a runnable entry, in their order. -/
structure QueueState.CandidatesOf (s : QueueState τ) (start : ℕ) (roots : List String)
    (cs : List Candidate) : Prop where
  /-- Each candidate stands for a root of the list. -/
  sound : ∀ c ∈ cs, ∃ i root id e, c.rootIndex = start + i ∧ roots[i]? = some root ∧
    s.FirstRunnable root c.position id e ∧
    (c.isLastRoot = true ↔ some root = s.lastDispatchedRoot)
  /-- Every root with a runnable entry has one. -/
  complete : ∀ i root, roots[i]? = some root → s.RunnableRoot root →
    ∃ c ∈ cs, c.rootIndex = start + i ∧ (c.isLastRoot = true ↔ some root = s.lastDispatchedRoot)
  /-- They keep the order of the roots. -/
  sorted : cs.Pairwise fun c c' => c.rootIndex < c'.rootIndex

theorem QueueState.WF.candidatesFrom_spec (h : s.WF) (roots : List String) :
    ∀ start, ∃ cs, s.candidatesFrom start roots = some cs ∧ s.CandidatesOf start roots cs := by
  induction roots with
  | nil =>
    intro start
    refine ⟨[], rfl, ?_, ?_, List.Pairwise.nil⟩
    · intro c hc
      cases hc
    · intro i root hroot
      simp at hroot
  | cons root roots ih =>
    intro start
    obtain ⟨rest, hrest, hspec⟩ := ih (start + 1)
    rcases h.runnablePosition_spec root with ⟨hpos, hnone⟩ | ⟨position, id, e, hpos, hfirst⟩
    · refine ⟨rest, by simp [QueueState.candidatesFrom, hpos, hrest], ?_, ?_, hspec.sorted⟩
      · intro c hc
        obtain ⟨i, r, id, e, hi, hr, hfirst⟩ := hspec.sound c hc
        exact ⟨i + 1, r, id, e, by omega, by simpa using hr, hfirst⟩
      · intro i r hr hrun
        cases i with
        | zero =>
          simp only [getElem?_cons_zero, Option.some.injEq] at hr
          subst hr
          exact absurd hrun hnone
        | succ i =>
          obtain ⟨c, hc, hi, hlast⟩ := hspec.complete i r (by simpa using hr) hrun
          exact ⟨c, hc, by omega, hlast⟩
    · refine ⟨⟨start, position, some root = s.lastDispatchedRoot⟩ :: rest,
        by simp [QueueState.candidatesFrom, hpos, hrest], ?_, ?_, ?_⟩
      · intro c hc
        rcases mem_cons.1 hc with rfl | hc
        · exact ⟨0, root, id, e, rfl, rfl, hfirst, by simp⟩
        · obtain ⟨i, r, id, e, hi, hr, hfirst⟩ := hspec.sound c hc
          exact ⟨i + 1, r, id, e, by omega, by simpa using hr, hfirst⟩
      · intro i r hr hrun
        cases i with
        | zero =>
          simp only [getElem?_cons_zero, Option.some.injEq] at hr
          subst hr
          exact ⟨_, mem_cons_self, rfl, by simp⟩
        | succ i =>
          obtain ⟨c, hc, hi, hlast⟩ := hspec.complete i r (by simpa using hr) hrun
          exact ⟨c, mem_cons_of_mem _ hc, by omega, hlast⟩
      · refine pairwise_cons.2 ⟨?_, hspec.sorted⟩
        intro c hc
        obtain ⟨i, r, id, e, hi, -⟩ := hspec.sound c hc
        simp only
        omega

/-- The choice: the first candidate whose root was not dispatched last; the last dispatched root
only when it is the only one. -/
theorem choose_spec {cs : List Candidate} {c : Candidate} (hc : choose cs = some c)
    (hsorted : cs.Pairwise fun c c' => c.rootIndex < c'.rootIndex) :
    c ∈ cs ∧ (c.isLastRoot = true → ∀ c' ∈ cs, c'.isLastRoot = true) ∧
      ∀ c' ∈ cs, c'.isLastRoot = false → c.rootIndex ≤ c'.rootIndex := by
  cases cs with
  | nil => cases hc
  | cons first rest =>
    obtain ⟨hfirst, hrest⟩ := pairwise_cons.1 hsorted
    have hle : ∀ c' ∈ first :: rest, first.rootIndex ≤ c'.rootIndex := by
      intro c' hc'
      rcases mem_cons.1 hc' with rfl | hc'
      · exact le_rfl
      · exact le_of_lt (hfirst c' hc')
    by_cases hlast : first.isLastRoot = true
    · simp only [choose, hlast, if_true] at hc
      rcases hfind : rest.find? (fun c => !c.isLastRoot) with _ | other
      · rw [hfind] at hc
        cases hc
        refine ⟨mem_cons_self, ?_, fun c' hc' _ => hle c' hc'⟩
        intro _ c' hc'
        rcases mem_cons.1 hc' with rfl | hc'
        · exact hlast
        · simpa using find?_eq_none.1 hfind c' hc'
      · rw [hfind] at hc
        cases hc
        obtain ⟨htest, pre, post, rfl, hpre⟩ := find?_eq_some_iff_append.1 hfind
        have hnotlast : c.isLastRoot = false := by simpa using htest
        refine ⟨by simp, fun h => absurd h (by simp [hnotlast]), ?_⟩
        intro c' hc' hnot
        -- everything before the choice was dispatched last
        rcases mem_cons.1 hc' with rfl | hc'
        · rw [hlast] at hnot
          cases hnot
        · rcases mem_append.1 hc' with hc' | hc'
          · have := hpre c' hc'
            simp [hnot] at this
          · rcases mem_cons.1 hc' with rfl | hc'
            · exact le_rfl
            · have := (pairwise_cons.1 (pairwise_append.1 hrest).2.1).1 c' hc'
              exact le_of_lt this
    · simp only [choose, hlast] at hc
      cases hc
      exact ⟨mem_cons_self, fun h => absurd h hlast, fun c' hc' _ => hle c' hc'⟩

theorem choose_eq_none {cs : List Candidate} (hc : choose cs = none) : cs = [] := by
  cases cs with
  | nil => rfl
  | cons first rest =>
    simp only [choose] at hc
    split at hc
    · rcases hfind : rest.find? (fun c => !c.isLastRoot) with _ | other <;> simp [hfind] at hc
    · cases hc

/-! ## One round -/

/-- The entry `id` gets a slot: it leaves `waiting`, and its root moves behind the others if it
still waits. -/
def QueueState.reserve (s : QueueState τ) (id : ℕ) (e : Entry τ) : QueueState τ :=
  { s with
    waiting := s.waiting.erase id
    waitingRoots :=
      if (s.waiting.erase id).any (s.under e.rootSessionId) then
        s.waitingRoots.erase e.rootSessionId ++ [e.rootSessionId]
      else s.waitingRoots.erase e.rootSessionId
    lastDispatchedRoot := some e.rootSessionId
    entries := s.entries.insert id { e with reserved := true }
    active := s.active.insert e.sessionId (id, e.rootSessionId) }

/-- **One round of `dispatch`**: everything it does and how it chooses. -/
structure QueueState.Dispatched (s : QueueState τ) (d : Dispatch τ) (e : Entry τ)
    (s' : QueueState τ) : Prop where
  /-- The log shows the state of the choice. -/
  before_eq : d.before = s
  /-- The entry is the first runnable one of its root. -/
  first : ∃ position, s.FirstRunnable d.root position d.id e
  /-- A root gets two slots in a row only when no other root could use one. -/
  alternates : s.lastDispatchedRoot = some d.root → ∀ root, s.RunnableRoot root → root = d.root
  /-- No root that could use the slot stood ahead, except the one dispatched last. -/
  turn : ∀ root, s.RunnableRoot root → s.lastDispatchedRoot ≠ some root →
    s.waitingRoots.idxOf d.root ≤ s.waitingRoots.idxOf root
  /-- The entry is reserved and nothing else changes. -/
  next_eq : s' = s.reserve d.id e

theorem QueueState.Dispatched.runnable {d : Dispatch τ} (h : s.Dispatched d e s') :
    s.Runnable d.id e :=
  h.first.choose_spec.runnable

theorem QueueState.Dispatched.root_eq {d : Dispatch τ} (h : s.Dispatched d e s') :
    e.rootSessionId = d.root :=
  h.first.choose_spec.root_eq

/-- A root with a runnable entry is listed. -/
theorem QueueState.WF.mem_roots_of_runnable (h : s.WF) (hr : s.RunnableRoot root) :
    root ∈ s.waitingRoots := by
  obtain ⟨id, e, hrun, hroot⟩ := hr
  exact (h.mem_roots root).2 ⟨id, e, hrun.1, hrun.2.1, hroot⟩

/-- **A round does not panic**, stops only when nothing is runnable, and is a `Dispatched` step
otherwise. -/
theorem QueueState.WF.dispatchOnce_spec (h : s.WF) :
    (s.dispatchOnce = some none ∧ ∀ root, ¬s.RunnableRoot root) ∨
    ∃ d e s', s.dispatchOnce = some (some (s', d)) ∧ s.Dispatched d e s' := by
  obtain ⟨cs, hcs, hspec⟩ := h.candidatesFrom_spec s.waitingRoots 0
  rcases hchoose : choose cs with _ | c
  · left
    refine ⟨by simp [QueueState.dispatchOnce, hcs, hchoose], ?_⟩
    intro root hrun
    obtain ⟨i, hi⟩ := mem_iff_getElem?.1 (h.mem_roots_of_runnable hrun)
    obtain ⟨c, hc, -⟩ := hspec.complete i root hi hrun
    rw [choose_eq_none hchoose] at hc
    cases hc
  · right
    obtain ⟨hmem, hlast, hturn⟩ := choose_spec hchoose hspec.sorted
    obtain ⟨i, root, id, e, hi, hroot, hfirst, hisLast⟩ := hspec.sound c hmem
    rw [Nat.zero_add] at hi
    have hidx : ∀ root i, s.waitingRoots[i]? = some root → s.waitingRoots.idxOf root = i := by
      intro root i hi
      obtain ⟨hlt, rfl⟩ := List.getElem?_eq_some_iff.1 hi
      exact h.roots_nodup.idxOf_getElem i hlt
    have hother : ∀ root', s.RunnableRoot root' → ∃ c' ∈ cs,
        s.waitingRoots.idxOf root' = c'.rootIndex ∧
        (c'.isLastRoot = true ↔ some root' = s.lastDispatchedRoot) := by
      intro root' hrun
      obtain ⟨j, hj⟩ := mem_iff_getElem?.1 (h.mem_roots_of_runnable hrun)
      obtain ⟨c', hc', hj', hl⟩ := hspec.complete j root' hj hrun
      exact ⟨c', hc', by rw [hidx root' j hj]; omega, hl⟩
    obtain ⟨hltr, hrootE⟩ := List.getElem?_eq_some_iff.1 hroot
    obtain ⟨hltw, hidE⟩ := List.getElem?_eq_some_iff.1 hfirst.at_position
    have hroots : s.waitingRoots.eraseIdx i = s.waitingRoots.erase root := by
      rw [← hrootE, h.roots_nodup.erase_getElem i hltr]
    have hwaiting : s.waiting.eraseIdx c.position = s.waiting.erase id := by
      rw [← hidE, h.waiting_nodup.erase_getElem c.position hltw]
    have hany : s.anyUnder (s.waiting.erase id) root =
        some ((s.waiting.erase id).any (s.under root)) :=
      s.anyUnder_eq fun id' hid' => h.waiting_isSome id' (mem_of_mem_erase hid')
    refine ⟨⟨s, id, root⟩, e, s.reserve id e, ?_, rfl, ⟨c.position, hfirst⟩, ?_, ?_, rfl⟩
    · simp only [QueueState.dispatchOnce, hcs, hchoose, hi, hroot, hfirst.at_position, hroots,
        hwaiting, hany, hfirst.runnable.1, Option.bind_eq_bind, Option.bind_some]
      rw [← hfirst.root_eq]
      rfl
    · intro hlastRoot root' hrun
      obtain ⟨c', hc', -, hl⟩ := hother root' hrun
      have := hl.1 (hlast (hisLast.2 hlastRoot.symm) c' hc')
      rw [hlastRoot] at this
      exact Option.some.inj this
    · intro root' hrun hne
      obtain ⟨c', hc', hidx', hl⟩ := hother root' hrun
      have hnot : c'.isLastRoot = false := by
        rw [Bool.eq_false_iff]
        exact fun ht => hne (hl.1 ht).symm
      rw [hidx', hidx root i hroot, ← hi]
      exact hturn c' hc' hnot

/-! ## Reserving keeps a queue well formed -/

section Reserve

variable {id' : ℕ} {e' : Entry τ}

/-- After a reservation the entries are as before, but for the mark on the reserved one. -/
theorem QueueState.lookup_reserve : (s.reserve id e).entries.lookup id' =
    if id' = id then some { e with reserved := true } else s.entries.lookup id' :=
  AssocMap.lookup_insert _ _ _ _

/-- What still waits after a reservation. -/
theorem QueueState.waits_reserve (hrun : s.Runnable id e) :
    (s.reserve id e).entries.lookup id' = some e' ∧ e'.reserved = false ↔
      id' ≠ id ∧ s.entries.lookup id' = some e' ∧ e'.reserved = false := by
  rw [QueueState.lookup_reserve]
  by_cases hid : id' = id
  · subst hid
    simp only [if_true, ne_eq, not_true_eq_false, false_and, iff_false, Option.some.injEq]
    rintro ⟨rfl, h⟩
    cases h
  · simp [hid]

/-- The other runnable entries stay runnable: no two entries share a session. -/
theorem QueueState.WF.runnable_reserve (h : s.WF) (hrun : s.Runnable id e) :
    (s.reserve id e).Runnable id' e' ↔ id' ≠ id ∧ s.Runnable id' e' := by
  simp only [QueueState.Runnable, ← and_assoc, QueueState.waits_reserve hrun]
  refine and_congr_right fun ⟨⟨hid, he'⟩, _⟩ => ?_
  have hsession : e'.sessionId ≠ e.sessionId :=
    fun hs => hid (h.session_unique he' hrun.1 hs)
  simp [QueueState.reserve, hsession]

/-- The root of the reserved entry is still listed if another of its entries waits. -/
theorem QueueState.WF.any_under_iff (h : s.WF) :
    (s.waiting.erase id).any (s.under root) = true ↔ ∃ id' e', id' ≠ id ∧
      s.entries.lookup id' = some e' ∧ e'.reserved = false ∧ e'.rootSessionId = root := by
  simp only [any_eq_true, h.waiting_nodup.mem_erase_iff, QueueState.under_iff, h.mem_waiting]
  constructor
  · rintro ⟨id', ⟨hid, e', he', hres⟩, e'', he'', hroot⟩
    rw [he'] at he''
    cases he''
    exact ⟨id', e', hid, he', hres, hroot⟩
  · rintro ⟨id', e', hid, he', hres, hroot⟩
    exact ⟨id', ⟨hid, e', he', hres⟩, e', he', hroot⟩

theorem QueueState.WF.roots_reserve (h : s.WF) (hrun : s.Runnable id e) :
    (s.reserve id e).waitingRoots.Nodup ∧ ∀ root, root ∈ (s.reserve id e).waitingRoots ↔
      ∃ id' e', id' ≠ id ∧ s.entries.lookup id' = some e' ∧ e'.reserved = false ∧
        e'.rootSessionId = root := by
  have hnot : e.rootSessionId ∉ s.waitingRoots.erase e.rootSessionId :=
    h.roots_nodup.not_mem_erase
  have hnodup := h.roots_nodup.erase e.rootSessionId
  have hne : ∀ root, root ≠ e.rootSessionId →
      (root ∈ s.waitingRoots.erase e.rootSessionId ↔ ∃ id' e', id' ≠ id ∧
        s.entries.lookup id' = some e' ∧ e'.reserved = false ∧ e'.rootSessionId = root) := by
    intro root hroot
    rw [mem_erase_of_ne hroot, h.mem_roots]
    constructor
    · rintro ⟨id', e', he', hres, rfl⟩
      refine ⟨id', e', ?_, he', hres, rfl⟩
      rintro rfl
      rw [hrun.1] at he'
      cases he'
      exact hroot rfl
    · rintro ⟨id', e', -, hrest⟩
      exact ⟨id', e', hrest⟩
  simp only [QueueState.reserve]
  split
  · next hany =>
    refine ⟨nodup_append.2 ⟨hnodup, by simp, ?_⟩, ?_⟩
    · intro a ha b hb hab
      rw [mem_singleton] at hb
      rw [hab, hb] at ha
      exact hnot ha
    · intro root
      by_cases hroot : root = e.rootSessionId
      · subst hroot
        simpa using h.any_under_iff.1 hany
      · simp only [mem_append, mem_singleton, hroot, or_false]
        exact hne root hroot
  · next hany =>
    refine ⟨hnodup, ?_⟩
    intro root
    by_cases hroot : root = e.rootSessionId
    · subst hroot
      rw [← h.any_under_iff]
      simp [hnot, hany]
    · exact hne root hroot

/-- A reservation keeps the queue well formed. -/
theorem QueueState.WF.reserve (h : s.WF) (hrun : s.Runnable id e) : (s.reserve id e).WF := by
  obtain ⟨hnodup, hroots⟩ := h.roots_reserve hrun
  refine
    { waiting_nodup := h.waiting_nodup.erase id
      mem_waiting := ?_
      pending_iff := ?_
      reserved_active := ?_
      roots_nodup := hnodup
      mem_roots := ?_
      id_lt := ?_ }
  · intro id'
    simp only [QueueState.waits_reserve hrun]
    simp only [QueueState.reserve, h.waiting_nodup.mem_erase_iff, h.mem_waiting, ne_eq,
      exists_and_left]
  · intro sessionId id'
    rw [QueueState.lookup_reserve]
    have hp := h.pending_iff sessionId id'
    simp only [QueueState.reserve]
    rw [hp]
    split
    · next hid =>
      subst hid
      simp [hrun.1]
    · rfl
  · intro id' e' he' hres
    rw [QueueState.lookup_reserve] at he'
    simp only [QueueState.reserve, AssocMap.lookup_insert]
    split at he'
    · next hid =>
      cases he'
      simp [hid]
    · next hid =>
      have hsession : e'.sessionId ≠ e.sessionId :=
        fun hs => hid (h.session_unique he' hrun.1 hs)
      simp [hsession, h.reserved_active id' e' he' hres]
  · intro root
    rw [hroots]
    constructor
    · rintro ⟨id', e', hid, he', hres, hroot⟩
      obtain ⟨he', hres⟩ := (QueueState.waits_reserve hrun).2 ⟨hid, he', hres⟩
      exact ⟨id', e', he', hres, hroot⟩
    · rintro ⟨id', e', he', hres, hroot⟩
      obtain ⟨hid, he', hres⟩ := (QueueState.waits_reserve hrun).1 ⟨he', hres⟩
      exact ⟨id', e', hid, he', hres, hroot⟩
  · intro id' e' he'
    rw [QueueState.lookup_reserve] at he'
    split at he'
    · next hid =>
      subst hid
      exact h.id_lt id' e hrun.1
    · exact h.id_lt id' e' he'

theorem QueueState.size_active_reserve (hrun : s.Runnable id e) :
    AssocMap.size (s.reserve id e).active = AssocMap.size s.active + 1 :=
  AssocMap.size_insert_of_none hrun.2.2

end Reserve

/-! ## The loop -/

/-- A round of the loop, made because a slot was free. -/
def QueueState.Round (concurrency : ℕ) (s : QueueState τ) (d : Dispatch τ) (s' : QueueState τ) :
    Prop :=
  AssocMap.size s.active < concurrency ∧ ∃ e, s.Dispatched d e s'

theorem QueueState.WF.round {concurrency : ℕ} {d : Dispatch τ} (h : s.WF)
    (hr : s.Round concurrency d s') : s'.WF := by
  obtain ⟨-, e, hd⟩ := hr
  rw [hd.next_eq]
  exact h.reserve hd.runnable

/-- The result of a dispatch: rounds until no slot is free or nothing is runnable. -/
structure QueueState.DispatchedAll (concurrency : ℕ) (s : QueueState τ) (ds : List (Dispatch τ))
    (s' : QueueState τ) : Prop where
  /-- The log is a run of rounds. -/
  run : Run (QueueState.Round concurrency) s ds s'
  /-- Free slots are left only when nothing can use them. -/
  conserving : AssocMap.size s'.active < concurrency → ∀ root, ¬s'.RunnableRoot root
  /-- The queue is well formed afterwards. -/
  wf : s'.WF

theorem QueueState.WF.dispatchLoop_spec {concurrency : ℕ} (fuel : ℕ) :
    ∀ {s : QueueState τ}, s.WF → s.waiting.length < fuel →
      ∃ s' ds, s.dispatchLoop concurrency fuel = some (s', ds) ∧
        s.DispatchedAll concurrency ds s' := by
  induction fuel with
  | zero =>
    intro s _ hfuel
    omega
  | succ fuel ih =>
    intro s h hfuel
    by_cases hfree : AssocMap.size s.active < concurrency
    · rcases h.dispatchOnce_spec with ⟨honce, hnone⟩ | ⟨d, e, s₁, honce, hd⟩
      · exact ⟨s, [], by simp [QueueState.dispatchLoop, hfree, honce], Run.refl,
          fun _ => hnone, h⟩
      · have hround : s.Round concurrency d s₁ := ⟨hfree, e, hd⟩
        have hlt : s₁.waiting.length < fuel := by
          have hmem := h.mem_waiting_of_runnable hd.runnable
          have hlen := length_erase_of_mem hmem
          have hpos := length_pos_of_mem hmem
          rw [hd.next_eq]
          simp only [QueueState.reserve]
          omega
        obtain ⟨s', ds, hloop, hall⟩ := ih (h.round hround) hlt
        exact ⟨s', d :: ds, by simp [QueueState.dispatchLoop, hfree, honce, hloop],
          hall.run.cons hround, hall.conserving, hall.wf⟩
    · exact ⟨s, [], by simp [QueueState.dispatchLoop, hfree], Run.refl,
        fun hfree' => absurd hfree' hfree, h⟩

/-- **`dispatch` never panics on a well-formed queue**, and runs rounds until it must stop. -/
theorem QueueState.WF.dispatch_spec (h : s.WF) (concurrency : ℕ) :
    ∃ s' ds, s.dispatch concurrency = some (s', ds) ∧ s.DispatchedAll concurrency ds s' :=
  QueueState.WF.dispatchLoop_spec _ h (Nat.lt_succ_self _)

/-! ## What a dispatch leaves alone -/

/-- `s'` differs from `s` by slots granted: some waiting entries became reserved. -/
structure QueueState.Granted (s s' : QueueState τ) : Prop where
  /-- No ticket is issued. -/
  nextId_eq : s'.nextId = s.nextId
  /-- No pending work appears or goes. -/
  pending_eq : s'.pendingBySession = s.pendingBySession
  /-- An entry is kept, or changes from waiting to reserved. -/
  entries : ∀ id, s'.entries.lookup id = s.entries.lookup id ∨
    ∃ e, s.entries.lookup id = some e ∧ e.reserved = false ∧
      s'.entries.lookup id = some { e with reserved := true }
  /-- Slots are kept. -/
  active_old : ∀ sessionId x, s.active.lookup sessionId = some x →
    s'.active.lookup sessionId = some x
  /-- A new slot is that of a reserved entry. -/
  active_new : ∀ sessionId id root, s'.active.lookup sessionId = some (id, root) →
    s.active.lookup sessionId = some (id, root) ∨
      ∃ e, s'.entries.lookup id = some e ∧ e.reserved = true ∧ e.sessionId = sessionId
  /-- What still waits keeps its order. -/
  waiting : s'.waiting.Sublist s.waiting

theorem QueueState.Granted.refl (s : QueueState τ) : s.Granted s where
  nextId_eq := rfl
  pending_eq := rfl
  entries _ := Or.inl rfl
  active_old _ _ h := h
  active_new _ _ _ h := Or.inl h
  waiting := List.Sublist.refl _

theorem QueueState.Granted.reserved (h : s.Granted s') (he : s.entries.lookup id = some e)
    (hres : e.reserved = true) : s'.entries.lookup id = some e := by
  rcases h.entries id with heq | ⟨e', he', hres', -⟩
  · rw [heq, he]
  · rw [he] at he'
    cases he'
    rw [hres] at hres'
    cases hres'

theorem QueueState.Granted.trans {s'' : QueueState τ} (h : s.Granted s') (h' : s'.Granted s'') :
    s.Granted s'' where
  nextId_eq := h'.nextId_eq.trans h.nextId_eq
  pending_eq := h'.pending_eq.trans h.pending_eq
  entries id := by
    rcases h'.entries id with heq' | ⟨e', he', hres', hnext'⟩
    · rcases h.entries id with heq | ⟨e, he, hres, hnext⟩
      · exact Or.inl (heq'.trans heq)
      · exact Or.inr ⟨e, he, hres, heq'.trans hnext⟩
    · rcases h.entries id with heq | ⟨e, he, hres, hnext⟩
      · exact Or.inr ⟨e', heq ▸ he', hres', hnext'⟩
      · rw [hnext] at he'
        cases he'
        cases hres'
  active_old sessionId x hx := h'.active_old _ _ (h.active_old _ _ hx)
  active_new sessionId id root hx := by
    rcases h'.active_new _ _ _ hx with hx | hx
    · rcases h.active_new _ _ _ hx with hx | ⟨e, he, hres, hs⟩
      · exact Or.inl hx
      · exact Or.inr ⟨e, h'.reserved he hres, hres, hs⟩
    · exact Or.inr hx
  waiting := h'.waiting.trans h.waiting

theorem QueueState.Granted.of_runnable (hrun : s.Runnable id e) : s.Granted (s.reserve id e) where
  nextId_eq := rfl
  pending_eq := rfl
  entries id' := by
    rw [QueueState.lookup_reserve]
    split
    · next hid =>
      subst hid
      exact Or.inr ⟨e, hrun.1, hrun.2.1, rfl⟩
    · exact Or.inl rfl
  active_old sessionId x hx := by
    have hs : sessionId ≠ e.sessionId := by
      rintro rfl
      rw [hrun.2.2] at hx
      cases hx
    simp only [QueueState.reserve, AssocMap.lookup_insert, hs, if_false]
    exact hx
  active_new sessionId id' root hx := by
    simp only [QueueState.reserve, AssocMap.lookup_insert] at hx
    split at hx
    · next hs =>
      cases hx
      refine Or.inr ⟨{ e with reserved := true }, ?_, rfl, hs.symm⟩
      simp [QueueState.lookup_reserve]
    · exact Or.inl hx
  waiting := erase_sublist

/-- **The frame of a dispatch.** -/
theorem QueueState.DispatchedAll.granted {concurrency : ℕ} {ds : List (Dispatch τ)}
    (h : s.DispatchedAll concurrency ds s') : s.Granted s' := by
  refine h.run.invariant (QueueState.Granted.refl s) ?_
  rintro s₁ d s₂ hg ⟨-, e, hd⟩
  rw [hd.next_eq]
  exact hg.trans (QueueState.Granted.of_runnable hd.runnable)

/-- A dispatch stays within the concurrency. -/
theorem QueueState.DispatchedAll.active_le {concurrency : ℕ} {ds : List (Dispatch τ)}
    (h : s.DispatchedAll concurrency ds s') (hle : AssocMap.size s.active ≤ concurrency) :
    AssocMap.size s'.active ≤ concurrency := by
  refine h.run.invariant (P := fun t => AssocMap.size t.active ≤ concurrency) hle ?_
  rintro s₁ d s₂ - ⟨hlt, e, hd⟩
  rw [hd.next_eq, QueueState.size_active_reserve hd.runnable]
  exact hlt

theorem QueueState.Granted.under_eq (h : s.Granted s') (root : String) :
    s'.under root = s.under root := by
  funext id
  rcases h.entries id with heq | ⟨e, he, -, hnext⟩
  · simp [QueueState.under, heq]
  · simp [QueueState.under, he, hnext]

end SummaryQueue

end OpenBitFun
