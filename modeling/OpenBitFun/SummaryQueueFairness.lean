import Mathlib
import OpenBitFun.SummaryQueueInvariant

/-!
# Work conservation and fairness of the summary queue

Slots are never left unused, and the roots that could use one take turns. The turns of a root `R`
are measured by `QueueState.potential`: the number of roots ahead of it, and one more if it had the
latest slot. A dispatch of another root lowers the potential by one, and no operation raises it, as
long as `R` has something to run.
-/

namespace OpenBitFun

open List

namespace SummaryQueue

variable {τ : Type} {q : RouterSummaryQueue} {s s' : QueueState τ} {w w' : World τ}
  {d : Dispatch τ} {ds : List (Dispatch τ)} {R : String}

/-- The dispatches of a run, in order. -/
def dispatchesOf (tr : List (Label τ)) : List (Dispatch τ) := tr.flatMap Label.dispatches

@[simp] theorem dispatchesOf_nil : dispatchesOf ([] : List (Label τ)) = [] := rfl

@[simp] theorem dispatchesOf_cons (l : Label τ) (tr : List (Label τ)) :
    dispatchesOf (l :: tr) = l.dispatches ++ dispatchesOf tr := rfl

@[simp] theorem dispatchesOf_concat (l : Label τ) (tr : List (Label τ)) :
    dispatchesOf (tr ++ [l]) = dispatchesOf tr ++ l.dispatches := by
  simp [dispatchesOf]

/-! ## The log of dispatches -/

/-- How the log goes on: each dispatch is described by `Dispatched`, and was made when the previous
one was the latest. -/
def Turn (last : Option String) (d : Dispatch τ) (last' : Option String) : Prop :=
  d.before.lastDispatchedRoot = last ∧ last' = some d.root ∧
    ∃ e s', d.before.Dispatched d e s'

theorem QueueState.DispatchedAll.turns {concurrency : ℕ} (h : s.DispatchedAll concurrency ds s') :
    Run Turn s.lastDispatchedRoot ds s'.lastDispatchedRoot := by
  refine h.run.history (P := fun ds s' => Run Turn s.lastDispatchedRoot ds s'.lastDispatchedRoot)
    Run.refl ?_
  rintro ds s₁ d s₂ hrun ⟨-, e, hd⟩
  have hbefore := hd.before_eq
  refine hrun.step ⟨by rw [hbefore], ?_, e, s₂, by rw [hbefore]; exact hd⟩
  rw [hd.next_eq, ← hd.root_eq]
  rfl

theorem World.Inv.turns (h : w.Inv q) {l : Label τ} (hstep : w.Step q l w') :
    Run Turn w.queue.lastDispatchedRoot l.dispatches w'.queue.lastDispatchedRoot := by
  have hmove := h.move hstep
  obtain ⟨ev, answer, ds⟩ := l
  simp only at hmove ⊢
  generalize hr : (w', answer, ds) = r at hmove
  cases hmove with
  | refused | stale | updated | pending | superseded | started | droppedStale =>
    cases hr
    exact Run.refl
  | admitted _ _ _ s₁ s' ds' ha hroom hall =>
    cases hr
    cases ha <;> exact hall.turns
  | droppedReserved _ _ _ _ _ _ hall | droppedWaiting _ _ _ _ _ _ hall | released _ _ _ _ hall =>
    cases hr
    exact hall.turns

theorem RunsTo.turns {tr : List (Label τ)} (h : RunsTo q tr w) :
    Run Turn none (dispatchesOf tr) w.queue.lastDispatchedRoot := by
  refine (h.history (P := fun tr w => w.Inv q ∧
    Run Turn none (dispatchesOf tr) w.queue.lastDispatchedRoot) ⟨World.Inv.new q, Run.refl⟩ ?_).2
  rintro tr w l w' ⟨hinv, hrun⟩ hstep
  rw [dispatchesOf_concat]
  exact ⟨hinv.step hstep, hrun.trans (hinv.turns hstep)⟩

/-! ## The potential of a root -/

/-- How many dispatches of other roots can come before one of `R`. -/
def QueueState.potential (s : QueueState τ) (R : String) : ℕ :=
  s.waitingRoots.idxOf R + if s.lastDispatchedRoot = some R then 1 else 0

theorem QueueState.potential_le (s : QueueState τ) (R : String) :
    s.potential R ≤ s.waitingRoots.idxOf R + 1 := by
  unfold QueueState.potential
  split <;> omega

/-- `R` keeps its runnable entry when another root is dispatched. -/
theorem QueueState.WF.runnableRoot_dispatched (h : s.WF) (hR : s.RunnableRoot R) {e : Entry τ}
    (hd : s.Dispatched d e s') (hne : d.root ≠ R) : s'.RunnableRoot R := by
  obtain ⟨id', e', hrun', hroot'⟩ := hR
  refine ⟨id', e', ?_, hroot'⟩
  rw [hd.next_eq, h.runnable_reserve hd.runnable]
  refine ⟨?_, hrun'⟩
  rintro rfl
  have := hrun'.1
  rw [hd.runnable.1] at this
  cases this
  exact hne (hd.root_eq.symm.trans hroot')

/-- **The step lemma**: a dispatch of another root lowers the potential of `R`. -/
theorem QueueState.WF.potential_dispatched (h : s.WF) (hR : s.RunnableRoot R) {e : Entry τ}
    (hd : s.Dispatched d e s') (hne : d.root ≠ R) : s'.potential R + 1 ≤ s.potential R := by
  have hmem : R ∈ s.waitingRoots := h.mem_roots_of_runnable hR
  have hidx : s'.waitingRoots.idxOf R = if s.waitingRoots.idxOf d.root < s.waitingRoots.idxOf R
      then s.waitingRoots.idxOf R - 1 else s.waitingRoots.idxOf R := by
    rw [← idxOf_erase hne, hd.next_eq]
    simp only [QueueState.reserve, hd.root_eq]
    split
    · exact idxOf_append_of_mem ((mem_erase_of_ne hne.symm).2 hmem)
    · rfl
  have hlast : s'.lastDispatchedRoot ≠ some R := by
    rw [hd.next_eq]
    simp only [QueueState.reserve, hd.root_eq, ne_eq, Option.some.injEq]
    exact hne
  unfold QueueState.potential
  rw [hidx, if_neg hlast]
  by_cases hlastR : s.lastDispatchedRoot = some R
  · rw [if_pos hlastR]
    split <;> omega
  · -- the root chosen stands ahead of `R`
    have hle := hd.turn R hR hlastR
    have hneq : s.waitingRoots.idxOf d.root ≠ s.waitingRoots.idxOf R := by
      intro heq
      exact hne (idxOf_inj (h.mem_roots_of_runnable ⟨_, e, hd.runnable, hd.root_eq⟩) |>.1 heq)
    rw [if_neg hlastR, if_pos (Nat.lt_of_le_of_ne hle hneq)]
    omega

/-- The dispatches before the first one of `R` use up its potential. -/
theorem QueueState.DispatchedAll.potential {concurrency : ℕ} :
    ∀ {ds : List (Dispatch τ)} {s : QueueState τ}, s.WF → s.RunnableRoot R →
      s.DispatchedAll concurrency ds s' →
      (ds.takeWhile fun d => d.root ≠ R).length ≤ s.potential R ∧
        ((∀ d ∈ ds, d.root ≠ R) → s'.potential R + ds.length ≤ s.potential R)
  | [], s, _, _, h => by
    have := run_nil.1 h.run
    subst this
    simp
  | d :: ds, s, hwf, hR, h => by
    obtain ⟨s₁, hround, hrun⟩ := run_cons.1 h.run
    obtain ⟨hfree, e, hd⟩ := hround
    by_cases hne : d.root = R
    · refine ⟨by simp [hne], fun hall => absurd hne (hall d mem_cons_self)⟩
    · have hstep := hwf.potential_dispatched hR hd hne
      obtain ⟨hle, hlast⟩ := QueueState.DispatchedAll.potential (hwf.round ⟨hfree, e, hd⟩)
        (hwf.runnableRoot_dispatched hR hd hne) ⟨hrun, h.conserving, h.wf⟩
      refine ⟨?_, ?_⟩
      · rw [takeWhile_cons_of_pos (by simpa using hne), length_cons]
        omega
      · intro hall
        have := hlast fun d' hd' => hall d' (mem_cons_of_mem d hd')
        rw [length_cons]
        omega

/-- Nothing is dispatched while every slot is taken. -/
theorem QueueState.DispatchedAll.eq_of_full {concurrency : ℕ}
    (h : s.DispatchedAll concurrency ds s') (hfull : ¬AssocMap.size s.active < concurrency) :
    ds = [] ∧ s' = s := by
  cases ds with
  | nil => exact ⟨rfl, (run_nil.1 h.run).symm⟩
  | cons d ds =>
    obtain ⟨s₁, hround, -⟩ := run_cons.1 h.run
    exact absurd hround.1 hfull

/-! ## Operations and the potential -/

/-- What an operation does to the turns of a root that could use a slot. -/
structure World.KeepsTurn (R : String) (w : World τ) (ds : List (Dispatch τ)) (w' : World τ) :
    Prop where
  /-- The dispatches before one of `R` use up its potential. -/
  before_le : (ds.takeWhile fun d => d.root ≠ R).length ≤ w.queue.potential R
  /-- Without a dispatch of `R`, each dispatch lowers it. -/
  potential_le : (∀ d ∈ ds, d.root ≠ R) → w'.queue.RunnableRoot R →
    w'.queue.potential R + ds.length ≤ w.queue.potential R

/-- An operation that dispatches nothing and keeps the roots in their order. -/
theorem World.KeepsTurn.of_nil
    (h : w'.queue.RunnableRoot R → w'.queue.potential R ≤ w.queue.potential R) :
    World.KeepsTurn R w [] w' :=
  ⟨Nat.zero_le _, fun _ hR => h hR⟩

/-- An operation that frees a slot and dispatches. -/
theorem World.KeepsTurn.of_dispatch {concurrency : ℕ} (hwf : s.WF) (hR : s.RunnableRoot R)
    (hpot : s.potential R = w.queue.potential R)
    (hall : s.DispatchedAll concurrency ds w'.queue) : World.KeepsTurn R w ds w' := by
  obtain ⟨hbefore, hle⟩ := hall.potential hwf hR
  rw [hpot] at hbefore hle
  exact ⟨hbefore, fun hne _ => hle hne⟩

/-- A submission does not change the order of the roots in front of `R`. -/
theorem QueueState.Admitted.potential_eq {root sessionId : String} {work : τ}
    (h : s.Admitted root sessionId work s') (hR : R ∈ s.waitingRoots) :
    s'.potential R = s.potential R := by
  cases h with
  | takeOver | replace => rfl
  | join =>
    simp only [QueueState.potential]
    congr 1
    split
    · rfl
    · exact idxOf_append_of_mem hR

/-- A submission takes no slot by itself. -/
theorem QueueState.Admitted.size_active {root sessionId : String} {work : τ} (hwf : s.WF)
    (h : s.Admitted root sessionId work s') :
    AssocMap.size s'.active = AssocMap.size s.active := by
  cases h with
  | takeOver p e hp he hres hroot =>
    obtain ⟨e', he', hs⟩ := (hwf.pending_iff sessionId p).1 hp
    rw [he] at he'
    cases he'
    have hown := hwf.reserved_active p e he hres
    rw [hs] at hown
    exact AssocMap.size_insert_of_some hown
  | replace | join => rfl

/-- **Every operation keeps the turns of a root that could use a slot.** -/
theorem World.Inv.keepsTurn (h : w.Inv q) (hR : w.queue.RunnableRoot R) {l : Label τ}
    (hstep : w.Step q l w') : World.KeepsTurn R w l.dispatches w' := by
  have hmove := h.move hstep
  have hen := hstep.1
  -- while `R` waits for a slot, none is free
  have hfull : ¬AssocMap.size w.queue.active < q.concurrency :=
    fun hfree => h.conserving hfree R hR
  obtain ⟨ev, answer, ds⟩ := l
  simp only at hmove hen ⊢
  generalize hr : (w', answer, ds) = r at hmove
  cases hmove with
  | refused | stale | updated | pending | superseded | started | droppedStale =>
    cases hr
    exact .of_nil fun _ => le_rfl
  | admitted _ _ _ s₁ s' ds' ha hroom hall =>
    cases hr
    obtain ⟨rfl, rfl⟩ := hall.eq_of_full (by rw [ha.size_active h.wf]; exact hfull)
    exact .of_nil fun _ => le_of_eq (ha.potential_eq (h.wf.mem_roots_of_runnable hR))
  | droppedReserved id e s' ds' he hres hall =>
    cases hr
    obtain ⟨id', e', ⟨he', hres', hidle'⟩, hroot'⟩ := hR
    have hne : id' ≠ id := by
      rintro rfl
      rw [he] at he'
      cases he'
      rw [hres] at hres'
      cases hres'
    refine .of_dispatch (h.wf.cancelReserved he hres) ⟨id', e', ⟨?_, hres', ?_⟩, hroot'⟩ rfl hall
    · exact (QueueState.lookup_forget_ne (e := e) hne).trans he'
    · simp only [AssocMap.lookup_erase, hidle', ite_self]
  | droppedWaiting id e s' ds' he hres hall =>
    cases hr
    obtain ⟨rfl, rfl⟩ := hall.eq_of_full hfull
    refine .of_nil fun hR' => ?_
    have hmem := (h.wf.unqueue he).mem_roots_of_runnable hR'
    have hsub : (w.queue.unqueue id e).waitingRoots.Sublist w.queue.waitingRoots := by
      simp only [QueueState.unqueue]
      split
      · exact List.Sublist.refl _
      · exact filter_sublist
    exact Nat.add_le_add_right (idxOf_sublist hsub h.wf.roots_nodup hmem) _
  | released sessionId id s' ds' hall =>
    cases hr
    obtain ⟨id', e', ⟨he', hres', hidle'⟩, hroot'⟩ := hR
    refine .of_dispatch (h.release_wf hen) ⟨id', e', ⟨he', hres', ?_⟩, hroot'⟩ rfl hall
    simp only [AssocMap.lookup_erase, hidle', ite_self]

/-- A run in which `R` could use a slot whenever an operation starts. -/
abbrev RunnableRun (q : RouterSummaryQueue) (R : String) (w : World τ) (tr : List (Label τ))
    (w' : World τ) : Prop :=
  Run (fun w l w' => w.queue.RunnableRoot R ∧ World.Step q w l w') w tr w'

/-- The run lemma: the dispatches before one of `R` use up the potential it starts with. -/
theorem World.Inv.starvation {tr : List (Label τ)} :
    ∀ {w : World τ}, w.Inv q → RunnableRun q R w tr w' →
      ((dispatchesOf tr).takeWhile fun d => d.root ≠ R).length ≤ w.queue.potential R := by
  induction tr with
  | nil =>
    intro w _ _
    exact Nat.zero_le _
  | cons l tr ih =>
    intro w hinv hrun
    obtain ⟨w₁, ⟨hR, hstep⟩, hrest⟩ := run_cons.1 hrun
    have hkeep := hinv.keepsTurn hR hstep
    rw [dispatchesOf_cons, takeWhile_append]
    split
    · next hlen =>
      have hall : ∀ d ∈ l.dispatches, d.root ≠ R := by
        intro d hd
        rw [← (List.takeWhile_prefix _).eq_of_length hlen] at hd
        simpa using mem_takeWhile_imp hd
      rw [length_append]
      cases tr with
      | nil =>
        have := hkeep.before_le
        simp only [dispatchesOf_nil, takeWhile_nil, length_nil]
        omega
      | cons l' tr' =>
        obtain ⟨w₂, ⟨hR₁, -⟩, -⟩ := run_cons.1 hrest
        have := hkeep.potential_le hall hR₁
        have := ih (hinv.step hstep) hrest
        omega
    · exact hkeep.before_le

/-! ## Fairness -/

/-- **Work conservation and fairness**: the promises of the scheduler over the runs of a queue. -/
structure Fair (q : RouterSummaryQueue) (tr : List (Label τ)) (w : World τ) : Prop where
  /-- While a slot is free, every waiting entry's leaf session is busy. -/
  conserving : AssocMap.size w.queue.active < q.concurrency → ∀ id ∈ w.queue.waiting,
    ∃ e, w.queue.entries.lookup id = some e ∧ (w.queue.active.lookup e.sessionId).isSome
  /-- Each dispatch takes the first runnable entry of its root in waiting order. -/
  fifo : ∀ d ∈ dispatchesOf tr, ∃ position e,
    d.before.FirstRunnable d.root position d.id e
  /-- Two consecutive dispatches go to one root only if no other root could use the slot. -/
  alternates : ∀ pre d₁ d₂ post, dispatchesOf tr = pre ++ d₁ :: d₂ :: post → d₁.root = d₂.root →
    ∀ root, d₂.before.RunnableRoot root → root = d₂.root
  /-- While `R` keeps a runnable entry, the dispatches of other roots before its own are at most
  the roots ahead of it and one. -/
  no_starvation : ∀ R tr' w', RunnableRun q R w tr' w' →
    ((dispatchesOf tr').takeWhile fun d => d.root ≠ R).length ≤
      w.queue.waitingRoots.idxOf R + 1

/-- **The scheduler is fair.** -/
theorem RunsTo.fair {tr : List (Label τ)} (h : RunsTo q tr w) : Fair q tr w := by
  have hinv := RunsTo.inv h
  have hturns := RunsTo.turns h
  refine { conserving := ?_, fifo := ?_, alternates := ?_, no_starvation := ?_ }
  · intro hfree id hid
    obtain ⟨e, he, hres⟩ := (hinv.wf.mem_waiting id).1 hid
    refine ⟨e, he, ?_⟩
    by_contra hidle
    exact hinv.conserving hfree e.rootSessionId
      ⟨id, e, ⟨he, hres, by simpa using hidle⟩, rfl⟩
  · intro d hd
    obtain ⟨pre, post, heq⟩ := append_of_mem hd
    rw [heq] at hturns
    obtain ⟨last, -, hrest⟩ := hturns.split
    obtain ⟨last', ⟨-, -, e, s', hdisp⟩, -⟩ := run_cons.1 hrest
    obtain ⟨position, hfirst⟩ := hdisp.first
    exact ⟨position, e, hfirst⟩
  · intro pre d₁ d₂ post heq hroot
    rw [heq] at hturns
    obtain ⟨last, -, hrest⟩ := hturns.split
    obtain ⟨last₁, ⟨-, hlast₁, -⟩, hrest⟩ := run_cons.1 hrest
    obtain ⟨last₂, ⟨hlast₂, -, e, s', hdisp⟩, -⟩ := run_cons.1 hrest
    refine hdisp.alternates ?_
    rw [hlast₂, hlast₁, hroot]
  · intro R tr' w' hrun
    exact le_trans (hinv.starvation hrun) (w.queue.potential_le R)

/-- Two roots share one slot: when the first item is done, the other root gets it. -/
theorem fair_smallQueue : ∃ tr w, (World.new : World ℕ).exec smallQueue
      [.submitFor "r" "a" 7, .submitFor "r" "b" 8, .submitFor "t" "c" 9, .start 0,
        .dropPermit "a" 0] = some (tr, w) ∧
    (dispatchesOf tr).map Dispatch.root = ["r", "t"] ∧ Fair smallQueue tr w := by
  obtain ⟨tr, w, hexec, hroots⟩ : ∃ tr w, (World.new : World ℕ).exec smallQueue
      [.submitFor "r" "a" 7, .submitFor "r" "b" 8, .submitFor "t" "c" 9, .start 0,
        .dropPermit "a" 0] = some (tr, w) ∧
      (dispatchesOf tr).map Dispatch.root = ["r", "t"] := ⟨_, _, rfl, rfl⟩
  exact ⟨tr, w, hexec, hroots, RunsTo.fair (World.exec_run hexec)⟩

end SummaryQueue

end OpenBitFun
