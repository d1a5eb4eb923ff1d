import OpenBitFun.EventQueueBookkeeping

/-!
# The order of delivery

Within one priority events are meant to be delivered in the order in which they were stored. The
heap compares the priority and the time only, and it is not stable, so this holds as long as no
batch is taken while two events that it may reach have the same priority and the same time.
-/

namespace OpenBitFun

open List

theorem pair_sublist_append {α : Type} {a b : α} {l m : List α} :
    [a, b].Sublist (l ++ m) ↔ [a, b].Sublist l ∨ a ∈ l ∧ b ∈ m ∨ [a, b].Sublist m := by
  refine ⟨fun h => ?_, ?_⟩
  · obtain ⟨front, back, heq, hfront, hback⟩ := sublist_append_iff.1 h
    rw [cons_eq_append_iff] at heq
    obtain ⟨rfl, rfl⟩ | ⟨front, rfl, heq⟩ := heq
    · exact .inr (.inr hback)
    · rw [singleton_eq_append_iff] at heq
      obtain ⟨rfl, rfl⟩ | ⟨rfl, rfl⟩ := heq
      · exact .inr (.inl ⟨singleton_sublist.1 hfront, singleton_sublist.1 hback⟩)
      · exact .inl hfront
  · rintro (h | ⟨ha, hb⟩ | h)
    · exact h.trans (sublist_append_left l m)
    · exact (singleton_sublist.2 ha).append (singleton_sublist.2 hb)
    · exact h.trans (sublist_append_right l m)

/-- Two elements of a list stand in one order or the other. -/
theorem pair_sublist_or {α : Type} {a b : α} {l : List α} (ha : a ∈ l) (hb : b ∈ l) (hne : a ≠ b) :
    [a, b].Sublist l ∨ [b, a].Sublist l := by
  obtain ⟨front, back, rfl⟩ := append_of_mem ha
  obtain hb | hb := mem_append.1 hb
  · exact .inr (pair_sublist_append.2 (.inr (.inl ⟨hb, mem_cons_self⟩)))
  · obtain rfl | hb := mem_cons.1 hb
    · exact absurd rfl hne
    · exact .inl (pair_sublist_append.2 (.inr (.inr ((singleton_sublist.2 hb).cons_cons a))))

namespace EventQueue

variable {ρ : Type} {q q' : EventQueue ρ} {e e' : AgenticEventEnvelope ρ} {call : Call ρ}
  {tr : List (Call ρ)}

/-! ## What a run stored, delivered and lost -/

/-- The event that a call put into the buffer, if any. -/
def Call.stored (call : Call ρ) : List (AgenticEventEnvelope ρ) :=
  call.after.pending.filter (·.id ∉ call.before.pending.map (·.id))

/-- The events that a call delivered, in order. -/
def Call.delivered (call : Call ρ) : List (AgenticEventEnvelope ρ) :=
  match call.answer with
  | .batch events => events
  | _ => []

/-- The events that a call took out of the buffer without delivering them: superseded, reclaimed,
evicted or cleared. -/
def Call.lost (call : Call ρ) : List (AgenticEventEnvelope ρ) :=
  call.before.pending.filter fun e =>
    e.id ∉ call.after.pending.map (·.id) ∧ e.id ∉ call.delivered.map (·.id)

/-- Within one priority, a delivered event was preceded by every event that was stored before it,
unless that was lost. -/
def KeepsOrder (tr : List (Call ρ)) : Prop :=
  ∀ e e', [e, e'].Sublist (tr.flatMap Call.stored) → e.priority = e'.priority →
    e ∉ tr.flatMap Call.lost → e' ∈ tr.flatMap Call.delivered →
    [e, e'].Sublist (tr.flatMap Call.delivered)

/-- The clock does not go back. -/
def SteadyClock (tr : List (Call ρ)) : Prop := (tr.map (·.stamp.now)).Pairwise (· ≤ ·)

instance (tr : List (Call ρ)) : Decidable (SteadyClock tr) :=
  inferInstanceAs (Decidable ((tr.map (·.stamp.now)).Pairwise (· ≤ ·)))

/-- The size of the batch that a call asks for. -/
def Request.maxSize : Request ρ → Option ℕ
  | .dequeueBatch maxSize => some maxSize
  | _ => none

/-- When a batch of `maxSize` events is taken, no two buffered events have the same priority and the
same time, unless at least `maxSize` buffered events come strictly before them. -/
def Untied (call : Call ρ) : Prop :=
  ∀ maxSize ∈ call.request.maxSize, ∀ e ∈ call.before.pending, ∀ e' ∈ call.before.pending,
    e.id ≠ e'.id → e.priority = e'.priority → e.timestamp = e'.timestamp →
    maxSize ≤ call.before.pending.countP (¬ e ≤ ·)

instance (call : Call ρ) : Decidable (Untied call) :=
  inferInstanceAs (Decidable (∀ maxSize ∈ call.request.maxSize, ∀ e ∈ call.before.pending,
    ∀ e' ∈ call.before.pending, e.id ≠ e'.id → e.priority = e'.priority →
      e.timestamp = e'.timestamp → maxSize ≤ call.before.pending.countP (¬ e ≤ ·)))

/-! ## One call -/

theorem Call.stored_eq_nil (h : call.after.pending ⊆ call.before.pending) : call.stored = [] := by
  rw [Call.stored, filter_eq_nil_iff]
  intro e he
  simpa using ⟨e, h he, rfl⟩

/-- Every call either stores one new event and delivers none, or stores none. -/
theorem Effect.moves (h : Effect call) (hid : call.stamp.id ∉ call.before.pending.map (·.id)) :
    (∀ e ∈ call.delivered, e ∈ call.before.pending) ∧
    ((call.stored = [] ∧ call.after.pending ⊆ call.before.pending) ∨
      ∃ new : AgenticEventEnvelope ρ, call.stored = [new] ∧ new.id = call.stamp.id ∧
        new.timestamp = call.stamp.now ∧ call.delivered = [] ∧
        ∀ e ∈ call.after.pending, e = new ∨ e ∈ call.before.pending) := by
  cases h with
  | quiet hqueue hsenders hacks hconfig hanswer =>
    have hsub : call.after.pending ⊆ call.before.pending := by
      rw [EventQueue.pending, hqueue]
      exact List.Subset.refl _
    have hnone : call.delivered = [] := by
      rw [Call.delivered]
      split
      · next batch hbatch => exact absurd hbatch (hanswer batch)
      · rfl
    exact ⟨by simp [hnone], .inl ⟨Call.stored_eq_nil hsub, hsub⟩⟩
  | stored policy event priority mid ids hrequest hanswer hremoves hsettles hreason hsuperseded hstale
      hroom hafter =>
    have hnone : call.delivered = [] := by
      rw [Call.delivered, hanswer]
    have hperm : call.after.pending.Perm (call.envelope event priority :: mid.pending) := by
      rw [hafter]
      exact pending_store mid _ policy
    refine ⟨by simp [hnone], .inr ⟨call.envelope event priority, ?_, rfl, rfl, hnone, ?_⟩⟩
    · rw [← perm_singleton, Call.stored]
      refine (hperm.filter _).trans (.of_eq ?_)
      have hnew : (call.envelope event priority).id ∉ call.before.pending.map (·.id) := hid
      rw [filter_cons_of_pos (by simpa using hnew), filter_eq_nil_iff.2]
      intro e he
      simpa using ⟨e, (hremoves.mem_iff.1 he).1, rfl⟩
    · intro e he
      exact (mem_cons.1 (hperm.mem_iff.1 he)).imp_right fun h => (hremoves.mem_iff.1 h).1
  | taken maxSize batch hrequest hanswer hperm hsorted hleft hlength hsettles =>
    have hsub : call.after.pending ⊆ call.before.pending := fun e he =>
      hperm.mem_iff.2 (mem_append_right _ he)
    refine ⟨fun e he => ?_, .inl ⟨Call.stored_eq_nil hsub, hsub⟩⟩
    rw [Call.delivered, hanswer] at he
    exact hperm.mem_iff.2 (mem_append_left _ he)
  | cleared sessionId ids hrequest hanswer hremoves hsettles hgone =>
    have hsub : call.after.pending ⊆ call.before.pending := fun e he => (hremoves.mem_iff.1 he).1
    have hnone : call.delivered = [] := by
      rw [Call.delivered, hanswer]
    exact ⟨by simp [hnone], .inl ⟨Call.stored_eq_nil hsub, hsub⟩⟩

/-- An event that was buffered is still, or it was delivered or lost. -/
theorem Effect.accounted (h : Effect call) (hnodup : (call.before.pending.map (·.id)).Nodup)
    (hid : call.stamp.id ∉ call.before.pending.map (·.id)) (he : e ∈ call.before.pending) :
    e ∈ call.after.pending ∨ e ∈ call.delivered ∨ e ∈ call.lost := by
  obtain ⟨hdelivered, hstored⟩ := h.moves hid
  by_cases hafter : e.id ∈ call.after.pending.map (·.id)
  · obtain ⟨x, hx, hsame⟩ := mem_map.1 hafter
    have hbefore : x ∈ call.before.pending := by
      obtain ⟨-, hsub⟩ | ⟨new, -, hnew, -, -, hsub⟩ := hstored
      · exact hsub hx
      · obtain rfl | hx := hsub x hx
        · exact absurd (hnew ▸ hsame ▸ mem_map_of_mem he) hid
        · exact hx
    exact .inl (eq_of_id_eq hnodup hbefore he hsame ▸ hx)
  by_cases hbatch : e.id ∈ call.delivered.map (·.id)
  · obtain ⟨x, hx, hsame⟩ := mem_map.1 hbatch
    exact .inr (.inl (eq_of_id_eq hnodup (hdelivered x hx) he hsame ▸ hx))
  · refine .inr (.inr (mem_filter.2 ⟨he, ?_⟩))
    simp only [decide_eq_true_eq]
    exact ⟨hafter, hbatch⟩

/-- **One batch**: of two buffered events with the same priority, the older comes first, unless they
are tied. -/
theorem Effect.batch_order (h : Effect call) (huntied : Untied call)
    (he : e ∈ call.before.pending) (he' : e' ∈ call.delivered) (hne : e.id ≠ e'.id)
    (hpriority : e.priority = e'.priority) (htime : e.timestamp ≤ e'.timestamp) :
    [e, e'].Sublist call.delivered := by
  cases h with
  | quiet hqueue hsenders hacks hconfig hanswer =>
    rw [Call.delivered] at he'
    split at he'
    · next batch hbatch => exact absurd hbatch (hanswer batch)
    · cases he'
  | stored policy event priority mid ids hrequest hanswer =>
    rw [Call.delivered, hanswer] at he'
    cases he'
  | taken maxSize batch hrequest hanswer hperm hsorted hleft hlength hsettles =>
    have huntied := huntied maxSize (by rw [hrequest]; rfl)
    rw [Call.delivered, hanswer] at he' ⊢
    have hbefore' : e' ∈ call.before.pending := hperm.mem_iff.2 (mem_append_left _ he')
    -- the events strictly before a delivered event are delivered, and it is not one of them
    have hcount : call.before.pending.countP (¬ e' ≤ ·) < maxSize := by
      have hnone : call.after.pending.countP (¬ e' ≤ ·) = 0 := by
        rw [countP_eq_zero]
        intro y hy
        simpa using hleft e' he' y hy
      have hlt : batch.countP (¬ e' ≤ ·) < batch.length := by
        refine lt_of_le_of_ne countP_le_length fun heq => ?_
        simpa using countP_eq_length.1 heq e' he'
      rw [hperm.countP_eq, countP_append, hnone]
      omega
    have hlt : e.timestamp < e'.timestamp := by
      refine lt_of_le_of_ne htime fun heq => ?_
      exact absurd (huntied e' hbefore' e he hne.symm hpriority.symm heq.symm) (by omega)
    have hnle : ¬ e' ≤ e := by
      rw [AgenticEventEnvelope.le_iff, hpriority]
      omega
    have hbatch : e ∈ batch :=
      (mem_append.1 (hperm.mem_iff.1 he)).resolve_right fun hafter =>
        hnle (hleft e' he' e hafter)
    refine (pair_sublist_or hbatch he' fun heq => hne (congrArg _ heq)).resolve_right fun hsub => ?_
    have hpair := hsorted.sublist hsub
    exact hnle ((pairwise_cons.1 hpair).1 e mem_cons_self)
  | cleared sessionId ids hrequest hanswer =>
    rw [Call.delivered, hanswer] at he'
    cases he'

/-! ## Runs -/

/-- What a run keeps. -/
structure InOrder (tr : List (Call ρ)) (q : EventQueue ρ) : Prop where
  /-- The stored events have the ids of their calls. -/
  ids : ((tr.flatMap Call.stored).map (·.id)).Sublist (tr.map (·.stamp.id))
  /-- They have the times of their calls. -/
  times : ((tr.flatMap Call.stored).map (·.timestamp)).Sublist (tr.map (·.stamp.now))
  /-- What is buffered was stored. -/
  pending : q.pending ⊆ tr.flatMap Call.stored
  /-- What was delivered was stored. -/
  delivered : tr.flatMap Call.delivered ⊆ tr.flatMap Call.stored
  /-- What was stored is buffered, or it was delivered or lost. -/
  accounted : ∀ e ∈ tr.flatMap Call.stored,
    e ∈ q.pending ∨ e ∈ tr.flatMap Call.delivered ∨ e ∈ tr.flatMap Call.lost
  /-- The order is kept. -/
  order : KeepsOrder tr

theorem inOrder_new (config : EventQueueConfig) : InOrder [] (new config : EventQueue ρ) :=
  ⟨.slnil, .slnil, List.Subset.refl _, List.Subset.refl _, by simp, by simp [KeepsOrder]⟩

theorem InOrder.step (h : InOrder tr call.before) (heffect : Effect call)
    (hbookkeeping : Bookkeeping (tr.map (·.stamp.id)) call.before)
    (hids : FreshIds (tr ++ [call])) (hclock : SteadyClock (tr ++ [call])) (huntied : Untied call) :
    InOrder (tr ++ [call]) call.after := by
  have hfresh := hids
  rw [FreshIds, map_append, nodup_append] at hfresh
  obtain ⟨-, -, hfresh⟩ := hfresh
  have hid : call.stamp.id ∉ tr.map (·.stamp.id) := fun hmem =>
    hfresh _ hmem _ mem_cons_self rfl
  have hid' : call.stamp.id ∉ call.before.pending.map (·.id) := fun hmem =>
    hid (hbookkeeping.drawn hmem)
  obtain ⟨hdelivered, hstored⟩ := heffect.moves hid'
  have hsublists :
      (((tr ++ [call]).flatMap Call.stored).map (·.id)).Sublist ((tr ++ [call]).map (·.stamp.id)) ∧
      (((tr ++ [call]).flatMap Call.stored).map (·.timestamp)).Sublist
        ((tr ++ [call]).map (·.stamp.now)) := by
    simp only [flatMap_append, flatMap_singleton, map_append, map_singleton]
    obtain ⟨hnil, -⟩ | ⟨new, hnew, hnewId, hnewTime, -, -⟩ := hstored
    · rw [hnil]
      exact ⟨h.ids.append (nil_sublist _), h.times.append (nil_sublist _)⟩
    · rw [hnew, map_singleton, map_singleton, hnewId, hnewTime]
      exact ⟨h.ids.append (List.Sublist.refl _), h.times.append (List.Sublist.refl _)⟩
  have hflat : ∀ f : Call ρ → List (AgenticEventEnvelope ρ),
      (tr ++ [call]).flatMap f = tr.flatMap f ++ f call := by
    simp [flatMap_append]
  refine ⟨hsublists.1, hsublists.2, ?_, ?_, ?_, ?_⟩
  · intro e he
    rw [hflat]
    obtain ⟨-, hsub⟩ | ⟨new, hnew, -, -, -, hsub⟩ := hstored
    · exact mem_append_left _ (h.pending (hsub he))
    · obtain rfl | he := hsub e he
      · exact mem_append_right _ (hnew ▸ mem_cons_self)
      · exact mem_append_left _ (h.pending he)
  · rw [hflat, hflat, append_subset]
    refine ⟨fun e he => mem_append_left _ (h.delivered he), fun e he => ?_⟩
    exact mem_append_left _ (h.pending (hdelivered e he))
  · intro e he
    rw [hflat] at he
    simp only [hflat, mem_append]
    obtain he | he := mem_append.1 he
    · obtain hpending | hold | hold := h.accounted e he
      · obtain hafter | hnow | hnow := heffect.accounted hbookkeeping.nodup hid' hpending
        · exact .inl hafter
        · exact .inr (.inl (.inr hnow))
        · exact .inr (.inr (.inr hnow))
      · exact .inr (.inl (.inl hold))
      · exact .inr (.inr (.inl hold))
    · exact .inl (mem_of_mem_filter he)
  · intro e e' hpair hpriority hlost hlast
    rw [hflat] at hlost
    have hmem : e ∉ tr.flatMap Call.lost ∧ e ∉ call.lost := by simpa using hlost
    have hne : e.id ≠ e'.id := by
      have hnodup := hids.sublist ((hpair.map (·.id)).trans hsublists.1)
      simpa using hnodup
    have htime : e.timestamp ≤ e'.timestamp := by
      have hsteady := hclock.sublist ((hpair.map (·.timestamp)).trans hsublists.2)
      simpa using hsteady
    rw [hflat] at hpair hlast ⊢
    obtain hpair | ⟨he, he'⟩ | hpair := pair_sublist_append.1 hpair
    · obtain hlast | hlast := mem_append.1 hlast
      · exact (h.order e e' hpair hpriority hmem.1 hlast).trans (sublist_append_left _ _)
      · have he := hpair.subset mem_cons_self
        obtain hpending | hold | hold := h.accounted e he
        · exact (heffect.batch_order huntied hpending hlast hne hpriority htime).trans
            (sublist_append_right _ _)
        · exact pair_sublist_append.2 (.inr (.inl ⟨hold, hlast⟩))
        · exact absurd hold hmem.1
    · -- a new event was not delivered before, and is not now
      obtain ⟨hnil, -⟩ | ⟨new, hnew, hnewId, -, hnone, -⟩ := hstored
      · rw [hnil] at he'
        cases he'
      · rw [hnew, mem_singleton] at he'
        subst he'
        rw [hnone, append_nil] at hlast
        have hmem' := h.ids.subset (mem_map_of_mem (h.delivered hlast))
        exact absurd (hnewId ▸ hmem') hid
    · obtain ⟨hnil, -⟩ | ⟨new, hnew, -⟩ := hstored
      · rw [hnil] at hpair
        cases hpair
      · rw [hnew] at hpair
        exact absurd hpair.length_le (by simp)

/-- Every run keeps the order, if no batch is taken while events are tied. -/
theorem Calls.inOrder {config : EventQueueConfig} (h : Calls config tr q) (hids : FreshIds tr)
    (hclock : SteadyClock tr) (huntied : ∀ call ∈ tr, Untied call) : InOrder tr q := by
  revert hids hclock huntied
  suffices hall : Calls config tr q ∧ (FreshIds tr → SteadyClock tr → (∀ call ∈ tr, Untied call) →
      InOrder tr q) from hall.2
  refine Run.history (P := fun tr (q : EventQueue ρ) => Calls config tr q ∧
    (FreshIds tr → SteadyClock tr → (∀ call ∈ tr, Untied call) → InOrder tr q)) h ?_ ?_
  · exact ⟨.refl, fun _ _ _ => inOrder_new config⟩
  · intro tr q call q' ⟨hrun, ih⟩ hperforms
    refine ⟨hrun.step hperforms, fun hids hclock huntied => ?_⟩
    have hids' : FreshIds tr := by
      rw [FreshIds, map_append, nodup_append] at hids
      exact hids.1
    have hclock' : SteadyClock tr := by
      rw [SteadyClock, map_append, pairwise_append] at hclock
      exact hclock.1
    obtain ⟨huntied', hcall⟩ := forall_mem_append.1 huntied
    have hinOrder := ih hids' hclock' huntied'
    obtain ⟨-, hbookkeeping, -, -, -⟩ := hrun.reaches hids'
    have heffect := hperforms.effect hbookkeeping.nodup
    obtain ⟨rfl, rfl, -⟩ := hperforms
    exact hinOrder.step heffect hbookkeeping hids hclock (hcall call mem_cons_self)

/-- **Delivery order.** In every run, where random ids do not repeat and the clock does not go back:
if no batch is taken while events that it may reach are tied, the events of one priority are
delivered in the order in which they were stored. -/
theorem Calls.keepsOrder {config : EventQueueConfig} (h : Calls config tr q) (hids : FreshIds tr)
    (hclock : SteadyClock tr) (huntied : ∀ call ∈ tr, Untied call) : KeepsOrder tr :=
  (h.inOrder hids hclock huntied).order

/-- Four chunks of one stream, stored at times that the clock tells apart or not. -/
def chunks (times : List ℕ) : List (Stamp × Request Unit) :=
  (["a", "b", "c", "d"].zip times).map fun (id, now) =>
    (⟨id, now⟩, .enqueue .bestEffort (.textChunk "s" "t" "r" none none id) none)

/-- Four chunks at four times come out in their order. -/
theorem keepsOrder_distinct_times :
    ∃ tr q, Calls (ρ := Unit) {} tr q ∧ KeepsOrder tr ∧
      (tr.flatMap Call.delivered).map (·.id) = ["a", "b", "c", "d"] := by
  have hrun := calls_performAll (new {} : EventQueue Unit)
    (chunks [0, 1, 2, 3] ++ [(⟨"", 4⟩, .dequeueBatch 10)])
  have horder := Calls.keepsOrder hrun (by decide +kernel) (by decide +kernel) (by decide +kernel)
  exact ⟨_, _, hrun, horder, by decide +kernel⟩

/-- Four chunks that the clock does not tell apart come out in another order. -/
theorem keepsOrder_equal_times :
    ∃ tr q, Calls (ρ := Unit) {} tr q ∧ FreshIds tr ∧ SteadyClock tr ∧ ¬ KeepsOrder tr ∧
      (tr.flatMap Call.delivered).map (·.id) = ["a", "c", "b", "d"] := by
  have hrun := calls_performAll (new {} : EventQueue Unit)
    (chunks [0, 0, 0, 0] ++ [(⟨"", 4⟩, .dequeueBatch 10)])
  refine ⟨_, _, hrun, by decide +kernel, by decide +kernel, fun horder => ?_, by decide +kernel⟩
  have hpair := horder (.new ⟨"b", 0⟩ (.textChunk "s" "t" "r" none none "b") .normal)
    (.new ⟨"c", 0⟩ (.textChunk "s" "t" "r" none none "c") .normal)
  revert hpair
  decide +kernel

end EventQueue

end OpenBitFun
