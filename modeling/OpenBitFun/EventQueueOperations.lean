import OpenBitFun.EventQueue

/-!
# What the operations of the event queue do

Each operation is described by what it does to the buffered events, up to their order in the heap's
array, and to the acknowledgements. Events leave the queue by id (`Removes`), and ids do not repeat.
-/

namespace OpenBitFun

namespace EventQueue

variable {ρ : Type} {q : EventQueue ρ} {queue queue' : BinaryHeap (Reverse (AgenticEventEnvelope ρ))}
  {ids ids' : List String} {id : String} {event : AgenticEvent ρ} {e : AgenticEventEnvelope ρ}

/-! ## The heap -/

@[simp] theorem length_entries (queue : BinaryHeap (Reverse (AgenticEventEnvelope ρ))) :
    (entries queue).length = queue.len := by
  simp [entries]

theorem entries_perm {l : List (Reverse (AgenticEventEnvelope ρ))} (h : queue.iter.Perm l) :
    (entries queue).Perm (l.map Reverse.val) :=
  h.map Reverse.val

theorem entries_push (queue : BinaryHeap (Reverse (AgenticEventEnvelope ρ)))
    (e : AgenticEventEnvelope ρ) : (entries (queue.push ⟨e⟩)).Perm (e :: entries queue) :=
  entries_perm (queue.iter_push ⟨e⟩)

/-- Some events of a heap are gone, given by their ids. -/
structure Removes (queue queue' : BinaryHeap (Reverse (AgenticEventEnvelope ρ)))
    (ids : List String) : Prop where
  /-- What is left. -/
  entries : (entries queue').Perm ((entries queue).filter (·.id ∉ ids))
  /-- Only what was there goes. -/
  ids : ids ⊆ (EventQueue.entries queue).map (·.id)

theorem Removes.refl : Removes queue queue [] :=
  ⟨by simp, by simp⟩

theorem Removes.mem_iff (h : Removes queue queue' ids) :
    e ∈ EventQueue.entries queue' ↔ e ∈ EventQueue.entries queue ∧ e.id ∉ ids := by
  rw [h.entries.mem_iff, List.mem_filter, decide_eq_true_eq]

theorem Removes.trans {queue'' : BinaryHeap (Reverse (AgenticEventEnvelope ρ))}
    (h : Removes queue queue' ids) (h' : Removes queue' queue'' ids') :
    Removes queue queue'' (ids ++ ids') := by
  refine ⟨?_, fun id hid => ?_⟩
  · refine h'.entries.trans ((h.entries.filter _).trans ?_)
    rw [List.filter_filter]
    refine .of_eq (List.filter_congr fun e _ => ?_)
    simp only [List.mem_append, not_or, Bool.decide_and, Bool.and_comm]
  · obtain hid | hid := List.mem_append.1 hid
    · exact h.ids hid
    · obtain ⟨e, he, rfl⟩ := List.mem_map.1 (h'.ids hid)
      exact List.mem_map_of_mem (h.mem_iff.1 he).1

theorem Removes.len_le (h : Removes queue queue' ids) : queue'.len ≤ queue.len := by
  rw [← length_entries, ← length_entries, h.entries.length_eq]
  exact List.length_filter_le _ _

theorem Removes.countP_le (h : Removes queue queue' ids) (p : AgenticEventEnvelope ρ → Bool) :
    (EventQueue.entries queue').countP p ≤ (EventQueue.entries queue).countP p := by
  rw [h.entries.countP_eq]
  exact List.filter_sublist.countP_le

theorem Removes.nodup (h : Removes queue queue' ids)
    (hnodup : ((EventQueue.entries queue).map (·.id)).Nodup) :
    ((EventQueue.entries queue').map (·.id)).Nodup := by
  refine (h.entries.map _).nodup_iff.2 ?_
  exact hnodup.sublist (List.filter_sublist.map _)

theorem eq_of_id_eq {events : List (AgenticEventEnvelope ρ)} (hnodup : (events.map (·.id)).Nodup)
    {e e' : AgenticEventEnvelope ρ} (he : e ∈ events) (he' : e' ∈ events) (hid : e.id = e'.id) :
    e = e' :=
  List.inj_on_of_nodup_map hnodup he he' hid

/-- Rebuilding a heap without some of its events. -/
theorem splitOff_removes (queue : BinaryHeap (Reverse (AgenticEventEnvelope ρ)))
    (gone : AgenticEventEnvelope ρ → Bool)
    (hnodup : ((entries queue).map (·.id)).Nodup) :
    Removes queue (splitOff gone queue).1 (splitOff gone queue).2 ∧
      ∀ e ∈ entries queue, e.id ∈ (splitOff gone queue).2 ↔ gone e = true := by
  have hpopped : ((queue.popN queue.len).1.map (·.val)).Perm (entries queue) :=
    (queue.popN_len).map Reverse.val
  have hids : (splitOff gone queue).2.Perm (((entries queue).filter gone).map (·.id)) := by
    have hmap := (hpopped.filter gone).map (·.id)
    rwa [List.filter_map, List.map_map] at hmap
  have hmem : ∀ e ∈ entries queue, e.id ∈ (splitOff gone queue).2 ↔ gone e = true := by
    intro e he
    rw [hids.mem_iff, List.mem_map]
    refine ⟨?_, fun hgone => ⟨e, List.mem_filter.2 ⟨he, hgone⟩, rfl⟩⟩
    rintro ⟨e', he', hid⟩
    obtain ⟨he', hgone⟩ := List.mem_filter.1 he'
    exact eq_of_id_eq hnodup he' he hid ▸ hgone
  refine ⟨⟨?_, fun id hid => ?_⟩, hmem⟩
  · have hleft : (entries (splitOff gone queue).1).Perm
        (((queue.popN queue.len).1.map (·.val)).filter (!gone ·)) := by
      rw [List.filter_map]
      refine (entries_perm (BinaryHeap.iter_foldl_push _ _)).trans ?_
      rw [BinaryHeap.iter_empty, List.append_nil]
      exact .refl _
    refine hleft.trans ((hpopped.filter _).trans (.of_eq (List.filter_congr fun e he => ?_)))
    simp [hmem e he]
  · rw [hids.mem_iff] at hid
    exact (List.filter_sublist.map _).subset hid

theorem removeId_removes (he : e ∈ entries queue) :
    Removes queue (removeId queue e.id) [e.id] := by
  refine ⟨?_, by simpa using ⟨e, he, rfl⟩⟩
  refine (entries_perm (BinaryHeap.iter_retain _ _)).trans ?_
  rw [entries, List.filter_map]
  refine .of_eq (congrArg _ (List.filter_congr fun x _ => ?_))
  simp [bne, beq_eq_decide]

/-- `Iterator::max` and `min_by_key` pick an element, if there is one. -/
theorem foldl_pick_mem {α : Type} (better : α → α → Bool) (x : α) (xs : List α) :
    xs.foldl (fun m e => if better m e then e else m) x ∈ x :: xs := by
  induction xs generalizing x with
  | nil => exact List.mem_singleton.2 rfl
  | cons y ys ih =>
    rw [List.foldl_cons]
    obtain h | h := List.mem_cons.1 (ih (if better x y then y else x))
    · rw [h]
      split
      · exact List.mem_cons_of_mem x List.mem_cons_self
      · exact List.mem_cons_self
    · exact List.mem_cons_of_mem x (List.mem_cons_of_mem y h)

theorem maxEnvelope_mem {events : List (AgenticEventEnvelope ρ)} (h : maxEnvelope events = some e) :
    e ∈ events := by
  cases events with
  | nil => cases h
  | cons x xs =>
    obtain rfl := Option.some.inj h
    simpa using foldl_pick_mem (fun m e => decide (m ≤ e)) x xs

theorem oldestEnvelope_mem {events : List (AgenticEventEnvelope ρ)}
    (h : oldestEnvelope events = some e) : e ∈ events := by
  cases events with
  | nil => cases h
  | cons x xs =>
    obtain rfl := Option.some.inj h
    simpa using foldl_pick_mem (fun m e => decide (e.timestamp < m.timestamp)) x xs

theorem oldestEnvelope_eq_none {events : List (AgenticEventEnvelope ρ)}
    (h : oldestEnvelope events = none) : events = [] := by
  cases events with
  | nil => rfl
  | cons x xs => cases h

/-- Reclaiming takes out at most one chunk of the Turn's own stream, from a full queue. -/
theorem reclaim_removes (maxQueueSize : ℕ) (authoritative : AgenticEvent ρ)
    (hnodup : ((entries queue).map (·.id)).Nodup) :
    Removes queue (reclaim maxQueueSize authoritative queue).1
        (reclaim maxQueueSize authoritative queue).2 ∧
      ∀ e ∈ entries queue, e.id ∈ (reclaim maxQueueSize authoritative queue).2 →
        maxQueueSize ≤ queue.len ∧ isReclaimableStreamData authoritative e.event = true := by
  rw [reclaim]
  split_ifs with hfull
  · cases hchunk : maxEnvelope ((entries queue).filter
      (isReclaimableStreamData authoritative ·.event)) with
    | none => exact ⟨.refl, by simp⟩
    | some chunk =>
      obtain ⟨hmem, hreclaimable⟩ := List.mem_filter.1 (maxEnvelope_mem hchunk)
      refine ⟨removeId_removes hmem, fun e he hid => ⟨hfull, ?_⟩⟩
      rw [eq_of_id_eq hnodup he hmem (List.mem_singleton.1 hid)]
      exact hreclaimable
  · exact ⟨.refl, by simp⟩

theorem perm_cons_filter {events : List (AgenticEventEnvelope ρ)}
    (hnodup : (events.map (·.id)).Nodup) (he : e ∈ events) :
    events.Perm (e :: events.filter (·.id ∉ [e.id])) := by
  obtain ⟨front, back, rfl⟩ := List.append_of_mem he
  have hother : ∀ x ∈ front ++ back, x.id ∉ [e.id] := by
    intro x hx hid
    rw [List.map_append, List.map_cons, List.nodup_middle, List.nodup_cons, ← List.map_append]
      at hnodup
    exact hnodup.1 (List.mem_singleton.1 hid ▸ List.mem_map_of_mem hx)
  have hfilter : (front ++ e :: back).filter (·.id ∉ [e.id]) = front ++ back := by
    rw [List.filter_append, List.filter_cons_of_neg (by simp), ← List.filter_append,
      List.filter_eq_self]
    exact fun x hx => decide_eq_true (hother x hx)
  rw [hfilter]
  exact List.perm_middle

theorem Removes.single (h : Removes queue queue' [e.id])
    (hnodup : ((EventQueue.entries queue).map (·.id)).Nodup) (he : e ∈ EventQueue.entries queue) :
    (EventQueue.entries queue).Perm (e :: EventQueue.entries queue') :=
  (perm_cons_filter hnodup he).trans (h.entries.symm.cons e)

/-- **Bounding the reserve**: evictions take controls out of a full queue, and end with a queue that
is not full or with room in the reserve. -/
theorem evictControls_removes (maxQueueSize : ℕ) {n : ℕ}
    (hnodup : ((entries queue).map (·.id)).Nodup)
    (hn : (entries queue).countP (isDialogTurnInterrupted ·.event) = n) :
    Removes queue (evictControls maxQueueSize n queue).1 (evictControls maxQueueSize n queue).2 ∧
      (∀ e ∈ entries queue, e.id ∈ (evictControls maxQueueSize n queue).2 →
        maxQueueSize ≤ queue.len ∧ isDialogTurnInterrupted e.event = true) ∧
      ((evictControls maxQueueSize n queue).1.len < maxQueueSize ∨
        (entries (evictControls maxQueueSize n queue).1).countP (isDialogTurnInterrupted ·.event) <
          max maxQueueSize 1) := by
  induction n generalizing queue with
  | zero =>
    refine ⟨.refl, by simp [evictControls], .inr ?_⟩
    rw [evictControls, hn]
    omega
  | succ n ih =>
    rw [evictControls]
    split_ifs with hfull
    · cases holdest : oldestEnvelope ((entries queue).filter (isDialogTurnInterrupted ·.event)) with
      | none =>
        -- the count says that there is a control
        have hnil := oldestEnvelope_eq_none holdest
        rw [List.countP_eq_length_filter, hnil] at hn
        cases hn
      | some control =>
        obtain ⟨hmem, hcontrol⟩ := List.mem_filter.1 (oldestEnvelope_mem holdest)
        have hremove := removeId_removes hmem
        have hperm := hremove.single hnodup hmem
        have hcount : (entries (removeId queue control.id)).countP
            (isDialogTurnInterrupted ·.event) = n := by
          have hsum := hperm.countP_eq (isDialogTurnInterrupted ·.event)
          rw [hn, List.countP_cons, if_pos hcontrol] at hsum
          omega
        have hlen : (removeId queue control.id).len ≤ queue.len := by
          rw [← length_entries, ← length_entries, hperm.length_eq]
          exact Nat.le_succ _
        obtain ⟨hrest, hevicted, hbound⟩ := ih (hremove.nodup hnodup) hcount
        refine ⟨hremove.trans hrest, fun e he hid => ?_, hbound⟩
        obtain hid | hid := List.mem_cons.1 hid
        · rw [eq_of_id_eq hnodup he hmem hid]
          exact ⟨hfull.1, hcontrol⟩
        · obtain ⟨e', he', heq⟩ := List.mem_map.1 (hrest.ids hid)
          have hsame := eq_of_id_eq hnodup he (hremove.mem_iff.1 he').1 heq.symm
          exact ⟨hfull.1, (hevicted e (hsame ▸ he') hid).2⟩
    · refine ⟨.refl, by simp, ?_⟩
      rw [not_and_or] at hfull
      simp only [hn]
      omega

/-! ## Acknowledgements -/

/-- Settling the acknowledgements of some ids, one after the other: those that were outstanding get
the outcome, and nothing else changes. -/
theorem foldl_removeAck (outcome : AckState) (ids : List String) (q : EventQueue ρ) :
    (∀ id, (ids.foldl (removeAck outcome) q).legacyDequeueAcks.lookup id =
      if id ∈ ids then none else q.legacyDequeueAcks.lookup id) ∧
    (∀ id, (ids.foldl (removeAck outcome) q).acks.lookup id =
      if id ∈ ids ∧ (q.legacyDequeueAcks.lookup id).isSome then some outcome
      else q.acks.lookup id) ∧
    ∃ senders acks, ids.foldl (removeAck outcome) q =
      { q with legacyDequeueAcks := senders, acks := acks } := by
  induction ids generalizing q with
  | nil => exact ⟨by simp, by simp, _, _, rfl⟩
  | cons id ids ih =>
    obtain ⟨hsenders, hacks, senders, acks, hframe⟩ := ih (q.removeAck outcome id)
    have hone : (∀ id', (q.removeAck outcome id).legacyDequeueAcks.lookup id' =
          if id' = id then none else q.legacyDequeueAcks.lookup id') ∧
        (∀ id', (q.removeAck outcome id).acks.lookup id' =
          if id' = id ∧ (q.legacyDequeueAcks.lookup id').isSome then some outcome
          else q.acks.lookup id') ∧
        ∃ senders acks, q.removeAck outcome id =
          { q with legacyDequeueAcks := senders, acks := acks } := by
      rw [removeAck]
      cases hsender : q.legacyDequeueAcks.lookup id with
      | some sender =>
        refine ⟨fun id' => AssocMap.lookup_erase _ _ _, fun id' => ?_, _, _, rfl⟩
        rw [AssocMap.lookup_insert]
        grind
      | none => exact ⟨by grind, by grind, _, _, rfl⟩
    obtain ⟨hsenders', hacks', _, _, hframe'⟩ := hone
    refine ⟨fun id' => ?_, fun id' => ?_, senders, acks, ?_⟩
    · rw [List.foldl_cons, hsenders, hsenders']
      grind
    · rw [List.foldl_cons, hacks, hacks', hsenders']
      grind
    · rw [List.foldl_cons, hframe, hframe']

/-- Some acknowledgements were settled. -/
structure Settles (outcome : AckState) (q q' : EventQueue ρ) (ids : List String) : Prop where
  /-- They are not outstanding any more. -/
  senders : ∀ id, q'.legacyDequeueAcks.lookup id =
    if id ∈ ids then none else q.legacyDequeueAcks.lookup id
  /-- Those that were outstanding got the outcome. -/
  acks : ∀ id, q'.acks.lookup id =
    if id ∈ ids ∧ (q.legacyDequeueAcks.lookup id).isSome then some outcome else q.acks.lookup id
  /-- The settings stay. -/
  config : q'.config = q.config
  /-- Nothing is broadcast. -/
  broadcast : q'.broadcast = q.broadcast

theorem settles_foldl (outcome : AckState) (ids : List String)
    (queue : BinaryHeap (Reverse (AgenticEventEnvelope ρ))) :
    Settles outcome q (ids.foldl (removeAck outcome) { q with queue }) ids ∧
      (ids.foldl (removeAck outcome) { q with queue }).queue = queue := by
  obtain ⟨hsenders, hacks, _, _, hframe⟩ := foldl_removeAck outcome ids { q with queue }
  exact ⟨⟨hsenders, hacks, by rw [hframe], by rw [hframe]⟩, by rw [hframe]⟩

/-! ## Storing -/

theorem pending_store (q : EventQueue ρ) (e : AgenticEventEnvelope ρ) (policy : LegacyQueuePolicy) :
    (q.store e policy).pending.Perm (e :: q.pending) := by
  rw [store]
  split_ifs <;> exact entries_push _ _

@[simp] theorem config_store (q : EventQueue ρ) (e : AgenticEventEnvelope ρ)
    (policy : LegacyQueuePolicy) : (q.store e policy).config = q.config := by
  rw [store]
  split_ifs <;> rfl

theorem senders_store (q : EventQueue ρ) (e : AgenticEventEnvelope ρ) (policy : LegacyQueuePolicy)
    (id : String) : (q.store e policy).legacyDequeueAcks.lookup id =
      if policy = .requireImmediateAck ∧ id = e.id then some () else
        q.legacyDequeueAcks.lookup id := by
  rw [store]
  by_cases hpolicy : policy = .requireImmediateAck
  · simp only [hpolicy, if_true, true_and]
    exact AssocMap.lookup_insert _ _ _ _
  · simp [hpolicy]

theorem acks_store (q : EventQueue ρ) (e : AgenticEventEnvelope ρ) (policy : LegacyQueuePolicy)
    (id : String) : (q.store e policy).acks.lookup id =
      if policy = .requireImmediateAck ∧ id = e.id then some .waiting else q.acks.lookup id := by
  rw [store]
  by_cases hpolicy : policy = .requireImmediateAck
  · simp only [hpolicy, if_true, true_and]
    exact AssocMap.lookup_insert _ _ _ _
  · simp [hpolicy]

/-! ## The calls -/

/-- **Making room** for a control: what it supersedes goes; from a full queue a chunk of its Turn's
stream and old controls may go as well. Then the queue is not full or the reserve has room. -/
theorem makeRoom_spec (event : AgenticEvent ρ) (hnodup : (q.pending.map (·.id)).Nodup) :
    ∃ ids, Removes q.queue (q.makeRoom event).queue ids ∧
      Settles .closed q (q.makeRoom event) ids ∧
      (∀ e ∈ q.pending, e.id ∈ ids → authoritativeControlSupersedes event e.event = true ∨
        q.config.maxQueueSize ≤ q.queue.len ∧
          (isReclaimableStreamData event e.event = true ∨ isDialogTurnInterrupted e.event = true)) ∧
      (∀ e ∈ q.pending, authoritativeControlSupersedes event e.event = true → e.id ∈ ids) ∧
      ((q.makeRoom event).queue.len < q.config.maxQueueSize ∨
        (q.makeRoom event).pending.countP (isDialogTurnInterrupted ·.event) <
          max q.config.maxQueueSize 1) := by
  obtain ⟨hsplit, hsuperseded⟩ :=
    splitOff_removes q.queue (authoritativeControlSupersedes event ·.event) hnodup
  generalize hfirst : splitOff (authoritativeControlSupersedes event ·.event) q.queue = first
    at hsplit hsuperseded
  have hnodup₁ := hsplit.nodup hnodup
  obtain ⟨hreclaim, hreclaimed⟩ := reclaim_removes q.config.maxQueueSize event hnodup₁
  generalize hsecond : reclaim q.config.maxQueueSize event first.1 = second at hreclaim hreclaimed
  have hnodup₂ := hreclaim.nodup hnodup₁
  obtain ⟨hevict, hevicted, hbound⟩ :=
    evictControls_removes q.config.maxQueueSize hnodup₂ rfl
  generalize hthird : evictControls q.config.maxQueueSize
    ((entries second.1).countP (isDialogTurnInterrupted ·.event)) second.1 = third
    at hevict hevicted hbound
  have heq : q.makeRoom event =
      (first.2 ++ second.2 ++ third.2).foldl dropAck { q with queue := third.1 } := by
    rw [makeRoom, hfirst]
    simp only [hsecond, hthird]
  obtain ⟨hsettles, hqueue⟩ := settles_foldl (q := q) .closed (first.2 ++ second.2 ++ third.2) third.1
  have hremoves := (hsplit.trans hreclaim).trans hevict
  rw [heq]
  refine ⟨_, hqueue.symm ▸ hremoves, hsettles, fun e he hid => ?_, fun e he hgone => ?_, ?_⟩
  · obtain hid | hid := List.mem_append.1 hid
    · obtain hid | hid := List.mem_append.1 hid
      · exact .inl ((hsuperseded e he).1 hid)
      · obtain ⟨e', he', hsame⟩ := List.mem_map.1 (hreclaim.ids hid)
        obtain rfl := eq_of_id_eq hnodup (hsplit.mem_iff.1 he').1 he hsame
        obtain ⟨hfull, hchunk⟩ := hreclaimed e' he' hid
        exact .inr ⟨hfull.trans hsplit.len_le, .inl hchunk⟩
    · obtain ⟨e', he', hsame⟩ := List.mem_map.1 (hevict.ids hid)
      obtain rfl := eq_of_id_eq hnodup (hsplit.mem_iff.1 (hreclaim.mem_iff.1 he').1).1 he hsame
      obtain ⟨hfull, hcontrol⟩ := hevicted e' he' hid
      exact .inr ⟨hfull.trans (hreclaim.len_le.trans hsplit.len_le), .inr hcontrol⟩
  · exact List.mem_append_left _ (List.mem_append_left _ ((hsuperseded e he).2 hgone))
  · rw [pending, show dropAck = removeAck (ρ := ρ) .closed from rfl, hqueue]
    exact hbound

/-- What `enqueue_internal` does: it ignores the event, refuses it, only broadcasts it, or stores
and broadcasts it. -/
theorem enqueueInternal_cases (q : EventQueue ρ) (stamp : Stamp) (event : AgenticEvent ρ)
    (priority : Option AgenticEventPriority) (policy : LegacyQueuePolicy) :
    (policy = .authoritativeControl ∧
      (∃ e ∈ q.pending, authoritativeControlIsStale event e.event = true ∧
        q.enqueueInternal stamp event priority policy = (.ok e.id, q))) ∨
    (policy = .requireImmediateAck ∧ q.config.maxQueueSize ≤ q.queue.len ∧
      q.enqueueInternal stamp event priority policy =
        (.error (.subscriber "legacy event queue is full"), q)) ∨
    (policy = .bestEffort ∧ q.config.maxQueueSize ≤ q.queue.len ∧
      q.enqueueInternal stamp event priority policy =
        (.ok stamp.id, q.publish (.new stamp event (priority.getD event.defaultPriority)))) ∨
    ((if policy = .authoritativeControl then
        ∀ e ∈ q.pending, authoritativeControlIsStale event e.event = false
      else q.queue.len < q.config.maxQueueSize) ∧
      q.enqueueInternal stamp event priority policy =
        (.ok stamp.id, ((if policy = .authoritativeControl then q.makeRoom event else q).store
          (.new stamp event (priority.getD event.defaultPriority)) policy).publish
            (.new stamp event (priority.getD event.defaultPriority)))) := by
  cases policy with
  | authoritativeControl =>
    rw [enqueueInternal]
    cases hstale : q.pending.find? (authoritativeControlIsStale event ·.event) with
    | some e =>
      have hfound := List.find?_some hstale
      exact .inl ⟨rfl, e, List.mem_of_find?_eq_some hstale, hfound, rfl⟩
    | none =>
      refine .inr (.inr (.inr ⟨?_, rfl⟩))
      rw [if_pos rfl]
      simpa using hstale
  | requireImmediateAck =>
    by_cases hfull : q.config.maxQueueSize ≤ q.queue.len
    · exact .inr (.inl ⟨rfl, hfull, if_pos hfull⟩)
    · exact .inr (.inr (.inr ⟨Nat.lt_of_not_le hfull, if_neg hfull⟩))
  | bestEffort =>
    by_cases hfull : q.config.maxQueueSize ≤ q.queue.len
    · exact .inr (.inr (.inl ⟨rfl, hfull, if_pos hfull⟩))
    · exact .inr (.inr (.inr ⟨Nat.lt_of_not_le hfull, if_neg hfull⟩))

/-- What `dequeue_batch` does: the batch is sorted, what is left does not come before it, and the
acknowledgements of the batch are sent. -/
theorem dequeueBatch_spec (q : EventQueue ρ) (maxSize : ℕ) :
    q.pending.Perm ((q.dequeueBatch maxSize).1 ++ (q.dequeueBatch maxSize).2.pending) ∧
      (q.dequeueBatch maxSize).1.Pairwise (· ≤ ·) ∧
      (∀ x ∈ (q.dequeueBatch maxSize).1, ∀ y ∈ (q.dequeueBatch maxSize).2.pending, x ≤ y) ∧
      (q.dequeueBatch maxSize).1.length = min maxSize q.queue.len ∧
      Settles .completed q (q.dequeueBatch maxSize).2 ((q.dequeueBatch maxSize).1.map (·.id)) := by
  obtain ⟨hperm, hsorted, hleft, hlength⟩ := q.queue.popN_spec (min maxSize q.queue.len)
  generalize hpop : q.queue.popN (min maxSize q.queue.len) = popped at hperm hsorted hleft hlength
  have hbatch : (q.dequeueBatch maxSize).1 = popped.1.map Reverse.val := by
    rw [dequeueBatch, hpop]
  obtain ⟨hsettles, hqueue⟩ :=
    settles_foldl (q := q) .completed ((popped.1.map Reverse.val).map (·.id)) popped.2
  have hstats : ∃ stats, (q.dequeueBatch maxSize).2 =
      { ((popped.1.map Reverse.val).map (·.id)).foldl (removeAck .completed)
        { q with queue := popped.2 } with stats := stats } := by
    rw [dequeueBatch, hpop]
    by_cases hempty : (popped.1.map Reverse.val).isEmpty = true
    · exact ⟨_, if_pos hempty⟩
    · exact ⟨_, if_neg hempty⟩
  obtain ⟨stats, hstats⟩ := hstats
  have hpending : (q.dequeueBatch maxSize).2.pending = popped.2.iter.map Reverse.val := by
    rw [hstats]
    exact congrArg entries hqueue
  rw [hbatch, hpending]
  refine ⟨?_, ?_, ?_, ?_, ?_⟩
  · rw [← List.map_append]
    exact entries_perm hperm
  · exact List.pairwise_map.2 hsorted
  · intro x hx y hy
    obtain ⟨x', hx', rfl⟩ := List.mem_map.1 hx
    obtain ⟨y', hy', rfl⟩ := List.mem_map.1 hy
    exact hleft x' hx' y' hy'
  · rw [List.length_map, hlength, Nat.min_assoc, Nat.min_self]
  · rw [hstats]
    exact ⟨hsettles.senders, hsettles.acks, hsettles.config, hsettles.broadcast⟩

theorem clearSession_spec (q : EventQueue ρ) (sessionId : String)
    (hnodup : (q.pending.map (·.id)).Nodup) :
    ∃ ids, Removes q.queue (q.clearSession sessionId).queue ids ∧
      Settles .closed q (q.clearSession sessionId) ids ∧
      ∀ e ∈ q.pending, e.id ∈ ids ↔ e.event.sessionId = some sessionId := by
  obtain ⟨hsplit, hgone⟩ :=
    splitOff_removes q.queue (·.event.sessionId = some sessionId) hnodup
  generalize hfirst : splitOff (fun e => decide (e.event.sessionId = some sessionId)) q.queue = first
    at hsplit hgone
  obtain ⟨hsettles, hqueue⟩ := settles_foldl (q := q) .closed first.2 first.1
  have heq : q.clearSession sessionId =
      { first.2.foldl (removeAck .closed) { q with queue := first.1 } with
        stats := { (first.2.foldl (removeAck .closed) { q with queue := first.1 }).stats with
          pendingEvents := first.1.len } } := by
    rw [clearSession, hfirst]
    rfl
  rw [heq]
  refine ⟨first.2, ?_, ?_, fun e he => ?_⟩
  · simpa only [hqueue] using hsplit
  · exact ⟨hsettles.senders, hsettles.acks, hsettles.config, hsettles.broadcast⟩
  · simpa using hgone e he

/-- The events of a batch leave by their ids. -/
theorem removes_of_perm {batch : List (AgenticEventEnvelope ρ)}
    (hnodup : ((entries queue).map (·.id)).Nodup)
    (hperm : (entries queue).Perm (batch ++ entries queue')) :
    Removes queue queue' (batch.map (·.id)) := by
  rw [(hperm.map _).nodup_iff, List.map_append, List.nodup_append] at hnodup
  refine ⟨?_, ?_⟩
  · refine .trans (.of_eq ?_) (hperm.filter _).symm
    rw [List.filter_append, List.filter_eq_nil_iff.2, List.nil_append, List.filter_eq_self.2]
    · intro e he
      simp only [decide_eq_true_eq]
      exact fun hid => hnodup.2.2 _ hid _ (List.mem_map_of_mem he) rfl
    · intro e he
      simpa using ⟨e, he, rfl⟩
  · intro id hid
    rw [(hperm.map _).mem_iff, List.map_append]
    exact List.mem_append_left _ hid

/-- The envelope that a call would enqueue. -/
def Call.envelope (call : Call ρ) (event : AgenticEvent ρ)
    (priority : Option AgenticEventPriority) : AgenticEventEnvelope ρ :=
  .new call.stamp event (priority.getD event.defaultPriority)

/-- **What a call does**: nothing to the buffer, or it stores an event after it made room for it,
takes a batch, or clears a session. -/
inductive Effect (call : Call ρ) : Prop
  | quiet (hqueue : call.after.queue = call.before.queue)
      (hsenders : call.after.legacyDequeueAcks = call.before.legacyDequeueAcks)
      (hacks : call.after.acks = call.before.acks) (hconfig : call.after.config = call.before.config)
      (hanswer : ∀ batch, call.answer ≠ .batch batch)
  | stored (policy : LegacyQueuePolicy) (event : AgenticEvent ρ)
      (priority : Option AgenticEventPriority) (mid : EventQueue ρ) (ids : List String)
      (hrequest : call.request = .enqueue policy event priority)
      (hanswer : call.answer = .enqueued (.ok call.stamp.id))
      (hremoves : Removes call.before.queue mid.queue ids)
      (hsettles : Settles .closed call.before mid ids)
      (hreason : ∀ e ∈ call.before.pending, e.id ∈ ids → policy = .authoritativeControl ∧
        (authoritativeControlSupersedes event e.event = true ∨
          call.before.config.maxQueueSize ≤ call.before.queue.len ∧
            (isReclaimableStreamData event e.event = true ∨ isDialogTurnInterrupted e.event = true)))
      (hsuperseded : policy = .authoritativeControl → ∀ e ∈ call.before.pending,
        authoritativeControlSupersedes event e.event = true → e.id ∈ ids)
      (hstale : policy = .authoritativeControl → ∀ e ∈ call.before.pending,
        authoritativeControlIsStale event e.event = false)
      (hroom : mid.queue.len < call.before.config.maxQueueSize ∨ policy = .authoritativeControl ∧
        mid.pending.countP (isDialogTurnInterrupted ·.event) <
          max call.before.config.maxQueueSize 1)
      (hafter : call.after = (mid.store (call.envelope event priority) policy).publish
        (call.envelope event priority))
  | taken (maxSize : ℕ) (batch : List (AgenticEventEnvelope ρ))
      (hrequest : call.request = .dequeueBatch maxSize) (hanswer : call.answer = .batch batch)
      (hperm : call.before.pending.Perm (batch ++ call.after.pending))
      (hsorted : batch.Pairwise (· ≤ ·))
      (hleft : ∀ x ∈ batch, ∀ y ∈ call.after.pending, x ≤ y)
      (hlength : batch.length = min maxSize call.before.queue.len)
      (hsettles : Settles .completed call.before call.after (batch.map (·.id)))
  | cleared (sessionId : String) (ids : List String)
      (hrequest : call.request = .clearSession sessionId) (hanswer : call.answer = .done)
      (hremoves : Removes call.before.queue call.after.queue ids)
      (hsettles : Settles .closed call.before call.after ids)
      (hgone : ∀ e ∈ call.before.pending, e.id ∈ ids ↔ e.event.sessionId = some sessionId)

theorem perform_enqueue (q : EventQueue ρ) (stamp : Stamp) (policy : LegacyQueuePolicy)
    (event : AgenticEvent ρ) (priority : Option AgenticEventPriority) :
    q.perform stamp (.enqueue policy event priority) =
      (.enqueued (q.enqueueInternal stamp event priority policy).1,
        (q.enqueueInternal stamp event priority policy).2) := by
  cases policy <;> rfl

theorem Performs.effect {q q' : EventQueue ρ} {call : Call ρ} (h : Performs q call q')
    (hnodup : (q.pending.map (·.id)).Nodup) : Effect call := by
  obtain ⟨rfl, rfl, hperform⟩ := h
  obtain ⟨before, stamp, request, answer, after⟩ := call
  simp only at hperform hnodup
  cases request with
  | enqueue policy event priority =>
    rw [perform_enqueue] at hperform
    obtain ⟨-, e, -, -, hignored⟩ | ⟨-, -, hrefused⟩ | ⟨-, -, hbroadcast⟩ | ⟨hguard, hstored⟩ :=
      before.enqueueInternal_cases stamp event priority policy
    · rw [hignored] at hperform
      obtain ⟨rfl, rfl⟩ := Prod.mk.inj hperform
      exact .quiet rfl rfl rfl rfl (by simp)
    · rw [hrefused] at hperform
      obtain ⟨rfl, rfl⟩ := Prod.mk.inj hperform
      exact .quiet rfl rfl rfl rfl (by simp)
    · rw [hbroadcast] at hperform
      obtain ⟨rfl, rfl⟩ := Prod.mk.inj hperform
      exact .quiet rfl rfl rfl rfl (by simp)
    · rw [hstored] at hperform
      obtain ⟨rfl, rfl⟩ := Prod.mk.inj hperform
      by_cases hpolicy : policy = .authoritativeControl
      · rw [if_pos hpolicy] at hguard
        simp only [if_pos hpolicy]
        obtain ⟨ids, hremoves, hsettles, hreason, hsuperseded, hroom⟩ :=
          before.makeRoom_spec event hnodup
        exact .stored policy event priority (before.makeRoom event) ids rfl rfl hremoves hsettles
          (fun e he hid => ⟨hpolicy, hreason e he hid⟩) (fun _ => hsuperseded) (fun _ => hguard)
          (hroom.imp_right fun hcontrols => ⟨hpolicy, hcontrols⟩) rfl
      · rw [if_neg hpolicy] at hguard
        simp only [if_neg hpolicy]
        exact .stored policy event priority before [] rfl rfl .refl ⟨by simp, by simp, rfl, rfl⟩
          (by simp) (fun h => absurd h hpolicy) (fun h => absurd h hpolicy) (.inl hguard) rfl
  | dequeueBatch maxSize =>
    obtain ⟨hperm, hsorted, hleft, hlength, hsettles⟩ := before.dequeueBatch_spec maxSize
    obtain ⟨rfl, rfl⟩ := Prod.mk.inj hperform
    exact .taken maxSize _ rfl rfl hperm hsorted hleft hlength hsettles
  | clearSession sessionId =>
    obtain ⟨ids, hremoves, hsettles, hgone⟩ := before.clearSession_spec sessionId hnodup
    obtain ⟨rfl, rfl⟩ := Prod.mk.inj hperform
    exact .cleared sessionId ids rfl rfl hremoves hsettles hgone
  | subscribeSession sessionId =>
    obtain ⟨rfl, rfl⟩ := Prod.mk.inj hperform
    have hframe : ∃ sessionBroadcasts, before.subscribeSession sessionId =
        { before with sessionBroadcasts := sessionBroadcasts } := by
      rw [subscribeSession]
      split <;> exact ⟨_, rfl⟩
    obtain ⟨_, hframe⟩ := hframe
    refine .quiet ?_ ?_ ?_ ?_ (by simp) <;> simp only [hframe]
  | dropSessionReceiver sessionId =>
    obtain ⟨rfl, rfl⟩ := Prod.mk.inj hperform
    exact .quiet rfl rfl rfl rfl (by simp)

theorem Effect.config {call : Call ρ} (h : Effect call) :
    call.after.config = call.before.config := by
  cases h with
  | quiet hqueue hsenders hacks hconfig hanswer => exact hconfig
  | stored policy event priority mid ids hrequest hanswer hremoves hsettles hreason hsuperseded hstale
      hroom hafter =>
    rw [hafter]
    exact (config_store mid _ policy).trans hsettles.config
  | taken maxSize batch hrequest hanswer hperm hsorted hleft hlength hsettles =>
    exact hsettles.config
  | cleared sessionId ids hrequest hanswer hremoves hsettles hgone => exact hsettles.config

end EventQueue

end OpenBitFun
