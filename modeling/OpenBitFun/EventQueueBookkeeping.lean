import OpenBitFun.EventQueueOperations

/-!
# The bookkeeping of the event queue

What holds in every state that calls of the queue can reach (`Bookkeeping`): an acknowledgement is
outstanding only for a buffered event, ordinary events stay within the capacity and controls within
the reserve. From it follows what becomes of every acknowledgement in every call.
-/

namespace OpenBitFun

open List

namespace EventQueue

variable {ρ : Type} {q q' : EventQueue ρ} {ids used : List String} {id : String}
  {event : AgenticEvent ρ} {e : AgenticEventEnvelope ρ} {outcome : AckState}

/-! ## The invariant -/

/-- The invariant of the queue, where `used` are the ids drawn so far. -/
structure Bookkeeping (used : List String) (q : EventQueue ρ) : Prop where
  /-- Ids do not repeat. -/
  nodup : (q.pending.map (·.id)).Nodup
  /-- Buffered events were enqueued. -/
  drawn : q.pending.map (·.id) ⊆ used
  /-- An outstanding acknowledgement belongs to a buffered event. -/
  senders : ∀ id, (q.legacyDequeueAcks.lookup id).isSome → id ∈ q.pending.map (·.id)
  /-- The acknowledgements that wait are the outstanding ones. -/
  waiting : ∀ id, q.acks.lookup id = some .waiting ↔ (q.legacyDequeueAcks.lookup id).isSome
  /-- Acknowledgements were handed out for enqueued events. -/
  known : ∀ id, (q.acks.lookup id).isSome → id ∈ used

/-- The buffer is bounded. -/
structure Bounded (q : EventQueue ρ) : Prop where
  /-- Ordinary events are within the capacity. -/
  ordinary : q.pending.countP (!isDialogTurnInterrupted ·.event) ≤ q.config.maxQueueSize
  /-- Controls are within the reserve. -/
  controls : q.pending.countP (isDialogTurnInterrupted ·.event) ≤ max q.config.maxQueueSize 1

theorem bookkeeping_new (config : EventQueueConfig) :
    Bookkeeping [] (new config : EventQueue ρ) := by
  have hnone : ∀ id, (new config : EventQueue ρ).acks.lookup id = none := fun _ => rfl
  have hnone' : ∀ id, (new config : EventQueue ρ).legacyDequeueAcks.lookup id = none := fun _ => rfl
  refine ⟨.nil, List.Subset.refl _, ?_, ?_, ?_⟩
  · simp [hnone']
  · simp [hnone, hnone']
  · simp [hnone]

theorem Bookkeeping.mono {used' : List String} (h : Bookkeeping used q) (hsub : used ⊆ used') :
    Bookkeeping used' q :=
  { h with
    drawn := List.Subset.trans h.drawn hsub
    known := fun id hid => hsub (h.known id hid) }

/-- Events leave, and their acknowledgements are settled. -/
theorem Bookkeeping.remove (h : Bookkeeping used q) (hremoves : Removes q.queue q'.queue ids)
    (hsettles : Settles outcome q q' ids) (houtcome : outcome ≠ .waiting) :
    Bookkeeping used q' := by
  refine ⟨hremoves.nodup h.nodup, ?_, ?_, ?_, ?_⟩
  · intro id hid
    obtain ⟨e, he, rfl⟩ := mem_map.1 hid
    exact h.drawn (mem_map_of_mem (hremoves.mem_iff.1 he).1)
  · intro id hsome
    rw [hsettles.senders] at hsome
    split_ifs at hsome with hid
    · cases hsome
    · obtain ⟨e, he, rfl⟩ := mem_map.1 (h.senders id hsome)
      exact mem_map_of_mem (hremoves.mem_iff.2 ⟨he, hid⟩)
  · intro id
    rw [hsettles.senders, hsettles.acks]
    have hwaiting := h.waiting id
    split_ifs with hgone hid hid
    · simpa using houtcome
    · exact absurd hgone.1 hid
    · rw [hwaiting]
      simpa [hid] using hgone
    · exact hwaiting
  · intro id hsome
    rw [hsettles.acks] at hsome
    split_ifs at hsome with hgone
    · exact h.drawn (h.senders id hgone.2)
    · exact h.known id hsome

theorem Bookkeeping.store (h : Bookkeeping used q) (policy : LegacyQueuePolicy)
    (hid : e.id ∉ used) : Bookkeeping (used ++ [e.id]) (q.store e policy) := by
  have hpending := pending_store q e policy
  refine ⟨?_, ?_, ?_, ?_, ?_⟩
  · rw [(hpending.map _).nodup_iff, map_cons, nodup_cons]
    exact ⟨fun hmem => hid (h.drawn hmem), h.nodup⟩
  · intro id hmem
    rw [(hpending.map _).mem_iff, map_cons, mem_cons] at hmem
    obtain rfl | hmem := hmem
    · exact mem_append_right _ mem_cons_self
    · exact mem_append_left _ (h.drawn hmem)
  · intro id hsome
    rw [(hpending.map _).mem_iff, map_cons, mem_cons]
    rw [senders_store] at hsome
    split_ifs at hsome with hnew
    · exact .inl hnew.2
    · exact .inr (h.senders id hsome)
  · intro id
    rw [senders_store, acks_store]
    split_ifs
    · simp
    · exact h.waiting id
  · intro id hsome
    rw [acks_store] at hsome
    split_ifs at hsome with hnew
    · exact mem_append_right _ (mem_singleton.2 hnew.2)
    · exact mem_append_left _ (h.known id hsome)

theorem Bookkeeping.effect {call : Call ρ} (h : Bookkeeping used call.before) (heffect : Effect call)
    (hid : call.stamp.id ∉ used) : Bookkeeping (used ++ [call.stamp.id]) call.after := by
  have hmono := subset_append_left used [call.stamp.id]
  cases heffect with
  | quiet hqueue hsenders hacks hconfig hanswer =>
    have hpending : call.after.pending = call.before.pending := congrArg entries hqueue
    refine .mono ?_ hmono
    exact ⟨by rw [hpending]; exact h.nodup, by rw [hpending]; exact h.drawn,
      by rw [hpending, hsenders]; exact h.senders, by rw [hacks, hsenders]; exact h.waiting,
      by rw [hacks]; exact h.known⟩
  | stored policy event priority mid ids hrequest hanswer hremoves hsettles hreason hsuperseded hstale
      hroom hafter =>
    have hmid := h.remove hremoves hsettles (by simp)
    have hstore := hmid.store (e := call.envelope event priority) policy hid
    -- broadcasting does not touch what the invariant is about
    rw [hafter]
    exact ⟨hstore.nodup, hstore.drawn, hstore.senders, hstore.waiting, hstore.known⟩
  | taken maxSize batch hrequest hanswer hperm hsorted hleft hlength hsettles =>
    exact (h.remove (removes_of_perm h.nodup hperm) hsettles (by simp)).mono hmono
  | cleared sessionId ids hrequest hanswer hremoves hsettles hgone =>
    exact (h.remove hremoves hsettles (by simp)).mono hmono

/-! ## The bound -/

/-- The queue stays within the capacity and the reserve. -/
theorem Bounded.length_le (h : Bounded q) :
    q.pending.length ≤ q.config.maxQueueSize + max q.config.maxQueueSize 1 := by
  have hsplit := q.pending.length_eq_countP_add_countP (isDialogTurnInterrupted ·.event)
  have hordinary := h.ordinary
  have hcontrols := h.controls
  simp only [Bool.decide_eq_true, decide_not] at hsplit
  omega

theorem Bounded.of_le (h : Bounded q) (hconfig : q'.config = q.config)
    (hle : ∀ p : AgenticEventEnvelope ρ → Bool, q'.pending.countP p ≤ q.pending.countP p) :
    Bounded q' :=
  ⟨hconfig ▸ (hle _).trans h.ordinary, hconfig ▸ (hle _).trans h.controls⟩

/-- A new event is stored in the capacity or, if it is a control, in the reserve. -/
theorem Bounded.store (h : Bounded q) (policy : LegacyQueuePolicy)
    (hroom : q.queue.len < q.config.maxQueueSize ∨ isDialogTurnInterrupted e.event = true ∧
      q.pending.countP (isDialogTurnInterrupted ·.event) < max q.config.maxQueueSize 1) :
    Bounded (q.store e policy) := by
  have hpending := pending_store q e policy
  have hlen : q.pending.length = q.queue.len := length_entries q.queue
  have hcount := fun p => q.pending.countP_le_length (p := p)
  refine ⟨?_, ?_⟩
  · rw [hpending.countP_eq, config_store, countP_cons]
    have hle := hcount (!isDialogTurnInterrupted ·.event)
    have hordinary := h.ordinary
    obtain hroom | hroom := hroom
    · split <;> omega
    · simp [hroom.1, hordinary]
  · rw [hpending.countP_eq, config_store, countP_cons]
    have hle := hcount (isDialogTurnInterrupted ·.event)
    have hcontrols := h.controls
    obtain hroom | hroom := hroom
    · split <;> omega
    · simp only [hroom.1, if_true]
      omega

/-- Every call keeps the bound, if controls are all that is enqueued with guaranteed storage. -/
theorem Bounded.effect {call : Call ρ} (h : Bounded call.before) (heffect : Effect call)
    (hguaranteed : ∀ event priority, call.request = .enqueue .authoritativeControl event priority →
      isDialogTurnInterrupted event = true) : Bounded call.after := by
  have hconfig := heffect.config
  cases heffect with
  | quiet hqueue hsenders hacks hconfig hanswer =>
    have hpending : call.after.pending = call.before.pending := congrArg entries hqueue
    exact h.of_le hconfig fun p => by rw [hpending]
  | stored policy event priority mid ids hrequest hanswer hremoves hsettles hreason hsuperseded hstale
      hroom hafter =>
    have hmid : Bounded mid := h.of_le hsettles.config hremoves.countP_le
    have hstore : Bounded (mid.store (call.envelope event priority) policy) := by
      refine hmid.store policy ?_
      rw [hsettles.config]
      obtain hroom | ⟨rfl, hroom⟩ := hroom
      · exact .inl hroom
      · exact .inr ⟨hguaranteed event priority hrequest, hroom⟩
    rw [hafter]
    exact ⟨hstore.ordinary, hstore.controls⟩
  | taken maxSize batch hrequest hanswer hperm hsorted hleft hlength hsettles =>
    refine h.of_le hconfig fun p => ?_
    rw [hperm.countP_eq, countP_append]
    exact Nat.le_add_left _ _
  | cleared sessionId ids hrequest hanswer hremoves hsettles hgone =>
    exact h.of_le hconfig hremoves.countP_le

/-! ## What becomes of acknowledgements -/

/-- A call other than a dequeue took an event out of the buffer, and why. -/
inductive Discarded (call : Call ρ) (e : AgenticEventEnvelope ρ) : Prop
  | superseded (event : AgenticEvent ρ) (priority : Option AgenticEventPriority)
      (hrequest : call.request = .enqueue .authoritativeControl event priority)
      (hsuperseded : authoritativeControlSupersedes event e.event = true)
      (hgone : e ∉ call.after.pending)
  | reclaimed (event : AgenticEvent ρ) (priority : Option AgenticEventPriority)
      (hrequest : call.request = .enqueue .authoritativeControl event priority)
      (hfull : call.before.config.maxQueueSize ≤ call.before.queue.len)
      (hchunk : isReclaimableStreamData event e.event = true) (hgone : e ∉ call.after.pending)
  | evicted (event : AgenticEvent ρ) (priority : Option AgenticEventPriority)
      (hrequest : call.request = .enqueue .authoritativeControl event priority)
      (hfull : call.before.config.maxQueueSize ≤ call.before.queue.len)
      (hcontrol : isDialogTurnInterrupted e.event = true) (hgone : e ∉ call.after.pending)
  | cleared (sessionId : String) (hrequest : call.request = .clearSession sessionId)
      (hsession : e.event.sessionId = some sessionId) (hgone : e ∉ call.after.pending)

/-- A call accounts for every acknowledgement. -/
structure Accounts (call : Call ρ) : Prop where
  /-- It is completed by the dequeue whose batch contains its event, and by nothing else. -/
  completed : ∀ id, call.before.acks.lookup id = some .waiting →
    (call.after.acks.lookup id = some .completed ↔
      ∃ batch, call.answer = .batch batch ∧ id ∈ batch.map (·.id))
  /-- It is closed when its event is superseded, reclaimed, evicted or cleared, and only then. -/
  closed : ∀ id, call.before.acks.lookup id = some .waiting →
    (call.after.acks.lookup id = some .closed ↔
      ∃ e ∈ call.before.pending, e.id = id ∧ Discarded call e)
  /-- What it came to is final. -/
  final : ∀ id state, call.before.acks.lookup id = some state → state ≠ .waiting →
    call.after.acks.lookup id = some state
  /-- A new one is handed out for a fence, and waits. -/
  created : ∀ id, call.before.acks.lookup id = none → call.after.acks.lookup id ≠ none →
    call.after.acks.lookup id = some .waiting ∧ id = call.stamp.id ∧
      ∃ event priority, call.request = .enqueue .requireImmediateAck event priority

theorem Discarded.gone {call : Call ρ} (h : Discarded call e) : e ∉ call.after.pending := by
  cases h <;> assumption

/-- A waiting acknowledgement, when some events leave. -/
theorem Bookkeeping.settles {call : Call ρ} {mid : EventQueue ρ} (h : Bookkeeping used call.before)
    (hsettles : Settles outcome call.before mid ids) {id : String}
    (hwaiting : call.before.acks.lookup id = some .waiting) :
    mid.acks.lookup id = if id ∈ ids then some outcome else some .waiting := by
  rw [hsettles.acks, hwaiting]
  simp [(h.waiting id).1 hwaiting]

/-- A settled acknowledgement, when some events leave. -/
theorem Bookkeeping.settles_final {call : Call ρ} {mid : EventQueue ρ}
    (h : Bookkeeping used call.before) (hsettles : Settles outcome call.before mid ids) {id : String}
    (hwaiting : call.before.acks.lookup id ≠ some .waiting) :
    mid.acks.lookup id = call.before.acks.lookup id := by
  rw [hsettles.acks, if_neg]
  exact fun hgone => hwaiting ((h.waiting id).2 hgone.2)

/-- Every call accounts for the acknowledgements. -/
theorem Effect.accounts {call : Call ρ} (heffect : Effect call) (h : Bookkeeping used call.before)
    (hid : call.stamp.id ∉ used) : Accounts call := by
  cases heffect with
  | quiet hqueue hsenders hacks hconfig hanswer =>
    have hpending : call.after.pending = call.before.pending := congrArg entries hqueue
    refine ⟨fun id hwaiting => ?_, fun id hwaiting => ?_, fun id state hstate _ => ?_,
      fun id hnone hsome => ?_⟩
    · rw [hacks, hwaiting]
      refine ⟨fun heq => ?_, fun ⟨batch, hbatch, _⟩ => absurd hbatch (hanswer batch)⟩
      cases heq
    · rw [hacks, hwaiting]
      refine ⟨fun heq => ?_, fun ⟨e, he, _, hdiscarded⟩ => absurd (hpending ▸ he) hdiscarded.gone⟩
      cases heq
    · rw [hacks, hstate]
    · exact absurd (hacks ▸ hnone) hsome
  | stored policy event priority mid ids hrequest hanswer hremoves hsettles hreason hsuperseded hstale
      hroom hafter =>
    have hacks : ∀ id, call.after.acks.lookup id =
        if policy = .requireImmediateAck ∧ id = call.stamp.id then some .waiting
        else mid.acks.lookup id := by
      intro id
      rw [hafter]
      exact acks_store mid (call.envelope event priority) policy id
    have hold : ∀ id state, call.before.acks.lookup id = some state →
        call.after.acks.lookup id = mid.acks.lookup id := by
      intro id state hstate
      rw [hacks, if_neg]
      rintro ⟨-, rfl⟩
      exact hid (h.known _ (by rw [hstate]; rfl))
    have hmem : ∀ e ∈ call.before.pending, e ∈ call.after.pending ↔ e.id ∉ ids := by
      intro e he
      have hpending : call.after.pending.Perm (call.envelope event priority :: mid.pending) := by
        rw [hafter]
        exact pending_store mid _ policy
      have hne : e ≠ call.envelope event priority := by
        rintro rfl
        exact hid (h.drawn (mem_map_of_mem he))
      rw [hpending.mem_iff, mem_cons, or_iff_right hne]
      exact hremoves.mem_iff.trans (and_iff_right he)
    refine ⟨fun id hwaiting => ?_, fun id hwaiting => ?_, fun id state hstate hne => ?_,
      fun id hnone hsome => ?_⟩
    · rw [hold id _ hwaiting, h.settles hsettles hwaiting, hanswer]
      split_ifs <;> simp
    · rw [hold id _ hwaiting, h.settles hsettles hwaiting]
      refine ⟨fun hclosed => ?_, fun ⟨e, he, hsame, hdiscarded⟩ => ?_⟩
      · split_ifs at hclosed with hmem'
        · obtain ⟨e, he, rfl⟩ := mem_map.1 (hremoves.ids hmem')
          have hgone : e ∉ call.after.pending := fun hin => (hmem e he).1 hin hmem'
          obtain ⟨rfl, hsup | ⟨hfull, hchunk | hcontrol⟩⟩ := hreason e he hmem'
          · exact ⟨e, he, rfl, .superseded event priority hrequest hsup hgone⟩
          · exact ⟨e, he, rfl, .reclaimed event priority hrequest hfull hchunk hgone⟩
          · exact ⟨e, he, rfl, .evicted event priority hrequest hfull hcontrol hgone⟩
        · cases hclosed
      · have hin : id ∈ ids := by
          by_contra hnot
          exact hdiscarded.gone ((hmem e he).2 (hsame ▸ hnot))
        rw [if_pos hin]
    · rw [hold id _ hstate, h.settles_final hsettles, hstate]
      rw [hstate]
      simpa using hne
    · rw [hacks] at hsome ⊢
      split_ifs at hsome ⊢ with hnew
      · exact ⟨rfl, hnew.2, event, priority, hnew.1 ▸ hrequest⟩
      · rw [h.settles_final hsettles (by rw [hnone]; simp), hnone] at hsome
        exact absurd rfl hsome
  | taken maxSize batch hrequest hanswer hperm hsorted hleft hlength hsettles =>
    refine ⟨fun id hwaiting => ?_, fun id hwaiting => ?_, fun id state hstate hne => ?_,
      fun id hnone hsome => ?_⟩
    · rw [h.settles hsettles hwaiting, hanswer]
      split_ifs with hmem
      · exact ⟨fun _ => ⟨batch, rfl, hmem⟩, fun _ => rfl⟩
      · simpa using hmem
    · rw [h.settles hsettles hwaiting]
      refine ⟨fun hclosed => ?_, fun ⟨e, he, hsame, hdiscarded⟩ => ?_⟩
      · split_ifs at hclosed <;> cases hclosed
      · cases hdiscarded <;> simp_all
    · rw [h.settles_final hsettles, hstate]
      rw [hstate]
      simpa using hne
    · rw [h.settles_final hsettles (by rw [hnone]; simp), hnone] at hsome
      exact absurd rfl hsome
  | cleared sessionId ids hrequest hanswer hremoves hsettles hgone =>
    refine ⟨fun id hwaiting => ?_, fun id hwaiting => ?_, fun id state hstate hne => ?_,
      fun id hnone hsome => ?_⟩
    · rw [h.settles hsettles hwaiting, hanswer]
      split_ifs <;> simp
    · rw [h.settles hsettles hwaiting]
      refine ⟨fun hclosed => ?_, fun ⟨e, he, hsame, hdiscarded⟩ => ?_⟩
      · split_ifs at hclosed with hmem
        · obtain ⟨e, he, rfl⟩ := mem_map.1 (hremoves.ids hmem)
          refine ⟨e, he, rfl, .cleared sessionId hrequest ((hgone e he).1 hmem) fun hin => ?_⟩
          exact (hremoves.mem_iff.1 hin).2 hmem
        · cases hclosed
      · have hin : id ∈ ids := by
          by_contra hnot
          exact hdiscarded.gone (hremoves.mem_iff.2 ⟨he, hsame ▸ hnot⟩)
        rw [if_pos hin]
    · rw [h.settles_final hsettles, hstate]
      rw [hstate]
      simpa using hne
    · rw [h.settles_final hsettles (by rw [hnone]; simp), hnone] at hsome
      exact absurd rfl hsome

/-! ## Controls -/

/-- A refused fence and an ignored control change nothing, and no control of a higher generation is
replaced. -/
structure Respects (call : Call ρ) : Prop where
  /-- A refused fence. -/
  refused : ∀ error, call.answer = .enqueued (.error error) → call.after = call.before
  /-- An ignored control. -/
  ignored : ∀ event priority, call.request = .enqueue .authoritativeControl event priority →
    (∃ e ∈ call.before.pending, authoritativeControlIsStale event e.event = true) →
    call.after = call.before
  /-- A pending control of the same Turn with a higher generation. -/
  generation : ∀ policy event priority sessionId turnId generation,
    call.request = .enqueue policy event priority →
    interruptedControlIdentity event = some (sessionId, turnId, generation) →
    ∀ e ∈ call.before.pending, ∀ pendingGeneration,
      interruptedControlIdentity e.event = some (sessionId, turnId, pendingGeneration) →
      generation < pendingGeneration → e ∈ call.after.pending

theorem authoritativeControlIsStale_of_lt {pending : AgenticEvent ρ} {sessionId turnId : String}
    {generation pendingGeneration : ℕ}
    (hevent : interruptedControlIdentity event = some (sessionId, turnId, generation))
    (hpending : interruptedControlIdentity pending = some (sessionId, turnId, pendingGeneration))
    (hlt : generation < pendingGeneration) : authoritativeControlIsStale event pending = true := by
  simp [authoritativeControlIsStale, hevent, hpending, hlt]

theorem Performs.respects {call : Call ρ} (h : Performs q call q')
    (hnodup : (q.pending.map (·.id)).Nodup) : Respects call := by
  have heffect := h.effect hnodup
  obtain ⟨rfl, rfl, hperform⟩ := h
  have hignored : ∀ event priority,
      call.request = .enqueue .authoritativeControl event priority →
      (∃ e ∈ call.before.pending, authoritativeControlIsStale event e.event = true) →
      call.after = call.before := by
    rintro event priority hrequest ⟨e, he, hstale⟩
    rw [hrequest, perform_enqueue] at hperform
    obtain ⟨-, _, -, -, heq⟩ | ⟨hpolicy, -⟩ | ⟨hpolicy, -⟩ | ⟨hguard, -⟩ :=
      call.before.enqueueInternal_cases call.stamp event priority .authoritativeControl
    · rw [heq] at hperform
      exact (Prod.mk.inj hperform).2.symm
    · cases hpolicy
    · cases hpolicy
    · rw [if_pos rfl] at hguard
      rw [hguard e he] at hstale
      cases hstale
  refine ⟨fun error hanswer => ?_, hignored, ?_⟩
  · cases hrequest : call.request with
    | enqueue policy event priority =>
      rw [hrequest, perform_enqueue, hanswer] at hperform
      obtain ⟨-, _, -, -, heq⟩ | ⟨-, -, heq⟩ | ⟨-, -, heq⟩ | ⟨-, heq⟩ :=
        call.before.enqueueInternal_cases call.stamp event priority policy
      · rw [heq] at hperform
        cases (Prod.mk.inj hperform).1
      · rw [heq] at hperform
        exact (Prod.mk.inj hperform).2.symm
      · rw [heq] at hperform
        cases (Prod.mk.inj hperform).1
      · rw [heq] at hperform
        cases (Prod.mk.inj hperform).1
    | dequeueBatch maxSize =>
      rw [hrequest, hanswer] at hperform
      cases (Prod.mk.inj hperform).1
    | clearSession sessionId =>
      rw [hrequest, hanswer] at hperform
      cases (Prod.mk.inj hperform).1
    | subscribeSession sessionId =>
      rw [hrequest, hanswer] at hperform
      cases (Prod.mk.inj hperform).1
    | dropSessionReceiver sessionId =>
      rw [hrequest, hanswer] at hperform
      cases (Prod.mk.inj hperform).1
  · intro policy event priority sessionId turnId generation hrequest hevent e he pendingGeneration
      hpending hlt
    have hstale := authoritativeControlIsStale_of_lt hevent hpending hlt
    by_cases hpolicy : policy = .authoritativeControl
    · rw [hignored event priority (hpolicy ▸ hrequest) ⟨e, he, hstale⟩]
      exact he
    · -- only a control makes room
      cases heffect with
      | quiet hqueue =>
        rw [pending, hqueue]
        exact he
      | stored policy' event' priority' mid ids hrequest' hanswer hremoves hsettles hreason hsup hst
          hroom hafter =>
        obtain ⟨rfl, rfl, rfl⟩ := Request.enqueue.inj (hrequest.symm.trans hrequest')
        have hmem : e ∈ mid.pending :=
          hremoves.mem_iff.2 ⟨he, fun hid => hpolicy (hreason e he hid).1⟩
        rw [hafter]
        exact (pending_store mid _ policy).mem_iff.2 (mem_cons_of_mem _ hmem)
      | taken maxSize batch hrequest' => cases hrequest.symm.trans hrequest'
      | cleared sessionId' ids hrequest' => cases hrequest.symm.trans hrequest'

/-- A session has at most one interruption pending. -/
def OneInterruption (q : EventQueue ρ) : Prop :=
  ∀ e ∈ q.pending, ∀ e' ∈ q.pending, isDialogTurnInterrupted e.event = true →
    isDialogTurnInterrupted e'.event = true → e.event.sessionId = e'.event.sessionId → e = e'

theorem OneInterruption.subset (h : OneInterruption q) (hsub : q'.pending ⊆ q.pending) :
    OneInterruption q' :=
  fun e he e' he' => h e (hsub he) e' (hsub he')

/-- An interruption supersedes or is outdated by every other one of its session. -/
theorem supersedes_or_stale {pending : AgenticEvent ρ} (hevent : isDialogTurnInterrupted event = true)
    (hpending : isDialogTurnInterrupted pending = true)
    (hsession : event.sessionId = pending.sessionId) :
    authoritativeControlSupersedes event pending = true ∨
      authoritativeControlIsStale event pending = true := by
  cases event <;> cases hevent
  cases pending <;> cases hpending
  simp only [AgenticEvent.sessionId, Option.some.injEq] at hsession
  simp only [authoritativeControlSupersedes, authoritativeControlIsStale,
    interruptedControlIdentity, hsession, beq_self_eq_true, Bool.true_and, Bool.or_eq_true,
    Bool.and_eq_true, bne_iff_ne, beq_iff_eq, decide_eq_true_eq]
  grind

theorem OneInterruption.effect {call : Call ρ} (h : OneInterruption call.before)
    (heffect : Effect call)
    (honly : ∀ policy event priority, call.request = .enqueue policy event priority →
      isDialogTurnInterrupted event = true → policy = .authoritativeControl) :
    OneInterruption call.after := by
  cases heffect with
  | quiet hqueue =>
    refine h.subset fun e he => ?_
    rwa [pending, hqueue] at he
  | stored policy event priority mid ids hrequest hanswer hremoves hsettles hreason hsuperseded hstale
      hroom hafter =>
    have hsub : mid.pending ⊆ call.before.pending := fun e he => (hremoves.mem_iff.1 he).1
    -- nothing of the session is left where a new interruption is stored
    have hnew : isDialogTurnInterrupted event = true → ∀ e ∈ mid.pending,
        isDialogTurnInterrupted e.event = true → event.sessionId ≠ e.event.sessionId := by
      intro hevent e he hcontrol hsession
      obtain ⟨hbefore, hid⟩ := hremoves.mem_iff.1 he
      have hpolicy := honly policy event priority hrequest hevent
      obtain hsup | hst := supersedes_or_stale hevent hcontrol hsession
      · exact hid (hsuperseded hpolicy e hbefore hsup)
      · rw [hstale hpolicy e hbefore] at hst
        cases hst
    have hmem : ∀ e, e ∈ call.after.pending →
        e = call.envelope event priority ∨ e ∈ mid.pending := by
      intro e he
      rw [hafter] at he
      exact mem_cons.1 ((pending_store mid _ policy).mem_iff.1 he)
    intro e he e' he' hcontrol hcontrol' hsession
    obtain rfl | he := hmem e he
    · obtain rfl | he' := hmem e' he'
      · rfl
      · exact absurd hsession (hnew hcontrol e' he' hcontrol')
    · obtain rfl | he' := hmem e' he'
      · exact absurd hsession.symm (hnew hcontrol' e he hcontrol)
      · exact h e (hsub he) e' (hsub he') hcontrol hcontrol' hsession
  | taken maxSize batch hrequest hanswer hperm =>
    exact h.subset fun e he => hperm.mem_iff.2 (mem_append_right _ he)
  | cleared sessionId ids hrequest hanswer hremoves =>
    exact h.subset fun e he => (hremoves.mem_iff.1 he).1

/-! ## Runs -/

/-- What is enqueued with guaranteed storage is an interruption. -/
def Request.guaranteesControl : Request ρ → Bool
  | .enqueue .authoritativeControl event _ => isDialogTurnInterrupted event
  | _ => true

/-- An interruption is enqueued with guaranteed storage. -/
def Request.controlGuaranteed : Request ρ → Bool
  | .enqueue policy event _ => !isDialogTurnInterrupted event || policy == .authoritativeControl
  | _ => true

/-- Only interruptions are enqueued with guaranteed storage. -/
def GuaranteesControls (tr : List (Call ρ)) : Prop :=
  ∀ call ∈ tr, call.request.guaranteesControl = true

instance (tr : List (Call ρ)) : Decidable (GuaranteesControls tr) :=
  inferInstanceAs (Decidable (∀ call ∈ tr, call.request.guaranteesControl = true))

/-- Interruptions are enqueued with guaranteed storage only. -/
def ControlsGuaranteed (tr : List (Call ρ)) : Prop :=
  ∀ call ∈ tr, call.request.controlGuaranteed = true

theorem Calls.reaches {config : EventQueueConfig} {tr : List (Call ρ)} (h : Calls config tr q)
    (hids : FreshIds tr) :
    q.config = config ∧ Bookkeeping (tr.map (·.stamp.id)) q ∧
      (∀ call ∈ tr, Effect call ∧ Accounts call ∧ Respects call) ∧
      (GuaranteesControls tr → Bounded q) ∧ (ControlsGuaranteed tr → OneInterruption q) := by
  revert hids
  refine Run.history (P := fun tr (q : EventQueue ρ) => FreshIds tr →
    q.config = config ∧ Bookkeeping (tr.map (·.stamp.id)) q ∧
      (∀ call ∈ tr, Effect call ∧ Accounts call ∧ Respects call) ∧
      (GuaranteesControls tr → Bounded q) ∧ (ControlsGuaranteed tr → OneInterruption q)) h ?_ ?_
  · intro _
    exact ⟨rfl, bookkeeping_new config, by simp, fun _ => ⟨Nat.zero_le _, Nat.zero_le _⟩,
      fun _ e he => by cases he⟩
  · intro tr q call q' ih hperforms hids
    rw [FreshIds, map_append, nodup_append] at hids
    obtain ⟨hids, -, hfresh⟩ := hids
    obtain ⟨hconfig, hbookkeeping, hcalls, hbounded, hone⟩ := ih hids
    have hid : call.stamp.id ∉ tr.map (·.stamp.id) := fun hmem =>
      hfresh _ hmem _ mem_cons_self rfl
    have heffect := hperforms.effect hbookkeeping.nodup
    have hrespects := hperforms.respects hbookkeeping.nodup
    obtain ⟨rfl, rfl, -⟩ := hperforms
    refine ⟨heffect.config.trans hconfig, ?_, ?_, fun hall => ?_, fun hall => ?_⟩
    · rw [map_append]
      exact hbookkeeping.effect heffect hid
    · rw [forall_mem_append]
      refine ⟨hcalls, ?_⟩
      rw [forall_mem_singleton]
      exact ⟨heffect, heffect.accounts hbookkeeping hid, hrespects⟩
    · obtain ⟨hbefore, hcall⟩ := forall_mem_append.1 hall
      refine (hbounded hbefore).effect heffect fun event priority hrequest => ?_
      simpa [hrequest, Request.guaranteesControl] using hcall call mem_cons_self
    · obtain ⟨hbefore, hcall⟩ := forall_mem_append.1 hall
      refine (hone hbefore).effect heffect fun policy event priority hrequest hcontrol => ?_
      simpa [hrequest, Request.controlGuaranteed, hcontrol] using hcall call mem_cons_self

/-- **The bookkeeping of the queue.** In every run, where random ids do not repeat and only
interruptions are enqueued with guaranteed storage: an outstanding acknowledgement belongs to a
buffered event; the buffer stays within the capacity and the reserve; every call accounts for the
acknowledgements; a refused fence and an ignored control change nothing and no control of a higher
generation is replaced; and where interruptions come in no other way, a session has at most one
pending. -/
theorem Calls.bookkeeping {config : EventQueueConfig} {tr : List (Call ρ)} (h : Calls config tr q)
    (hids : FreshIds tr) (hguarantees : GuaranteesControls tr) :
    (∀ id, (q.legacyDequeueAcks.lookup id).isSome → ∃ e ∈ q.pending, e.id = id) ∧
    q.pending.length ≤ config.maxQueueSize + max config.maxQueueSize 1 ∧
    (∀ call ∈ tr, Accounts call ∧ Respects call) ∧
    (ControlsGuaranteed tr → OneInterruption q) := by
  obtain ⟨rfl, hbookkeeping, hcalls, hbounded, hone⟩ := h.reaches hids
  refine ⟨fun id hsome => ?_, (hbounded hguarantees).length_le,
    fun call hcall => (hcalls call hcall).2, hone⟩
  obtain ⟨e, he, hid⟩ := mem_map.1 (hbookkeeping.senders id hsome)
  exact ⟨e, he, hid⟩

/-- A recovery fence is superseded by the interruption of its Turn in a full queue: its
acknowledgement is closed. -/
theorem bookkeeping_superseded_fence :
    ∃ tr q, Calls (ρ := Unit) { maxQueueSize := 1 } tr q ∧ q.pending.length ≤ 1 + max 1 1 ∧
      q.pending.map (·.id) = ["interrupted"] ∧ q.acks.lookup "fence" = some .closed := by
  have hrun := calls_performAll (new { maxQueueSize := 1 } : EventQueue Unit)
    [(⟨"fence", 0⟩, .enqueue .requireImmediateAck (.dialogTurnRecovered "s" "t" 1) (some .normal)),
      (⟨"chunk", 1⟩, .enqueue .bestEffort (.textChunk "s" "t" "r" none none "x") none),
      (⟨"interrupted", 2⟩, .enqueue .authoritativeControl (.dialogTurnInterrupted "s" "t" 1 ())
        (some .critical))]
  have hbookkeeping := Calls.bookkeeping hrun (by decide +kernel) (by decide +kernel)
  exact ⟨_, _, hrun, hbookkeeping.2.1, by decide +kernel, by decide +kernel⟩

end EventQueue

end OpenBitFun
