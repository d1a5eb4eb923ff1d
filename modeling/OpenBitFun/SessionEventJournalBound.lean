import OpenBitFun.SessionEventJournalRestart

/-!
# The bound on a projection

Every materialized event but one is followed by `compactProjection`, which takes a list back to the
limit. `DialogTurnStarted` is not: if it is new to a full list, the list gets one entry too many.
-/

namespace OpenBitFun

open List

universe u

/-! ## Erasing positions -/

/-- The elements of a list but those at some positions. -/
def keepOthers {α : Type u} (removed : List ℕ) (l : List α) : List α :=
  (l.zipIdx.filter (·.2 ∉ removed)).map (·.1)

/-- Behind the last position that is removed everything is kept. -/
theorem map_filter_zipIdx_of_lt {α : Type u} {removed : List ℕ} (l : List α) {start : ℕ}
    (h : ∀ i ∈ removed, i < start) :
    ((l.zipIdx start).filter (·.2 ∉ removed)).map (·.1) = l := by
  have hall : (l.zipIdx start).filter (·.2 ∉ removed) = l.zipIdx start := by
    refine filter_eq_self.2 fun x hx => ?_
    have hle := (mk_mem_zipIdx_iff_le_and_getElem?_sub.1 hx).1
    rw [decide_eq_true_iff]
    intro hmem
    have hlt := h x.2 hmem
    omega
  rw [hall, zipIdx_map_fst]

/-- Positions that are erased from the back are those of the list. -/
theorem foldl_eraseIdx {α : Type u} (removed : List ℕ) (l : List α)
    (h : removed.Pairwise (· > ·)) (hlt : ∀ i ∈ removed, i < l.length) :
    removed.foldl List.eraseIdx l = keepOthers removed l := by
  induction removed generalizing l with
  | nil => simp [keepOthers]
  | cons i removed ih =>
    obtain ⟨hless, hpairwise⟩ := pairwise_cons.1 h
    have hi : i < l.length := hlt i mem_cons_self
    have hlength : (l.take i).length = i := by
      rw [length_take]
      omega
    have herase : l.eraseIdx i = l.take i ++ l.drop (i + 1) := eraseIdx_eq_take_drop_succ l i
    have hsplit : l = l.take i ++ l[i] :: l.drop (i + 1) := by
      rw [getElem_cons_drop, take_append_drop]
    rw [foldl_cons, ih _ hpairwise fun k hk => ?_]
    · have hbefore : ((l.take i).zipIdx).filter (·.2 ∉ i :: removed) =
          ((l.take i).zipIdx).filter (·.2 ∉ removed) := by
        refine filter_congr fun x hx => ?_
        have hx := (List.getElem?_eq_some_iff.1 (List.mk_mem_zipIdx_iff_getElem?.1 hx)).1
        have hne : x.2 ≠ i := by omega
        rw [decide_eq_decide, mem_cons, not_or]
        exact and_iff_right hne
      have hbehind : ∀ k ∈ i :: removed, k < i + 1 := by
        intro k hk
        rcases mem_cons.1 hk with rfl | hk
        · exact Nat.lt_succ_self k
        · exact Nat.lt_succ_of_lt (hless k hk)
      rw [keepOthers, keepOthers, herase]
      conv_rhs => rw [hsplit]
      rw [zipIdx_append, zipIdx_append, hlength, zipIdx_cons, filter_append,
        filter_append, map_append, map_append, hbefore,
        filter_cons_of_neg (by simp), Nat.zero_add, map_filter_zipIdx_of_lt _ hless,
        map_filter_zipIdx_of_lt _ hbehind]
    · have hki := hless k hk
      rw [length_eraseIdx_of_lt hi]
      omega

namespace SessionJournal

variable {ρ : Type}

/-! ## What compaction removes -/

/-- Behind the first entry, transient progress stands at a position. -/
def TransientAt (events : List (AgenticEvent ρ)) (i : ℕ) : Prop :=
  ∃ event, events[i]? = some event ∧ isTransientProgress event = true

/-- What compaction removes: what is over the limit, never the first entry; transient progress
before all others, and of either kind the oldest. -/
structure RemovesExcess (events : List (AgenticEvent ρ)) (removed : List ℕ) : Prop where
  nodup : removed.Nodup
  length : removed.length = events.length - MAX_PROJECTED_EVENTS_PER_SESSION
  inside : ∀ i ∈ removed, 0 < i ∧ i < events.length
  transient : ∀ i ∈ removed, ¬ TransientAt events i →
    ∀ k, 0 < k → TransientAt events k → k ∈ removed
  oldest : ∀ i ∈ removed, ∀ k < i, 0 < k → (TransientAt events k ↔ TransientAt events i) →
    k ∈ removed

/-- The positions of transient progress, as `compactProjection` collects them. -/
def transientPositions (events : List (AgenticEvent ρ)) : List ℕ :=
  events.zipIdx.filterMap fun (event, index) =>
    if index > 0 ∧ isTransientProgress event then some index else none

theorem mem_transientPositions {events : List (AgenticEvent ρ)} {i : ℕ} :
    i ∈ transientPositions events ↔ 0 < i ∧ TransientAt events i := by
  rw [transientPositions, mem_filterMap]
  refine ⟨?_, ?_⟩
  · rintro ⟨⟨event, index⟩, hmem, hsome⟩
    dsimp only at hsome
    split at hsome
    · rename_i h
      cases hsome
      exact ⟨h.1, event, mk_mem_zipIdx_iff_getElem?.1 hmem, h.2⟩
    · cases hsome
  · rintro ⟨hpos, event, hevent, htransient⟩
    exact ⟨(event, i), mk_mem_zipIdx_iff_getElem?.2 hevent, if_pos ⟨hpos, htransient⟩⟩

theorem TransientAt.lt {events : List (AgenticEvent ρ)} {i : ℕ} (h : TransientAt events i) :
    i < events.length := by
  obtain ⟨event, hevent, -⟩ := h
  exact (List.getElem?_eq_some_iff.1 hevent).1

theorem pairwise_transientPositions (events : List (AgenticEvent ρ)) :
    (transientPositions events).Pairwise (· < ·) := by
  have hzip : events.zipIdx.Pairwise fun x y => x.2 < y.2 := by
    have hrange : (events.zipIdx.map (·.2)).Pairwise (· < ·) := by
      rw [zipIdx_map_snd]
      exact pairwise_lt_range'
    exact pairwise_map.1 hrange
  refine pairwise_filterMap.2 (hzip.imp ?_)
  rintro ⟨event, index⟩ ⟨event', index'⟩ hlt i hi i' hi'
  dsimp only at hi hi'
  split at hi
  · cases hi
    split at hi'
    · cases hi'
      exact hlt
    · cases hi'
  · cases hi

/-- Of a list that goes up the first elements are the least. -/
theorem mem_take_of_lt {l : List ℕ} (h : l.Pairwise (· < ·)) {n i k : ℕ} (hi : i ∈ l.take n)
    (hk : k ∈ l) (hlt : k < i) : k ∈ l.take n := by
  rw [← take_append_drop n l] at hk h
  rcases mem_append.1 hk with htake | hdrop
  · exact htake
  · have := (pairwise_append.1 h).2.2 i hi k hdrop
    omega

/-- The positions that `compactProjection` removes. -/
def removable (events : List (AgenticEvent ρ)) : List ℕ :=
  let excess := events.length - MAX_PROJECTED_EVENTS_PER_SESSION
  let transient := (transientPositions events).take excess
  if transient.length < excess then
    transient ++ ((List.range' 1 (events.length - 1)).filter (· ∉ transient)).take
      (excess - transient.length)
  else transient

theorem removesExcess_removable (events : List (AgenticEvent ρ)) :
    RemovesExcess events (removable events) := by
  have hpairwise := pairwise_transientPositions events
  have hmem := fun i => @mem_transientPositions ρ events i
  rw [removable]
  generalize hexcess : events.length - MAX_PROJECTED_EVENTS_PER_SESSION = excess
  have htake : ∀ i ∈ (transientPositions events).take excess, 0 < i ∧ TransientAt events i :=
    fun i hi => (hmem i).1 (mem_of_mem_take hi)
  have hnodup : ((transientPositions events).take excess).Nodup :=
    (hpairwise.imp Nat.ne_of_lt).sublist (take_sublist _ _)
  split
  · rename_i hfew
    rw [length_take] at hfew
    have hall : (transientPositions events).take excess = transientPositions events :=
      take_of_length_le (by omega)
    rw [hall] at htake hnodup ⊢
    have hrest : ((List.range' 1 (events.length - 1)).filter
        (· ∉ transientPositions events)).Pairwise (· < ·) :=
      List.Pairwise.sublist filter_sublist pairwise_lt_range'
    have hother : ∀ i, i ∈ (List.range' 1 (events.length - 1)).filter
        (· ∉ transientPositions events) ↔
        (0 < i ∧ i < events.length) ∧ ¬ TransientAt events i := by
      intro i
      rw [mem_filter, mem_range'_1, decide_eq_true_iff, hmem]
      refine ⟨fun h => ⟨by omega, fun htransient => h.2 ⟨by omega, htransient⟩⟩, fun h => ?_⟩
      exact ⟨by omega, fun htransient => h.2 htransient.2⟩
    -- the transient positions are positions behind the first entry, so enough others are left
    have hcount : (transientPositions events).length + ((List.range' 1 (events.length - 1)).filter
        (· ∉ transientPositions events)).length = events.length - 1 := by
      have hperm : (transientPositions events ++ (List.range' 1 (events.length - 1)).filter
          (· ∉ transientPositions events)).Perm (List.range' 1 (events.length - 1)) := by
        rw [perm_ext_iff_of_nodup]
        · intro i
          rw [mem_append, hother, hmem, mem_range'_1]
          refine ⟨?_, fun h => ?_⟩
          · rintro (⟨hpos, htransient⟩ | ⟨hinside, -⟩)
            · have := htransient.lt
              omega
            · omega
          · by_cases htransient : TransientAt events i
            · exact .inl ⟨by omega, htransient⟩
            · exact .inr ⟨by omega, htransient⟩
        · refine nodup_append.2 ⟨hnodup, hrest.imp Nat.ne_of_lt, ?_⟩
          rintro i hi k hk rfl
          exact ((hother i).1 hk).2 (htake i hi).2
        · exact nodup_range'
      have hlength := hperm.length_eq
      rwa [length_append, length_range'] at hlength
    have hmax : 0 < MAX_PROJECTED_EVENTS_PER_SESSION := by decide
    refine ⟨?_, ?_, ?_, ?_, ?_⟩
    · refine nodup_append.2 ⟨hnodup,
        (hrest.imp Nat.ne_of_lt).sublist (take_sublist _ _), ?_⟩
      rintro i hi k hk rfl
      exact ((hother i).1 (mem_of_mem_take hk)).2 (htake i hi).2
    · rw [length_append, length_take]
      omega
    · intro i hi
      rcases mem_append.1 hi with hi | hi
      · exact ⟨(htake i hi).1, (htake i hi).2.lt⟩
      · exact ((hother i).1 (mem_of_mem_take hi)).1
    · intro i hi hnot k hpos hk
      exact mem_append_left _ ((hmem k).2 ⟨hpos, hk⟩)
    · intro i hi k hlt hpos hsame
      by_cases htransient : TransientAt events k
      · exact mem_append_left _ ((hmem k).2 ⟨hpos, htransient⟩)
      · rcases mem_append.1 hi with hi | hi
        · exact absurd (hsame.2 (htake i hi).2) htransient
        · apply mem_append_right
          have hinside := ((hother i).1 (mem_of_mem_take hi)).1
          exact mem_take_of_lt hrest hi ((hother k).2 ⟨by omega, htransient⟩) hlt
  · rename_i hmany
    rw [length_take] at hmany
    refine ⟨hnodup, ?_, fun i hi => ⟨(htake i hi).1, (htake i hi).2.lt⟩, ?_, ?_⟩
    · rw [length_take]
      omega
    · exact fun i hi hnot => absurd (htake i hi).2 hnot
    · intro i hi k hlt hpos hsame
      exact mem_take_of_lt hpairwise hi ((hmem k).2 ⟨hpos, hsame.2 (htake i hi).2⟩) hlt

/-- The positions are removed from the back. -/
theorem foldl_eraseIdx_removable (events : List (AgenticEvent ρ)) :
    ((removable events).mergeSort (· ≥ ·)).foldl List.eraseIdx events =
      keepOthers (removable events) events := by
  have hremoves := removesExcess_removable events
  generalize removable events = removed at hremoves ⊢
  have hperm := mergeSort_perm removed fun a b : ℕ => decide (a ≥ b)
  have hsorted : (removed.mergeSort (· ≥ ·)).Pairwise (· > ·) := by
    have hge := @List.pairwise_mergeSort ℕ (fun a b => decide (a ≥ b))
      (fun a b c hab hbc => by simp only [decide_eq_true_iff] at *; omega)
      (fun a b => by simp only [Bool.or_eq_true, decide_eq_true_iff]; omega) removed
    refine (hge.and (hperm.nodup_iff.2 hremoves.nodup)).imp fun h => ?_
    have hle := decide_eq_true_iff.1 h.1
    omega
  rw [foldl_eraseIdx _ events hsorted fun i hi => (hremoves.inside i (hperm.mem_iff.1 hi)).2,
    keepOthers, keepOthers]
  congr 1
  refine filter_congr fun x _ => ?_
  rw [decide_eq_decide, hperm.mem_iff]

/-- Compaction removes what is over the limit, and the rest keeps its order. -/
theorem compactProjection_eq (events : List (AgenticEvent ρ)) :
    compactProjection events = keepOthers (removable events) events := by
  have hcompact : compactProjection events =
      if events.length ≤ MAX_PROJECTED_EVENTS_PER_SESSION then events
      else ((removable events).mergeSort (· ≥ ·)).foldl List.eraseIdx events := rfl
  rw [hcompact]
  split
  · rename_i hle
    have hnone : removable events = [] := by
      apply eq_nil_of_length_eq_zero
      rw [(removesExcess_removable events).length]
      omega
    rw [hnone]
    simp [keepOthers]
  · exact foldl_eraseIdx_removable events

/-! ## The bound -/

/-- The projected events of a session. -/
def SessionEventJournal.eventsAt (j : SessionEventJournal ρ) (sessionId : String) :
    List (AgenticEvent ρ) :=
  ((j.projection sessionId).map (·.events)).getD []

/-- No session has more projected events than the limit. -/
def Bounded (j : SessionEventJournal ρ) : Prop :=
  ∀ sessionId, (j.eventsAt sessionId).length ≤ MAX_PROJECTED_EVENTS_PER_SESSION

/-- The start of a Turn that is active already, and whose list is full without its start. -/
def StartsOverFull (j : SessionEventJournal ρ) (event : AgenticEvent ρ) : Prop :=
  ∃ sessionId turnId rest p, event = .dialogTurnStarted sessionId turnId rest ∧
    j.projection sessionId = some p ∧ p.activeTurnId = some turnId ∧
    p.events.any (isStartOf turnId) = false ∧
    MAX_PROJECTED_EVENTS_PER_SESSION ≤ p.events.length

theorem length_replaceUnique (events : List (AgenticEvent ρ)) (event : AgenticEvent ρ)
    (isMatch : AgenticEvent ρ → Bool) :
    (replaceUnique events event isMatch).length =
      if events.any isMatch then events.length else events.length + 1 := by
  rw [replaceUnique]
  cases hfind : events.findIdx? isMatch with
  | none =>
    have hnone : events.any isMatch = false := by
      rw [any_eq_false]
      intro x hx
      rw [findIdx?_eq_none_iff.1 hfind x hx]
      exact Bool.false_ne_true
    rw [hnone, if_neg Bool.false_ne_true, length_append, length_singleton]
  | some index =>
    have hsome : events.any isMatch = true := by
      obtain ⟨hlt, hmatch, -⟩ := findIdx?_eq_some_iff_getElem.1 hfind
      exact any_eq_true.2 ⟨_, getElem_mem hlt, hmatch⟩
    rw [hsome, if_pos rfl, length_set]

theorem length_compactProjection_le (events : List (AgenticEvent ρ)) :
    (compactProjection events).length ≤ MAX_PROJECTED_EVENTS_PER_SESSION := by
  have hremoves := removesExcess_removable events
  have hcount : (events.zipIdx.filter (·.2 ∈ removable events)).length =
      (removable events).length := by
    have hperm : ((events.zipIdx.filter (·.2 ∈ removable events)).map (·.2)).Perm
        (removable events) := by
      have hnodup : (events.zipIdx.map (·.2)).Nodup := by
        rw [zipIdx_map_snd]
        exact nodup_range'
      refine (perm_ext_iff_of_nodup (hnodup.sublist (filter_sublist.map _))
        hremoves.nodup).2 fun i => ?_
      rw [mem_map]
      refine ⟨?_, fun hi => ?_⟩
      · rintro ⟨x, hx, rfl⟩
        exact decide_eq_true_iff.1 (mem_filter.1 hx).2
      · have hlt := (hremoves.inside i hi).2
        refine ⟨(events[i], i), mem_filter.2 ⟨?_, decide_eq_true hi⟩, rfl⟩
        exact mk_mem_zipIdx_iff_getElem?.2 (getElem?_eq_getElem hlt)
    rw [← hperm.length_eq, length_map]
  have hsplit := @List.length_eq_length_filter_add _ events.zipIdx
    fun x => decide (x.2 ∈ removable events)
  have hkept : (events.zipIdx.filter fun x => !decide (x.2 ∈ removable events)).length =
      (keepOthers (removable events) events).length := by
    rw [keepOthers, length_map]
    refine congrArg List.length (filter_congr fun x _ => ?_)
    rw [decide_not]
  rw [length_zipIdx, hcount, hkept, hremoves.length] at hsplit
  rw [compactProjection_eq]
  omega

theorem Pruned.length_le {before after : Option (SessionProjection ρ)} (h : Pruned before after) :
    ((after.map (·.events)).getD []).length ≤ ((before.map (·.events)).getD []).length := by
  rcases h with rfl | ⟨p, -, -, -, rfl⟩
  · exact Nat.le_refl _
  · exact Nat.zero_le _

/-- Pruning leaves the events of a Turn that has not ended. -/
theorem Pruned.events_of_not_terminal {p : SessionProjection ρ}
    {after : Option (SessionProjection ρ)} (h : Pruned (some p) after)
    (hterminal : p.terminal = false) : after = some p := by
  rcases h.of_some with rfl | ⟨htrue, -⟩
  · rfl
  · exact absurd htrue (by rw [hterminal]; exact Bool.false_ne_true)

/-- The events of a Turn after one more event of it, while its list is within the limit. -/
theorem length_nextEvents_le {events : List (AgenticEvent ρ)}
    (h : events.length ≤ MAX_PROJECTED_EVENTS_PER_SESSION) {turnId : String}
    {event : AgenticEvent ρ} (hroom : startsTurn event = true →
      events.any (isStartOf turnId) = false → events.length < MAX_PROJECTED_EVENTS_PER_SESSION) :
    (nextEvents events turnId event).length ≤ MAX_PROJECTED_EVENTS_PER_SESSION := by
  rw [nextEvents]
  split
  · rename_i hstart
    rw [length_replaceUnique]
    split
    · exact h
    · rename_i hnew
      exact hroom hstart (Bool.eq_false_iff.2 hnew)
  · exact length_compactProjection_le _

/-- A materialized event keeps the bound, unless it starts a Turn over a full list. -/
theorem bounded_materialized_iff {j : SessionEventJournal ρ} (h : Bounded j)
    {event : AgenticEvent ρ} {id turnId : String} (hid : event.sessionId = some id)
    (hmat : materializes event = true) (hturn : eventTurnId event = some turnId) :
    Bounded (j.record event).2 ↔ ¬ StartsOverFull j event := by
  generalize hp : ((j.projection id).getD {}).after turnId event
    (saturatingSucc j.state.sequence) = p
  have hevents : p.events =
      nextEvents (((j.projection id).getD {}).eventsOfTurn turnId) turnId event := by
    rw [← hp]
    rfl
  have hpruned : ∀ sessionId, Pruned (if sessionId = id then some p else j.projection sessionId)
      ((j.record event).2.projection sessionId) := by
    intro sessionId
    have hprune := pruned_prune (j.state.sessions.insert id p) sessionId
    rw [AssocMap.lookup_insert] at hprune
    rw [record_of_materializes hid hmat hturn hp]
    exact hprune
  refine ⟨?_, fun hnot sessionId => ?_⟩
  · -- the Turn has started again and is not pruned, so one entry too many is seen
    rintro hbounded ⟨sessionId, turnId', rest, q, rfl, hq, hactive, hnew, hfull⟩
    cases hid
    cases hturn
    have hterminal : p.terminal = false := by
      rw [← hp]
      rfl
    have hat := hpruned id
    rw [if_pos rfl] at hat
    have hlength := hbounded id
    rw [SessionEventJournal.eventsAt, hat.events_of_not_terminal hterminal, Option.map_some,
      Option.getD_some, hevents, hq, Option.getD_some, SessionProjection.eventsOfTurn,
      if_pos hactive, nextEvents, startsTurn, if_pos rfl, length_replaceUnique, hnew,
      if_neg Bool.false_ne_true] at hlength
    omega
  · refine (hpruned sessionId).length_le.trans ?_
    split
    · rw [Option.map_some, Option.getD_some, hevents]
      have hbefore := h id
      rw [SessionEventJournal.eventsAt] at hbefore
      rw [SessionProjection.eventsOfTurn]
      cases hq : j.projection id with
      | none => exact length_nextEvents_le (Nat.zero_le _) fun _ _ => Nat.succ_pos _
      | some q =>
        rw [hq, Option.map_some, Option.getD_some] at hbefore
        rw [Option.getD_some]
        split
        · rename_i hactive
          refine length_nextEvents_le hbefore fun hstart hnew => Nat.lt_of_not_le fun hfull => ?_
          cases event with
          | dialogTurnStarted sessionId' turnId' rest =>
            cases hid
            cases hturn
            exact hnot ⟨id, turnId, rest, q, rfl, hq, hactive, hnew, hfull⟩
          | _ => cases hstart
        · exact length_nextEvents_le (Nat.zero_le _) fun _ _ => Nat.succ_pos _
    · exact h sessionId

/-- One more event keeps the bound, unless it starts a Turn over a full list. -/
theorem bounded_record_iff {j : SessionEventJournal ρ} (h : Bounded j) (event : AgenticEvent ρ) :
    Bounded (j.record event).2 ↔ ¬ StartsOverFull j event := by
  by_cases hdel : isSessionDeleted event = true
  · have hnot : ¬ StartsOverFull j event := by
      rintro ⟨sessionId, turnId, rest, p, rfl, -⟩
      cases hdel
    obtain ⟨id, hid⟩ : ∃ id, event.sessionId = some id := by
      cases event <;> first | exact ⟨_, rfl⟩ | cases hdel
    refine iff_of_true (fun sessionId => ?_) hnot
    rw [SessionEventJournal.eventsAt, (record_of_deleted hid hdel j).2.2]
    split
    · cases j.projection id with
      | none => exact Nat.zero_le _
      | some p => exact Nat.zero_le _
    · exact h sessionId
  have hdel : isSessionDeleted event = false := Bool.eq_false_iff.2 hdel
  by_cases hmat : materializes event = true
  · obtain ⟨turnId, hturn⟩ : ∃ turnId, eventTurnId event = some turnId := by
      rw [materializes, Bool.and_eq_true] at hmat
      exact Option.isSome_iff_exists.1 hmat.1
    obtain ⟨id, hid⟩ : ∃ id, event.sessionId = some id := by
      cases event <;> first | exact ⟨_, rfl⟩ | cases hturn
    exact bounded_materialized_iff h hid hmat hturn
  · have hmat : materializes event = false := Bool.eq_false_iff.2 hmat
    have hnot : ¬ StartsOverFull j event := by
      rintro ⟨sessionId, turnId, rest, p, rfl, -⟩
      cases hmat
    rw [record_of_not_materializes hdel hmat]
    exact iff_of_true h hnot

theorem records_step (j : SessionEventJournal ρ) (event : AgenticEvent ρ) :
    j.record (event, (j.record event).1).1 =
      ((event, (j.record event).1).2, (j.record event).2) := rfl

/-- A step of `record` that does not start a Turn over a full list. -/
def RecordStep (j : SessionEventJournal ρ) (label : AgenticEvent ρ × Option SessionEventCursor)
    (j' : SessionEventJournal ρ) : Prop :=
  ¬ StartsOverFull j label.1 ∧ j.record label.1 = (label.2, j')

/-- In a run that starts no Turn over a full list every projection stays within the limit, and a
run leaves the limit with the first event that does. Compaction removes just the excess: transient
progress first, the oldest first, and never the first entry; the rest keeps its order. -/
theorem projection_bounded :
    (∀ (store : Option (ProjectionStore ρ)) streamId tr j',
      Run RecordStep { withStreamId streamId with store } tr j' →
        Bounded j' ∧ ∀ event, Bounded (j'.record event).2 ↔ ¬ StartsOverFull j' event) ∧
    ∀ events : List (AgenticEvent ρ), ∃ removed, RemovesExcess events removed ∧
      compactProjection events = keepOthers removed events := by
  refine ⟨fun store streamId tr j' h => ?_, fun events =>
    ⟨removable events, removesExcess_removable events, compactProjection_eq events⟩⟩
  have hbounded : Bounded j' := by
    refine h.invariant (fun sessionId => Nat.zero_le _) ?_
    rintro j ⟨event, cursor⟩ j' hj ⟨hnot, hrecord⟩
    have hnext := (bounded_record_iff hj event).2 hnot
    rwa [hrecord] at hnext
  exact ⟨hbounded, bounded_record_iff hbounded⟩

/-- An event that is added to the list whatever the list is. -/
def steering : AgenticEvent Unit := .userSteeringInjected "s" "t" ()

/-- One more of these events, while there is room. -/
theorem record_steering {j : SessionEventJournal Unit} {n : ℕ}
    (hn : n < MAX_PROJECTED_EVENTS_PER_SESSION)
    (hevents : ((j.projection "s").getD {}).eventsOfTurn "t" = List.replicate n steering)
    (hterminal : ((j.projection "s").getD {}).terminal = false) :
    ∃ p, (j.record steering).2.projection "s" = some p ∧ p.activeTurnId = some "t" ∧
      p.terminal = false ∧ p.events = List.replicate (n + 1) steering := by
  generalize hp : ((j.projection "s").getD {}).after "t" steering
    (saturatingSucc j.state.sequence) = p
  have hflag : p.terminal = false := by
    rw [← hp]
    change ((j.projection "s").getD {}).nextTerminal "t" steering = false
    rw [SessionProjection.nextTerminal, hterminal, Bool.and_false]
    rfl
  have hlist : p.events = List.replicate (n + 1) steering := by
    rw [← hp]
    change nextEvents (((j.projection "s").getD {}).eventsOfTurn "t") "t" steering = _
    have hproject : project (List.replicate n steering) steering =
        List.replicate n steering ++ [steering] := rfl
    rw [hevents, nextEvents, hproject, ← replicate_succ',
      if_neg (by simp [steering, startsTurn]), compactProjection, if_pos]
    rw [length_replicate]
    exact hn
  have hprune := pruned_prune (j.state.sessions.insert "s" p) "s"
  rw [AssocMap.lookup_insert, if_pos rfl] at hprune
  refine ⟨p, ?_, by rw [← hp]; rfl, hflag, hlist⟩
  rw [@record_of_materializes Unit j p steering "t" "s" rfl rfl rfl hp]
  exact hprune.events_of_not_terminal hflag

/-- So many events in a journal that is fresh. -/
theorem exists_full (n : ℕ) (hn : n < MAX_PROJECTED_EVENTS_PER_SESSION) :
    ∃ tr j', Records (withStreamId "stream") tr j' ∧ Bounded j' ∧
      ∃ p, j'.projection "s" = some p ∧ p.activeTurnId = some "t" ∧ p.terminal = false ∧
        p.events = List.replicate (n + 1) steering := by
  have hnot : ∀ j : SessionEventJournal Unit, ¬ StartsOverFull j steering := by
    rintro j ⟨sessionId, turnId, rest, p, heq, -⟩
    cases heq
  induction n with
  | zero =>
    have hempty : Bounded (withStreamId "stream" : SessionEventJournal Unit) :=
      fun sessionId => Nat.zero_le _
    exact ⟨_, _, Run.single (records_step _ steering),
      (bounded_record_iff hempty steering).2 (hnot _), record_steering hn rfl rfl⟩
  | succ n ih =>
    obtain ⟨tr, j, hrun, hbounded, p, hp, hactive, hterminal, hevents⟩ :=
      ih (Nat.lt_of_succ_lt hn)
    refine ⟨_, _, hrun.step (records_step j steering),
      (bounded_record_iff hbounded steering).2 (hnot j), record_steering hn ?_ ?_⟩
    · rw [hp, Option.getD_some, SessionProjection.eventsOfTurn, if_pos hactive, hevents]
    · rw [hp, Option.getD_some, hterminal]

/-- The start of a Turn of which the list is full already is one entry too many. -/
theorem start_exceeds_limit :
    ∃ tr j', Records (withStreamId "stream" : SessionEventJournal Unit) tr j' ∧ ¬ Bounded j' := by
  obtain ⟨tr, j, hrun, hbounded, p, hp, hactive, -, hevents⟩ :=
    exists_full (MAX_PROJECTED_EVENTS_PER_SESSION - 1) (by decide)
  have hover : StartsOverFull j (.dialogTurnStarted "s" "t" ()) := by
    refine ⟨"s", "t", (), p, rfl, hp, hactive, ?_, ?_⟩
    · rw [hevents, any_replicate]
      split
      · rfl
      · rfl
    · rw [hevents, length_replicate]
      omega
  refine ⟨_, _, hrun.step (records_step j (.dialogTurnStarted "s" "t" ())), fun h => ?_⟩
  exact (bounded_record_iff hbounded _).1 h hover

end SessionJournal

end OpenBitFun
