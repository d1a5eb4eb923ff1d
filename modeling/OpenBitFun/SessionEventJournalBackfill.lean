import OpenBitFun.SessionEventJournalRestart

/-!
# What a client missed

The tail of a projection is a suffix of the events that got a cursor, each with its cursor: it is
trimmed at the front, cleared by deletion and pruning, and never rewritten, while the cursor goes
on. So `eventsSince` answers with exactly the events after the client's cursor, or asks for a
snapshot.
-/

namespace OpenBitFun

open List

namespace SessionJournal

variable {ρ : Type} {j : SessionEventJournal ρ} {p : SessionProjection ρ}
  {event : AgenticEvent ρ} {sessionId streamId : String}
  {label : AgenticEvent ρ × Option SessionEventCursor}
  {tr : List (AgenticEvent ρ × Option SessionEventCursor)} {events : List (JournaledEvent ρ)}

/-! ## The events that got a cursor -/

/-- What a record handed out for a session: the event with its cursor. -/
def handed (sessionId : String) (label : AgenticEvent ρ × Option SessionEventCursor) :
    Option (JournaledEvent ρ) :=
  if label.1.sessionId = some sessionId then label.2.map fun cursor => ⟨cursor.cursor, label.1⟩
  else none

/-- The events of a session that got a cursor, in their order. -/
def handedOut (sessionId : String) (tr : List (AgenticEvent ρ × Option SessionEventCursor)) :
    List (JournaledEvent ρ) :=
  tr.filterMap (handed sessionId)

theorem handedOut_concat_none (h : handed sessionId label = none) :
    handedOut sessionId (tr ++ [label]) = handedOut sessionId tr := by
  simp [handedOut, h]

theorem handedOut_concat_some {entry : JournaledEvent ρ} (h : handed sessionId label = some entry) :
    handedOut sessionId (tr ++ [label]) = handedOut sessionId tr ++ [entry] := by
  simp [handedOut, h]

/-! ## One record -/

/-- The cursor of a session. -/
def cursorOf (projection : Option (SessionProjection ρ)) : ℕ := (projection.map (·.cursor)).getD 0

/-- The tail of a session. -/
def tailOf (projection : Option (SessionProjection ρ)) : List (JournaledEvent ρ) :=
  (projection.map (·.tail)).getD []

theorem getD_cursor (projection : Option (SessionProjection ρ)) :
    (projection.getD {}).cursor = cursorOf projection := by
  cases projection <;> rfl

theorem getD_tail (projection : Option (SessionProjection ρ)) :
    (projection.getD {}).tail = tailOf projection := by
  cases projection <;> rfl

theorem Pruned.cursorOf_eq {before after : Option (SessionProjection ρ)} (h : Pruned before after) :
    cursorOf after = cursorOf before := by
  obtain rfl | ⟨p, rfl, -, -, rfl⟩ := h
  · rfl
  · rfl

theorem Pruned.tailOf_suffix {before after : Option (SessionProjection ρ)}
    (h : Pruned before after) : tailOf after <:+ tailOf before := by
  obtain rfl | ⟨p, rfl, -, -, rfl⟩ := h
  · exact suffix_rfl
  · exact nil_suffix

theorem SessionProjection.pushTail_tail_suffix (p : SessionProjection ρ) (cursor : ℕ)
    (event : AgenticEvent ρ) : (p.pushTail cursor event).tail <:+ p.tail ++ [⟨cursor, event⟩] := by
  simp only [SessionProjection.pushTail]
  apply drop_suffix

/-- What one record does to the cursor and the tail of a session: it hands out the next cursor and
appends to the tail, or it hands out none; either way the tail may lose events at its front. -/
inductive TailStep (streamId : String) (sessionId : String)
    (label : AgenticEvent ρ × Option SessionEventCursor)
    (before after : Option (SessionProjection ρ)) : Prop
  | silent (hhanded : handed sessionId label = none)
      (hcursor : cursorOf after = cursorOf before) (htail : tailOf after <:+ tailOf before)
  | next (hevent : label.1.sessionId = some sessionId)
      (hlabel : label.2 = some ⟨streamId, saturatingSucc (cursorOf before)⟩)
      (hcursor : cursorOf after = saturatingSucc (cursorOf before))
      (htail : tailOf after <:+
        tailOf before ++ [⟨saturatingSucc (cursorOf before), label.1⟩])

/-- **One record** takes such a step in every session. -/
theorem record_tailStep (j : SessionEventJournal ρ) (event : AgenticEvent ρ) (sessionId : String) :
    (j.record event).2.state.streamId = j.state.streamId ∧
      (∀ cursor, (j.record event).1 = some cursor → cursor.streamId = j.state.streamId) ∧
      TailStep j.state.streamId sessionId (event, (j.record event).1) (j.projection sessionId)
        ((j.record event).2.projection sessionId) := by
  by_cases hdel : isSessionDeleted event = true
  · obtain ⟨id, hid⟩ : ∃ id, event.sessionId = some id := by
      cases event <;> first | exact ⟨_, rfl⟩ | cases hdel
    obtain ⟨hstream, -, hproj⟩ := record_of_deleted hid hdel j
    have hnone : (j.record event).1 = none := by
      simp only [SessionEventJournal.record, hid, hdel, if_true]
      split <;> rfl
    refine ⟨hstream, by simp [hnone], .silent (by simp [handed, hnone]) ?_ ?_⟩
    · rw [hproj]
      split
      · next h =>
        subst h
        cases j.projection sessionId <;> rfl
      · rfl
    · rw [hproj]
      split
      · next h =>
        subst h
        cases j.projection sessionId <;> exact nil_suffix
      · exact suffix_rfl
  have hdel : isSessionDeleted event = false := by simpa using hdel
  by_cases hmat : materializes event = true
  · obtain ⟨turnId, hturn⟩ : ∃ turnId, eventTurnId event = some turnId := by
      simp only [materializes, Bool.and_eq_true] at hmat
      exact Option.isSome_iff_exists.1 hmat.1
    obtain ⟨id, hid⟩ : ∃ id, event.sessionId = some id := by
      cases event <;> first | exact ⟨_, rfl⟩ | cases hturn
    generalize hp : ((j.projection id).getD {}).after turnId event
      (saturatingSucc j.state.sequence) = p
    have hcursor : p.cursor = saturatingSucc (cursorOf (j.projection id)) := by
      rw [← hp, ← getD_cursor]
      rfl
    have htail : p.tail <:+
        tailOf (j.projection id) ++ [⟨saturatingSucc (cursorOf (j.projection id)), event⟩] := by
      rw [← hp, ← getD_cursor, ← getD_tail, SessionProjection.after]
      exact SessionProjection.pushTail_tail_suffix _ _ _
    rw [record_of_materializes hid hmat hturn hp]
    refine ⟨rfl, ?_, ?_⟩
    · intro cursor hcursor
      obtain rfl := Option.some.inj hcursor
      rfl
    have hprune := pruned_prune (j.state.sessions.insert id p) sessionId
    rw [AssocMap.lookup_insert] at hprune
    by_cases hs : sessionId = id
    · subst hs
      rw [if_pos rfl] at hprune
      refine .next hid (by rw [hcursor]) ?_ ?_
      · rw [← hcursor]
        exact hprune.cursorOf_eq
      · exact hprune.tailOf_suffix.trans htail
    · rw [if_neg hs] at hprune
      exact .silent (by simp [handed, hid, Ne.symm hs]) hprune.cursorOf_eq hprune.tailOf_suffix
  · have hmat : materializes event = false := by simpa using hmat
    rw [record_of_not_materializes hdel hmat]
    exact ⟨rfl, by simp, .silent (by simp [handed]) rfl suffix_rfl⟩

/-! ## Runs -/

/-- What a session's projection knows of the events that got a cursor: how many there are, and a
suffix of them. -/
structure Backfills (events : List (JournaledEvent ρ)) (projection : Option (SessionProjection ρ)) :
    Prop where
  /-- The cursors are consecutive. -/
  cursors : events.map (·.cursor) = List.range' 1 events.length
  /-- The cursor of the session is the last. -/
  cursor : cursorOf projection = events.length
  /-- The tail is a suffix. -/
  tail : tailOf projection <:+ events

theorem Backfills.empty : Backfills ([] : List (JournaledEvent ρ)) none :=
  ⟨rfl, rfl, nil_suffix⟩

/-- Below the largest cursor the next one is new. -/
theorem saturatingSucc_of_lt {n : ℕ} (h : n + 1 < 2 ^ 64) : saturatingSucc n = n + 1 :=
  Nat.min_eq_left (by omega)

theorem Backfills.step {before after : Option (SessionProjection ρ)}
    (h : Backfills (handedOut sessionId tr) before)
    (hstep : TailStep streamId sessionId label before after)
    (hlen : (handedOut sessionId (tr ++ [label])).length < 2 ^ 64) :
    Backfills (handedOut sessionId (tr ++ [label])) after := by
  cases hstep with
  | silent hhanded hcursor htail =>
    rw [handedOut_concat_none hhanded]
    exact ⟨h.cursors, hcursor.trans h.cursor, htail.trans h.tail⟩
  | next hevent hlabel hcursor htail =>
    have hhanded : handed sessionId label =
        some ⟨saturatingSucc (cursorOf before), label.1⟩ := by
      simp [handed, hevent, hlabel]
    rw [handedOut_concat_some hhanded] at hlen ⊢
    rw [length_append, length_singleton] at hlen
    rw [h.cursor, saturatingSucc_of_lt hlen] at hcursor htail ⊢
    refine ⟨?_, by simpa using hcursor, htail.trans ?_⟩
    · rw [map_append, h.cursors, length_append, length_singleton,
        range'_1_concat, map_singleton, Nat.add_comm]
    · obtain ⟨front, hfront⟩ := h.tail
      exact ⟨front, by rw [← append_assoc, hfront]⟩

/-- The tail answers with exactly the events after a cursor. -/
theorem Backfills.tailSince (h : Backfills events (some p)) (hlen : events.length < 2 ^ 64)
    {cursor : ℕ} {missed : List (AgenticEvent ρ)} (hmissed : p.tailSince cursor = some missed) :
    cursor ≤ events.length ∧
      missed = (events.filter (cursor < ·.cursor)).map (·.event) := by
  have hcursor : p.cursor = events.length := h.cursor
  obtain ⟨front, hfront⟩ : p.tail <:+ events := h.tail
  have hcursors := h.cursors
  rw [SessionProjection.tailSince, hcursor] at hmissed
  split at hmissed
  · cases hmissed
  next hle =>
  refine ⟨Nat.le_of_not_lt hle, ?_⟩
  split at hmissed
  · next heq =>
    cases hmissed
    subst heq
    -- no event has a cursor above the last
    rw [filter_eq_nil_iff.2, map_nil]
    intro entry hentry
    have hmem : entry.cursor ∈ List.range' 1 events.length :=
      hcursors ▸ mem_map_of_mem hentry
    obtain ⟨-, hlt⟩ := mem_range'_1.1 hmem
    simpa using Nat.lt_add_one_iff.1 (by omega : entry.cursor < events.length + 1)
  next hne =>
  split at hmissed
  · next oldest holdest =>
    split at hmissed
    · next hcontiguous =>
      cases hmissed
      -- the events before the tail have cursors up to the client's
      have hfront' : front.filter (cursor < ·.cursor) = [] := by
        refine filter_eq_nil_iff.2 fun entry hentry => ?_
        obtain ⟨rest, htail⟩ : ∃ rest, p.tail = oldest :: rest := head?_eq_some_iff.1 holdest
        rw [← hfront, htail, map_append, length_append, ← range'_append_1] at hcursors
        obtain ⟨hbefore, hafter⟩ := append_inj hcursors (by simp)
        have hmem : entry.cursor ∈ List.range' 1 front.length :=
          hbefore ▸ mem_map_of_mem hentry
        obtain ⟨-, hlt⟩ := mem_range'_1.1 hmem
        have hfirst : oldest.cursor = 1 + front.length := by
          rw [map_cons, length_cons, range'_succ] at hafter
          exact (cons_eq_cons.1 hafter).1
        rw [saturatingSucc_of_lt (by omega)] at hcontiguous
        simp only [decide_eq_true_eq]
        omega
      rw [← hfront, filter_append, hfront', nil_append]
    · cases hmissed
  · cases hmissed

/-- Every run hands out what the projections know. -/
theorem Records.backfills {store : Option (ProjectionStore ρ)} {j' : SessionEventJournal ρ}
    (h : Records { withStreamId streamId with store } tr j') (sessionId : String)
    (hlen : (handedOut sessionId tr).length < 2 ^ 64) :
    j'.state.streamId = streamId ∧
      (∀ label ∈ tr, ∀ cursor, label.2 = some cursor → cursor.streamId = streamId) ∧
      Backfills (handedOut sessionId tr) (j'.projection sessionId) := by
  revert hlen
  refine Run.history (P := fun tr (j' : SessionEventJournal ρ) =>
    (handedOut sessionId tr).length < 2 ^ 64 →
    j'.state.streamId = streamId ∧
      (∀ label ∈ tr, ∀ cursor, label.2 = some cursor → cursor.streamId = streamId) ∧
      Backfills (handedOut sessionId tr) (j'.projection sessionId)) h
    (fun _ => ⟨rfl, by simp, Backfills.empty⟩) ?_
  rintro tr j ⟨event, cursor⟩ j' ih hrecord hlen
  have hle : (handedOut sessionId tr).length ≤
      (handedOut sessionId (tr ++ [(event, cursor)])).length := by
    simp [handedOut]
  obtain ⟨hstream, hlabels, hback⟩ := ih (by omega)
  obtain ⟨hstream', hcursors, hstep⟩ := record_tailStep j event sessionId
  rw [hrecord] at hstream' hcursors hstep
  refine ⟨hstream'.trans hstream, ?_, hback.step hstep hlen⟩
  rw [forall_mem_append]
  exact ⟨hlabels, by simpa [← hstream] using hcursors⟩

/-- **The backfill has no gap and no duplicate.** For every run of a fresh journal and every
session: the cursors that `record` handed out for the session are 1, 2, … in their order and carry
the journal's stream. If `eventsSince` answers with events, they are those that got a cursor after
the client's, as they were recorded, and the cursor is the session's last; the client's stream is
the journal's. Otherwise it asks for a snapshot. -/
theorem Records.backfill {store : Option (ProjectionStore ρ)} {j' : SessionEventJournal ρ}
    (h : Records { withStreamId streamId with store } tr j') (sessionId : String)
    (hlen : (handedOut sessionId tr).length < 2 ^ 64) :
    (handedOut sessionId tr).map (·.cursor) = List.range' 1 (handedOut sessionId tr).length ∧
    (∀ label ∈ tr, ∀ cursor, label.2 = some cursor → cursor.streamId = streamId) ∧
    ∀ stream cursor, match j'.eventsSince sessionId stream cursor with
      | .delta stream' cursor' events => stream = streamId ∧ stream' = streamId ∧
        cursor' = (handedOut sessionId tr).length ∧ cursor ≤ cursor' ∧
        events = ((handedOut sessionId tr).filter (cursor < ·.cursor)).map (·.event)
      | .snapshotRequired => True := by
  obtain ⟨hstream, hlabels, hback⟩ := h.backfills sessionId hlen
  refine ⟨hback.cursors, hlabels, fun stream cursor => ?_⟩
  cases hanswer : j'.eventsSince sessionId stream cursor with
  | snapshotRequired => trivial
  | delta stream' cursor' events =>
    rw [SessionEventJournal.eventsSince] at hanswer
    split at hanswer
    · cases hanswer
    next hsame =>
    split at hanswer
    · cases hanswer
    next p hp =>
    split at hanswer
    · next missed hmissed =>
      cases hanswer
      have hproj : j'.projection sessionId = some p := hp
      rw [hproj] at hback
      obtain ⟨hle, hevents⟩ := hback.tailSince hlen hmissed
      have hcursor : p.cursor = (handedOut sessionId tr).length := hback.cursor
      refine ⟨?_, hstream, hcursor, hcursor ▸ hle, hevents⟩
      rw [← hstream]
      exact (not_not.1 hsame).symm
    · cases hanswer

/-- A client that missed the last two of three events gets them one by one, although the projection
has merged their text. -/
theorem backfill_merged_text :
    ∃ tr j, Records ({ withStreamId "runtime-a" with store := none } : SessionEventJournal Unit)
        tr j ∧
      (j.eventsSince "session" "runtime-a" 1 = .delta "runtime-a" 3
        [.textChunk "session" "turn-1" "round" none none "hel",
          .textChunk "session" "turn-1" "round" none none "lo"]) ∧
      (handedOut "session" tr).map (·.cursor) = [1, 2, 3] := by
  have hrun := records_recordAll
    ({ withStreamId "runtime-a" with store := none } : SessionEventJournal Unit)
    [.dialogTurnStarted "session" "turn-1" (),
      .textChunk "session" "turn-1" "round" none none "hel",
      .textChunk "session" "turn-1" "round" none none "lo"]
  have hcursors := (hrun.backfill "session" (by decide)).1
  exact ⟨_, _, hrun, rfl, hcursors⟩

end SessionJournal

end OpenBitFun
