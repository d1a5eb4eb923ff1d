import OpenBitFun.SessionEventJournal

/-!
# Restarting over the log of an executing Turn

A host that restarts has the log of a session and nothing in memory: `snapshot` replays the log
through the same `applyEvent` that built the lost projection. The events and the active Turn come
back. The cursor does not always: a live projection counts every event of the session, and the
replay counts the events that are still in the log, which loses the events of every Turn that
ended. `Records.restart` says that this is the only difference there is.
-/

namespace OpenBitFun

open List

namespace SessionJournal

variable {ρ : Type} {j j' : SessionEventJournal ρ} {p : SessionProjection ρ}
  {event : AgenticEvent ρ} {sessionId turnId streamId : String}

/-! ## Runs -/

/-- A run of `record`: every label is an event with the cursor it got. -/
def Records (j : SessionEventJournal ρ) (tr : List (AgenticEvent ρ × Option SessionEventCursor))
    (j' : SessionEventJournal ρ) : Prop :=
  Run (fun j label j' => j.record label.1 = (label.2, j')) j tr j'

/-- Record some events, one after the other. -/
def SessionEventJournal.recordAll (j : SessionEventJournal ρ) :
    List (AgenticEvent ρ) → List (AgenticEvent ρ × Option SessionEventCursor) ×
      SessionEventJournal ρ
  | [] => ([], j)
  | event :: events =>
    let (cursor, j) := j.record event
    let (tr, j) := j.recordAll events
    ((event, cursor) :: tr, j)

theorem records_recordAll (j : SessionEventJournal ρ) (events : List (AgenticEvent ρ)) :
    Records j (j.recordAll events).1 (j.recordAll events).2 := by
  induction events generalizing j with
  | nil => exact Run.refl
  | cons event events ih => exact Run.cons rfl (ih _)

/-- The events of one session, in their order. -/
def eventsOf (sessionId : String) (tr : List (AgenticEvent ρ × Option SessionEventCursor)) :
    List (AgenticEvent ρ) :=
  (tr.map (·.1)).filter (·.sessionId = some sessionId)

theorem eventsOf_concat (tr : List (AgenticEvent ρ × Option SessionEventCursor))
    (label : AgenticEvent ρ × Option SessionEventCursor) :
    eventsOf sessionId (tr ++ [label]) = eventsOf sessionId tr ++
      if label.1.sessionId = some sessionId then [label.1] else [] := by
  simp only [eventsOf, map_append, filter_append]
  congr 1
  by_cases h : label.1.sessionId = some sessionId
  · simp [h]
  · simp [h]

/-- `record` materializes events with a Turn, except raw stream chunks. -/
def materializes (event : AgenticEvent ρ) : Bool := (eventTurnId event).isSome && !isStreamChunk event

/-- `DialogTurnStarted`. -/
def startsTurn : AgenticEvent ρ → Bool
  | .dialogTurnStarted .. => true
  | _ => false

theorem materializes_of_endsTurn (h : endsTurn event = true) : materializes event = true := by
  cases event <;> first | rfl | simp [endsTurn] at h

/-! ## The current Turn -/

/-- What the events of a session say about its current Turn. -/
structure TurnStatus where
  /-- The Turn of the last event. -/
  turnId : Option String := none
  /-- It completed, failed or was cancelled, and did not start again. -/
  ended : Bool := false
  /-- The session was deleted while it was current. -/
  deleted : Bool := false

/-- One more event of the session. -/
def TurnStatus.next (status : TurnStatus) (event : AgenticEvent ρ) : TurnStatus :=
  if isSessionDeleted event then { status with deleted := true }
  else if materializes event then
    let status := if status.turnId = eventTurnId event then status
      else { turnId := eventTurnId event }
    { status with ended := !startsTurn event && (status.ended || endsTurn event) }
  else status

/-- The current Turn after some events of the session. -/
def turnStatus (events : List (AgenticEvent ρ)) : TurnStatus := events.foldl TurnStatus.next {}

@[simp] theorem turnStatus_concat (events : List (AgenticEvent ρ)) (event : AgenticEvent ρ) :
    turnStatus (events ++ [event]) = (turnStatus events).next event := by
  simp [turnStatus]

/-- A Turn executes: there is one, it has not ended, and its session was not deleted under it. -/
def TurnStatus.Executing (status : TurnStatus) : Prop :=
  status.turnId.isSome ∧ status.ended = false ∧ status.deleted = false

/-! ## What one event does to a projection -/

/-- The events a projection has of the Turn `turnId`. -/
def SessionProjection.eventsOfTurn (p : SessionProjection ρ) (turnId : String) :
    List (AgenticEvent ρ) :=
  if p.activeTurnId = some turnId then p.events else []

/-- The events of a Turn after one more event of it. -/
def nextEvents (events : List (AgenticEvent ρ)) (turnId : String) (event : AgenticEvent ρ) :
    List (AgenticEvent ρ) :=
  if startsTurn event then replaceUnique events event (isStartOf turnId)
  else compactProjection (project events event)

/-- The flag of a projection after one more event of a Turn. -/
def SessionProjection.nextTerminal (p : SessionProjection ρ) (turnId : String)
    (event : AgenticEvent ρ) : Bool :=
  !startsTurn event && ((p.activeTurnId = some turnId && p.terminal) || endsTurn event)

/-- `applyEvent` materializes every event that has a Turn; what it does to the events and the
active Turn depends on nothing else in the projection. -/
theorem applyEvent_eq (p : SessionProjection ρ) (h : eventTurnId event = some turnId) :
    applyEvent p event = (true, { p with
      activeTurnId := some turnId
      events := nextEvents (p.eventsOfTurn turnId) turnId event
      terminal := p.nextTerminal turnId event }) := by
  have hother : startsTurn event = false →
      applyEvent p event = (true, { p with
        activeTurnId := some turnId
        events := nextEvents (p.eventsOfTurn turnId) turnId event
        terminal := p.nextTerminal turnId event }) := by
    intro hstart
    have happly : applyEvent p event =
        let p := if p.activeTurnId = some turnId then p
          else { p with events := [], activeTurnId := some turnId, terminal := false }
        let p := { p with events := compactProjection (project p.events event) }
        (true, if endsTurn event then { p with terminal := true } else p) := by
      cases event with
      | dialogTurnStarted => simp [startsTurn] at hstart
      | _ => simp only [applyEvent, h]
    rw [happly]
    by_cases hp : p.activeTurnId = some turnId <;> by_cases hend : endsTurn event = true <;>
      simp [hp, hend, nextEvents, hstart, SessionProjection.eventsOfTurn,
        SessionProjection.nextTerminal]
  cases event with
  | dialogTurnStarted s t rest =>
    obtain rfl : t = turnId := by simpa [eventTurnId] using h
    by_cases hp : p.activeTurnId = some t <;>
      simp [applyEvent, hp, nextEvents, startsTurn, SessionProjection.eventsOfTurn,
        SessionProjection.nextTerminal]
  | _ => exact hother rfl

/-! ## Pruning -/

/-- What pruning may do to one session: nothing, or release the content of an ended Turn. -/
def Pruned (before after : Option (SessionProjection ρ)) : Prop :=
  after = before ∨ ∃ p, before = some p ∧ p.terminal = true ∧ p.events ≠ [] ∧
    after = some p.clearReplayContent

theorem Pruned.of_none {after : Option (SessionProjection ρ)} (h : Pruned none after) :
    after = none := by
  obtain h | ⟨p, hp, -⟩ := h
  · exact h
  · cases hp

theorem Pruned.of_some {after : Option (SessionProjection ρ)} (h : Pruned (some p) after) :
    after = some p ∨ p.terminal = true ∧ p.events ≠ [] ∧ after = some p.clearReplayContent := by
  obtain h | ⟨q, hq, hterm, hev, h⟩ := h
  · exact .inl h
  · cases hq
    exact .inr ⟨hterm, hev, h⟩

/-- The collected sessions are ended Turns with events. -/
theorem exists_of_mem_retained {sessions : AssocMap String (SessionProjection ρ)} {touched : ℕ}
    (h : (sessionId, touched) ∈ retained sessions) :
    ∃ p, sessions.lookup sessionId = some p ∧ p.terminal = true ∧ p.events ≠ [] := by
  obtain ⟨⟨s, p⟩, hmem, hp⟩ := mem_filterMap.1 h
  obtain ⟨⟨hterm, hev⟩, rfl, -⟩ :
      (p.terminal = true ∧ ¬ p.events = []) ∧ s = sessionId ∧ p.lastTouched = touched := by
    simpa using hp
  exact ⟨p, AList.mem_lookup_iff.2 hmem, hterm, hev⟩

/-- Releasing the content of ended Turns is pruning. -/
theorem pruned_foldl_releaseContent (sessions : AssocMap String (SessionProjection ρ))
    (ids : List String) (hids : ∀ id ∈ ids, ∃ p, sessions.lookup id = some p ∧
      p.terminal = true ∧ p.events ≠ []) (sessionId : String) :
    Pruned (sessions.lookup sessionId) ((ids.foldl releaseContent sessions).lookup sessionId) := by
  induction ids using List.reverseRecOn with
  | nil => exact .inl rfl
  | append_singleton ids id ih =>
    have ih := ih fun id' hid' => hids id' (by simp [hid'])
    obtain ⟨p, hp, hterm, hev⟩ := hids id (by simp)
    rw [foldl_concat, releaseContent]
    cases hlook : (ids.foldl releaseContent sessions).lookup id with
    | none => exact ih
    | some q =>
      simp only [AssocMap.lookup_insert]
      split
      · next heq =>
        subst heq
        rw [hlook, hp] at ih
        refine .inr ⟨p, hp, hterm, hev, ?_⟩
        obtain h | ⟨-, -, h⟩ := ih.of_some
        · cases h
          rfl
        · cases h
          rfl
      · exact ih

/-- `pruneTerminalProjections` only prunes. -/
theorem pruned_prune (sessions : AssocMap String (SessionProjection ρ)) (sessionId : String) :
    Pruned (sessions.lookup sessionId)
      ((pruneTerminalProjections sessions).lookup sessionId) := by
  rw [pruneTerminalProjections]
  split
  · exact .inl rfl
  · refine pruned_foldl_releaseContent _ _ (fun id hid => ?_) _
    obtain ⟨⟨id', touched⟩, hmem, rfl⟩ := mem_map.1 hid
    exact exists_of_mem_retained (by simpa using mem_of_mem_drop hmem)

/-! ## What one `record` does to a session -/

/-- The projection of a session in memory. -/
def SessionEventJournal.projection (j : SessionEventJournal ρ) (sessionId : String) :
    Option (SessionProjection ρ) :=
  j.state.sessions.lookup sessionId

/-- The log of a session in the store. -/
def SessionEventJournal.log (j : SessionEventJournal ρ) (sessionId : String) :
    List (LoggedEvent ρ) :=
  (j.store.bind (·.lookup sessionId)).getD []

/-- The projection of a session after a materialized event of the Turn `turnId`. -/
def SessionProjection.after (p : SessionProjection ρ) (turnId : String) (event : AgenticEvent ρ)
    (sequence : ℕ) : SessionProjection ρ :=
  { p with
    activeTurnId := some turnId
    events := nextEvents (p.eventsOfTurn turnId) turnId event
    terminal := p.nextTerminal turnId event
    cursor := saturatingSucc p.cursor
    lastTouched := sequence }.pushTail (saturatingSucc p.cursor) event

/-- What one `record` can do, seen from one session. -/
inductive SessionStep (j : SessionEventJournal ρ) (event : AgenticEvent ρ) (sessionId : String)
    (j' : SessionEventJournal ρ) : Prop
  /-- An event that is not materialized, or of another session, at most prunes it. -/
  | silent (hevent : event.sessionId ≠ some sessionId ∨
        isSessionDeleted event = false ∧ materializes event = false)
      (hproj : Pruned (j.projection sessionId) (j'.projection sessionId))
      (hlog : j'.log sessionId = j.log sessionId)
  /-- `SessionDeleted` clears it. -/
  | deleted (hevent : event.sessionId = some sessionId) (hdel : isSessionDeleted event = true)
      (hproj : j'.projection sessionId = (j.projection sessionId).map fun p =>
        { p.clearReplayContent with terminal := true })
      (hlog : j'.log sessionId = j.log sessionId)
  /-- A materialized event advances the projection and is logged, or discards the log. -/
  | materialized (turnId : String) (p : SessionProjection ρ)
      (hevent : event.sessionId = some sessionId) (hdel : isSessionDeleted event = false)
      (hturn : eventTurnId event = some turnId) (hmat : materializes event = true)
      (hp : p = ((j.projection sessionId).getD {}).after turnId event
        (saturatingSucc j.state.sequence))
      (hproj : Pruned (some p) (j'.projection sessionId))
      (hlog : j'.log sessionId = if p.terminal then [] else
        j.log sessionId ++ [⟨j.state.streamId, p.cursor, event⟩])

/-- The store of a session after its log was appended to or discarded. -/
theorem log_update (store : ProjectionStore ρ) (state : JournalState ρ) (terminal : Bool)
    (id streamId : String) (cursor : ℕ) (event : AgenticEvent ρ) (sessionId : String) :
    SessionEventJournal.log ⟨state, some (if terminal then store.discard id
      else store.append id streamId cursor event)⟩ sessionId =
    if sessionId = id then if terminal then [] else
      (store.lookup sessionId).getD [] ++ [⟨streamId, cursor, event⟩]
    else (store.lookup sessionId).getD [] := by
  cases terminal with
  | true =>
    simp only [SessionEventJournal.log, ProjectionStore.discard, AssocMap.lookup_erase, if_true,
      Option.bind_some]
    split <;> rfl
  | false =>
    simp only [SessionEventJournal.log, ProjectionStore.append, AssocMap.lookup_insert,
      Bool.false_eq_true, if_false, Option.bind_some]
    split
    · next h =>
      subst h
      rfl
    · rfl

/-- Pruning keeps the flag of a projection. -/
theorem Pruned.terminal {after : Option (SessionProjection ρ)} (h : Pruned (some p) after) :
    (after.map (·.terminal)).getD false = p.terminal := by
  obtain rfl | ⟨-, -, rfl⟩ := h.of_some
  · rfl
  · rfl

theorem record_of_deleted {id : String} (hid : event.sessionId = some id)
    (hdel : isSessionDeleted event = true) (j : SessionEventJournal ρ) :
    (j.record event).2.state.streamId = j.state.streamId ∧
      (j.record event).2.store = j.store ∧
      ∀ sessionId, (j.record event).2.projection sessionId =
        if sessionId = id then (j.projection id).map fun p =>
          { p.clearReplayContent with terminal := true }
        else j.projection sessionId := by
  cases hlook : j.state.sessions.lookup id with
  | none =>
    simp only [SessionEventJournal.record, hid, hdel, if_true, hlook, SessionEventJournal.projection,
      Option.map_none, true_and]
    intro sessionId
    split
    · next h => rw [h, hlook]
    · rfl
  | some p =>
    simp only [SessionEventJournal.record, hid, hdel, if_true, hlook, SessionEventJournal.projection,
      Option.map_some, AssocMap.lookup_insert, implies_true, and_self]

theorem record_of_not_materializes (hdel : isSessionDeleted event = false)
    (hmat : materializes event = false) (j : SessionEventJournal ρ) :
    j.record event = (none, j) := by
  have hearly : (eventTurnId event).isNone ∨ isStreamChunk event = true := by
    simp only [materializes, Bool.and_eq_false_iff, Bool.not_eq_false'] at hmat
    simpa using hmat
  cases hid : event.sessionId with
  | none => simp only [SessionEventJournal.record, hid]
  | some id => simp only [SessionEventJournal.record, hid, hdel, Bool.false_eq_true, if_false, hearly,
      if_true]

theorem record_of_materializes {id : String} (hid : event.sessionId = some id)
    (hmat : materializes event = true) (hturn : eventTurnId event = some turnId)
    (hp : ((j.projection id).getD {}).after turnId event (saturatingSucc j.state.sequence) = p) :
    j.record event = (some ⟨j.state.streamId, p.cursor⟩,
      ⟨{ j.state with
          sequence := saturatingSucc j.state.sequence
          sessions := pruneTerminalProjections (j.state.sessions.insert id p) },
        j.store.map fun store => if p.terminal then store.discard id
          else store.append id j.state.streamId p.cursor event⟩) := by
  have hchunk : isStreamChunk event = false := by simpa [materializes, hturn] using hmat
  have hdel : isSessionDeleted event = false := by
    cases event <;> first | rfl | cases hturn
  have hrec : j.record event = j.materialize id event := by
    simp [SessionEventJournal.record, hid, hdel, hturn, hchunk]
  have hprune := pruned_prune (j.state.sessions.insert id p) id
  rw [AssocMap.lookup_insert, if_pos rfl] at hprune
  rw [hrec, ← hprune.terminal, ← hp]
  simp only [SessionEventJournal.materialize, applyEvent_eq _ hturn, if_true]
  rfl

/-- **What one `record` can do**: the journal keeps its stream and its store, and every session
makes one of the three steps. -/
theorem record_spec (j : SessionEventJournal ρ) (event : AgenticEvent ρ) (sessionId : String)
    (hstore : j.store.isSome) :
    (j.record event).2.state.streamId = j.state.streamId ∧ (j.record event).2.store.isSome ∧
      SessionStep j event sessionId (j.record event).2 := by
  by_cases hdel : isSessionDeleted event = true
  · obtain ⟨id, hid⟩ : ∃ id, event.sessionId = some id := by
      cases event <;> first | exact ⟨_, rfl⟩ | cases hdel
    obtain ⟨hstream, hst, hproj⟩ := record_of_deleted hid hdel j
    have hlog : (j.record event).2.log sessionId = j.log sessionId := by
      simp only [SessionEventJournal.log, hst]
    refine ⟨hstream, by rwa [hst], ?_⟩
    by_cases hs : sessionId = id
    · subst hs
      exact .deleted hid hdel (by rw [hproj, if_pos rfl]) hlog
    · refine .silent (.inl ?_) (.inl (by rw [hproj, if_neg hs])) hlog
      simpa [hid] using Ne.symm hs
  · have hdel : isSessionDeleted event = false := by simpa using hdel
    by_cases hmat : materializes event = true
    · obtain ⟨turnId, hturn⟩ : ∃ turnId, eventTurnId event = some turnId := by
        simp only [materializes, Bool.and_eq_true] at hmat
        exact Option.isSome_iff_exists.1 hmat.1
      obtain ⟨id, hid⟩ : ∃ id, event.sessionId = some id := by
        cases event <;> first | exact ⟨_, rfl⟩ | cases hturn
      obtain ⟨store, hst⟩ := Option.isSome_iff_exists.1 hstore
      generalize hp : ((j.projection id).getD {}).after turnId event
        (saturatingSucc j.state.sequence) = p
      rw [record_of_materializes hid hmat hturn hp, hst]
      refine ⟨rfl, rfl, ?_⟩
      have hprune := pruned_prune (j.state.sessions.insert id p) sessionId
      have hlog := log_update store { j.state with
        sequence := saturatingSucc j.state.sequence
        sessions := pruneTerminalProjections (j.state.sessions.insert id p) } p.terminal id
        j.state.streamId p.cursor event sessionId
      have hbefore : j.log sessionId = (store.lookup sessionId).getD [] := by
        simp only [SessionEventJournal.log, hst, Option.bind_some]
      rw [AssocMap.lookup_insert] at hprune
      by_cases hs : sessionId = id
      · subst hs
        rw [if_pos rfl] at hprune hlog
        exact .materialized turnId p hid hdel hturn hmat hp.symm hprune (by rw [hbefore]; exact hlog)
      · rw [if_neg hs] at hprune hlog
        refine .silent (.inl ?_) hprune (by rw [hbefore]; exact hlog)
        simpa [hid] using Ne.symm hs
    · have hmat : materializes event = false := by simpa using hmat
      rw [record_of_not_materializes hdel hmat]
      exact ⟨rfl, hstore, .silent (.inr ⟨hdel, hmat⟩) (.inl rfl) rfl⟩

/-! ## The log and the projection -/

/-- Saturating counters agree with the number of steps up to the largest value. -/
theorem saturatingSucc_min (n : ℕ) : saturatingSucc (min n (2 ^ 64 - 1)) = min (n + 1) (2 ^ 64 - 1) := by
  rw [saturatingSucc]
  omega

theorem replayEvent_eq (p : SessionProjection ρ) (h : eventTurnId event = some turnId) :
    replayEvent p event = { p with
      activeTurnId := some turnId
      events := nextEvents (p.eventsOfTurn turnId) turnId event
      terminal := p.nextTerminal turnId event
      cursor := saturatingSucc p.cursor } := by
  simp only [replayEvent, applyEvent_eq p h, if_true]

@[simp] theorem replay_concat (events : List (AgenticEvent ρ)) (event : AgenticEvent ρ) :
    replay (events ++ [event]) = replayEvent (replay events) event := by
  simp only [replay, foldl_concat]

/-- The replay counts every event of a log. -/
theorem replay_cursor (events : List (AgenticEvent ρ))
    (h : ∀ event ∈ events, materializes event = true) :
    (replay events).cursor = min events.length (2 ^ 64 - 1) := by
  induction events using List.reverseRecOn with
  | nil => rfl
  | append_singleton events event ih =>
    have hmat := h event (by simp)
    simp only [materializes, Bool.and_eq_true] at hmat
    obtain ⟨turnId, hturn⟩ := Option.isSome_iff_exists.1 hmat.1
    rw [replay_concat, replayEvent_eq _ hturn, ih fun e he => h e (by simp [he]),
      saturatingSucc_min, length_append, length_singleton]

/-- The lines of one stream after lines of others: they alone are loaded. -/
theorem foldl_loadRecord (loaded : Option String × List (AgenticEvent ρ))
    (hloaded : loaded.1 ≠ some streamId) (hempty : loaded.1 = none → loaded.2 = [])
    (written : List (LoggedEvent ρ)) (hwritten : ∀ r ∈ written, r.streamId = streamId)
    (hne : written ≠ []) :
    written.foldl loadRecord loaded = (some streamId, written.map (·.event)) := by
  induction written using List.reverseRecOn with
  | nil => exact absurd rfl hne
  | append_singleton written r ih =>
    have hr : r.streamId = streamId := hwritten r (by simp)
    rw [foldl_concat]
    by_cases hw : written = []
    · subst hw
      obtain ⟨stream, events⟩ := loaded
      cases stream with
      | none =>
        obtain rfl : events = [] := hempty rfl
        simp [loadRecord, hr]
      | some current =>
        have hcur : current ≠ streamId := by simpa using hloaded
        simp [loadRecord, hr, hcur]
    · rw [ih (fun r hr => hwritten r (by simp [hr])) hw]
      simp [loadRecord, hr]

/-- The lines of other streams leave no trace of `streamId`. -/
theorem foldl_loadRecord_old (old : List (LoggedEvent ρ)) (hold : ∀ r ∈ old, r.streamId ≠ streamId) :
    (old.foldl loadRecord (none, [])).1 ≠ some streamId ∧
      ((old.foldl loadRecord (none, [])).1 = none → (old.foldl loadRecord (none, [])).2 = []) := by
  induction old using List.reverseRecOn with
  | nil => simp
  | append_singleton old r _ =>
    have hr : r.streamId ≠ streamId := hold r (by simp)
    rw [foldl_concat]
    generalize old.foldl loadRecord (none, []) = loaded
    obtain ⟨stream, events⟩ := loaded
    cases stream with
    | none => simpa [loadRecord] using hr
    | some current =>
      by_cases hcur : current = r.streamId
      · simp [loadRecord, hcur, hr]
      · simp [loadRecord, hcur, hr]

/-- The log of a session over a run of one journal: lines of older streams, then the lines of this
one, which count `count` materialized events at most. -/
structure Logged (streamId : String) (events : List (AgenticEvent ρ)) (j : SessionEventJournal ρ)
    (sessionId : String) (old written : List (LoggedEvent ρ)) : Prop where
  /-- The journal keeps its stream id. -/
  stream : j.state.streamId = streamId
  /-- The journal keeps its store. -/
  store : j.store.isSome
  /-- The log. -/
  log : j.log sessionId = old ++ written
  /-- Other journals wrote the older lines. -/
  old_stream : ∀ r ∈ old, r.streamId ≠ streamId
  /-- This journal wrote the others. -/
  stream_written : ∀ r ∈ written, r.streamId = streamId
  /-- It wrote materialized events. -/
  materializes_written : ∀ r ∈ written, materializes r.event = true
  /-- An event removes the older lines or is added to them. -/
  written_ne : events.countP materializes ≠ 0 → written = [] → old = []
  /-- Every line is an event. -/
  written_le : written.length ≤ events.countP materializes
  /-- The end of a Turn removes its lines for good. -/
  written_lt : (∃ event ∈ events, endsTurn event = true) →
    written.length < events.countP materializes
  /-- The live cursor counts the events. -/
  cursor : events.countP materializes ≠ 0 → ∃ p, j.projection sessionId = some p ∧
    p.cursor = min (events.countP materializes) (2 ^ 64 - 1)
  /-- Without an event there is no projection. -/
  absent : events.countP materializes = 0 → j.projection sessionId = none
  /-- While no Turn has ended, every event is in the log, and the projection shows what the replay
  shows, unless the session was deleted under the current Turn. -/
  replayed : (∀ event ∈ events, endsTurn event = false) →
    written.length = events.countP materializes ∧
    (replay (written.map (·.event))).activeTurnId = (turnStatus events).turnId ∧
    ∀ p, j.projection sessionId = some p →
      (p.activeTurnId = none ∨ p.activeTurnId = (turnStatus events).turnId) ∧
      (p.terminal = true → p.activeTurnId = none ∧ p.events = []) ∧
      ((turnStatus events).deleted = false →
        p.activeTurnId = (turnStatus events).turnId ∧
        p.events = (replay (written.map (·.event))).events)

/-- The events of a session after one more event of the journal. -/
def observe (events : List (AgenticEvent ρ)) (sessionId : String) (event : AgenticEvent ρ) :
    List (AgenticEvent ρ) :=
  events ++ if event.sessionId = some sessionId then [event] else []

variable {events : List (AgenticEvent ρ)} {old written : List (LoggedEvent ρ)}

theorem Logged.silent (h : Logged streamId events j sessionId old written)
    (hstream : j'.state.streamId = j.state.streamId) (hstore : j'.store.isSome)
    (hevent : event.sessionId ≠ some sessionId ∨
      isSessionDeleted event = false ∧ materializes event = false)
    (hproj : Pruned (j.projection sessionId) (j'.projection sessionId))
    (hlog : j'.log sessionId = j.log sessionId) :
    Logged streamId (observe events sessionId event) j' sessionId old written := by
  have hcount : (observe events sessionId event).countP materializes =
      events.countP materializes := by
    obtain hne | ⟨-, hmat⟩ := hevent
    · simp [observe, hne]
    · by_cases hs : event.sessionId = some sessionId
      · simp [observe, hs, hmat]
      · simp [observe, hs]
  have hstatus : turnStatus (observe events sessionId event) = turnStatus events := by
    obtain hne | ⟨hdel, hmat⟩ := hevent
    · simp [observe, hne]
    · by_cases hs : event.sessionId = some sessionId
      · simp [observe, hs, TurnStatus.next, hdel, hmat]
      · simp [observe, hs]
  have hends : ∀ e ∈ observe events sessionId event, endsTurn e = true → e ∈ events := by
    intro e he hend
    rw [observe, mem_append] at he
    obtain he | he := he
    · exact he
    · split at he
      · next hs =>
        obtain rfl : e = event := by simpa using he
        obtain hne | ⟨-, hmat⟩ := hevent
        · exact absurd hs hne
        · rw [materializes_of_endsTurn hend] at hmat
          cases hmat
      · simp at he
  have hsub : ∀ e ∈ events, e ∈ observe events sessionId event := fun e he => by simp [observe, he]
  refine ⟨hstream.trans h.stream, hstore, hlog.trans h.log, h.old_stream, h.stream_written,
    h.materializes_written, ?_, ?_, ?_, ?_, ?_, ?_⟩
  · rw [hcount]
    exact h.written_ne
  · rw [hcount]
    exact h.written_le
  · rw [hcount]
    rintro ⟨e, he, hend⟩
    exact h.written_lt ⟨e, hends e he hend, hend⟩
  · rw [hcount]
    intro hn
    obtain ⟨p, hp, hcur⟩ := h.cursor hn
    rw [hp] at hproj
    obtain hp' | ⟨-, -, hp'⟩ := hproj.of_some
    · exact ⟨p, hp', hcur⟩
    · exact ⟨_, hp', hcur⟩
  · rw [hcount]
    intro hn
    rw [h.absent hn] at hproj
    exact hproj.of_none
  · rw [hcount, hstatus]
    intro hno
    obtain ⟨hlen, hturn, hp⟩ := h.replayed fun e he => hno e (hsub e he)
    refine ⟨hlen, hturn, fun p hp' => ?_⟩
    obtain heq | ⟨q, hq, hterm, hev, -⟩ := hproj
    · exact hp p (by rw [← heq, hp'])
    · -- an ended projection with events shows that a Turn has ended
      exact absurd ((hp q hq).2.1 hterm).2 hev

theorem Logged.deleted (h : Logged streamId events j sessionId old written)
    (hstream : j'.state.streamId = j.state.streamId) (hstore : j'.store.isSome)
    (hevent : event.sessionId = some sessionId) (hdel : isSessionDeleted event = true)
    (hproj : j'.projection sessionId = (j.projection sessionId).map fun p =>
      { p.clearReplayContent with terminal := true })
    (hlog : j'.log sessionId = j.log sessionId) :
    Logged streamId (observe events sessionId event) j' sessionId old written := by
  have hmat : materializes event = false := by
    cases event <;> first | rfl | cases hdel
  have hend : endsTurn event = false := by
    cases event <;> first | rfl | cases hdel
  have hcount : (observe events sessionId event).countP materializes =
      events.countP materializes := by
    simp [observe, hevent, hmat]
  refine ⟨hstream.trans h.stream, hstore, hlog.trans h.log, h.old_stream, h.stream_written,
    h.materializes_written, ?_, ?_, ?_, ?_, ?_, ?_⟩
  · rw [hcount]
    exact h.written_ne
  · rw [hcount]
    exact h.written_le
  · rw [hcount]
    rintro ⟨e, he, hends⟩
    refine h.written_lt ⟨e, ?_, hends⟩
    rw [observe, if_pos hevent, mem_append, mem_singleton] at he
    obtain he | rfl := he
    · exact he
    · rw [hend] at hends
      cases hends
  · rw [hcount]
    intro hn
    obtain ⟨p, hp, hcur⟩ := h.cursor hn
    refine ⟨{ p.clearReplayContent with terminal := true }, ?_, hcur⟩
    rw [hproj, hp, Option.map_some]
  · rw [hcount]
    intro hn
    rw [hproj, h.absent hn]
    rfl
  · rw [hcount]
    intro hno
    obtain ⟨hlen, hturn, -⟩ := h.replayed fun e he => hno e (by simp [observe, he])
    have hstatus : turnStatus (observe events sessionId event) =
        { turnStatus events with deleted := true } := by
      simp [observe, hevent, TurnStatus.next, hdel]
    rw [hstatus]
    refine ⟨hlen, hturn, fun p hp => ?_⟩
    rw [hproj] at hp
    obtain ⟨q, -, rfl⟩ := Option.map_eq_some_iff.1 hp
    exact ⟨.inl rfl, fun _ => ⟨rfl, rfl⟩, fun h => by cases h⟩

@[simp] theorem SessionProjection.after_cursor (p : SessionProjection ρ) (turnId : String)
    (event : AgenticEvent ρ) (sequence : ℕ) :
    (p.after turnId event sequence).cursor = saturatingSucc p.cursor := rfl

@[simp] theorem SessionProjection.after_activeTurnId (p : SessionProjection ρ) (turnId : String)
    (event : AgenticEvent ρ) (sequence : ℕ) :
    (p.after turnId event sequence).activeTurnId = some turnId := rfl

@[simp] theorem SessionProjection.after_events (p : SessionProjection ρ) (turnId : String)
    (event : AgenticEvent ρ) (sequence : ℕ) :
    (p.after turnId event sequence).events =
      nextEvents (p.eventsOfTurn turnId) turnId event := rfl

@[simp] theorem SessionProjection.after_terminal (p : SessionProjection ρ) (turnId : String)
    (event : AgenticEvent ρ) (sequence : ℕ) :
    (p.after turnId event sequence).terminal = p.nextTerminal turnId event := rfl

/-- The projection before a materialized event, counted. -/
theorem Logged.cursor_getD (h : Logged streamId events j sessionId old written) :
    ((j.projection sessionId).getD {}).cursor = min (events.countP materializes) (2 ^ 64 - 1) := by
  by_cases hn : events.countP materializes = 0
  · rw [h.absent hn, hn]
    rfl
  · obtain ⟨p, hp, hcur⟩ := h.cursor hn
    rw [hp, Option.getD_some, hcur]

/-- While no Turn has ended, the next event of a Turn that goes on finds the projection as the
replay finds it. -/
theorem Logged.eventsOfTurn_eq (h : Logged streamId events j sessionId old written)
    (hno : ∀ event ∈ events, endsTurn event = false)
    (hdel : (turnStatus events).turnId = some turnId → (turnStatus events).deleted = false) :
    ((j.projection sessionId).getD {}).eventsOfTurn turnId =
      (replay (written.map (·.event))).eventsOfTurn turnId := by
  obtain ⟨hlen, hturn, hp⟩ := h.replayed hno
  simp only [SessionProjection.eventsOfTurn, hturn]
  cases hproj : j.projection sessionId with
  | none =>
    have hcount : events.countP materializes = 0 := by
      by_contra hn
      obtain ⟨p, hp, -⟩ := h.cursor hn
      rw [hproj] at hp
      cases hp
    obtain rfl : written = [] := eq_nil_of_length_eq_zero (by rw [hlen, hcount])
    simp [← hturn, replay]
  | some p =>
    obtain ⟨hactive, -, hsame⟩ := hp p hproj
    rw [Option.getD_some]
    by_cases ht : (turnStatus events).turnId = some turnId
    · obtain ⟨hactive, hevents⟩ := hsame (hdel ht)
      rw [hactive, hevents]
    · rw [if_neg ht, if_neg]
      obtain hactive | hactive := hactive
      · simp [hactive]
      · rwa [hactive]

/-- While no Turn has ended, no projection is marked as ended by an event that ends none. -/
theorem Logged.nextTerminal_eq (h : Logged streamId events j sessionId old written)
    (hno : ∀ event ∈ events, endsTurn event = false) (hend : endsTurn event = false) :
    ((j.projection sessionId).getD {}).nextTerminal turnId event = false := by
  simp only [SessionProjection.nextTerminal, hend, Bool.or_false, Bool.and_eq_false_iff,
    Bool.not_eq_false', decide_eq_false_iff_not]
  right
  cases hproj : j.projection sessionId with
  | none => simp
  | some p =>
    by_cases hterm : p.terminal = true
    · left
      simp [(((h.replayed hno).2.2 p hproj).2.1 hterm).1]
    · right
      simpa using hterm

/-- A materialized event keeps the relation. -/
theorem Logged.materialized (h : Logged streamId events j sessionId old written)
    (hstream : j'.state.streamId = j.state.streamId) (hstore : j'.store.isSome)
    (hevent : event.sessionId = some sessionId) (hdel : isSessionDeleted event = false)
    (hturn : eventTurnId event = some turnId) (hmat : materializes event = true)
    (hp : p = ((j.projection sessionId).getD {}).after turnId event
      (saturatingSucc j.state.sequence))
    (hproj : Pruned (some p) (j'.projection sessionId))
    (hlog : j'.log sessionId = if p.terminal then [] else
      j.log sessionId ++ [⟨j.state.streamId, p.cursor, event⟩]) :
    ∃ old' written', Logged streamId (observe events sessionId event) j' sessionId old' written' := by
  have hobs : observe events sessionId event = events ++ [event] := by
    rw [observe, if_pos hevent]
  have hcount : (observe events sessionId event).countP materializes =
      events.countP materializes + 1 := by
    simp [hobs, hmat]
  have hcursor : p.cursor = min ((observe events sessionId event).countP materializes)
      (2 ^ 64 - 1) := by
    rw [hp, SessionProjection.after_cursor, h.cursor_getD, saturatingSucc_min, hcount]
  have hnew : ∃ q, j'.projection sessionId = some q ∧
      q.cursor = min ((observe events sessionId event).countP materializes) (2 ^ 64 - 1) := by
    obtain hq | ⟨-, -, hq⟩ := hproj.of_some
    · exact ⟨p, hq, hcursor⟩
    · exact ⟨_, hq, hcursor⟩
  have hends : ∀ e ∈ observe events sessionId event, endsTurn e = true →
      e ∈ events ∨ endsTurn event = true := by
    intro e he hend
    rw [hobs, mem_append, mem_singleton] at he
    obtain he | rfl := he
    · exact .inl he
    · exact .inr hend
  -- the event that ends a Turn marks the projection
  have hmark : endsTurn event = true → p.terminal = true := by
    intro hend
    have hstart : startsTurn event = false := by
      cases event <;> first | rfl | cases hend
    rw [hp, SessionProjection.after_terminal, SessionProjection.nextTerminal, hend, hstart]
    simp
  by_cases hterm : p.terminal = true
  · -- the log is discarded
    rw [if_pos hterm] at hlog
    refine ⟨[], [], hstream.trans h.stream, hstore, hlog, by simp, by simp, by simp, fun _ _ => rfl,
      Nat.zero_le _, fun _ => by rw [hcount]; simp, fun _ => hnew, fun hn => ?_, fun hno => ?_⟩
    · rw [hcount] at hn
      cases hn
    · have hend : endsTurn event = false := hno event (by simp [hobs])
      have hfalse : ((j.projection sessionId).getD {}).nextTerminal turnId event = false :=
        h.nextTerminal_eq (fun e he => hno e (by simp [hobs, he])) hend
      rw [hp, SessionProjection.after_terminal, hfalse] at hterm
      cases hterm
  · -- the event is appended
    rw [if_neg hterm, h.log, append_assoc, h.stream] at hlog
    refine ⟨old, written ++ [⟨streamId, p.cursor, event⟩], hstream.trans h.stream, hstore, hlog,
      h.old_stream, ?_, ?_, fun _ hnil => by simp at hnil, ?_, ?_, fun _ => hnew, fun hn => ?_,
      fun hno => ?_⟩
    · intro r hr
      obtain hr | rfl := by simpa using hr
      · exact h.stream_written r hr
      · rfl
    · intro r hr
      obtain hr | rfl := by simpa using hr
      · exact h.materializes_written r hr
      · exact hmat
    · rw [hcount, length_append, length_singleton]
      exact Nat.succ_le_succ h.written_le
    · rintro ⟨e, he, hend⟩
      rw [hcount, length_append, length_singleton]
      obtain he | hend := hends e he hend
      · exact Nat.succ_lt_succ (h.written_lt ⟨e, he, hend⟩)
      · exact absurd (hmark hend) hterm
    · rw [hcount] at hn
      cases hn
    · have hno' : ∀ e ∈ events, endsTurn e = false := fun e he => hno e (by simp [hobs, he])
      have hend : endsTurn event = false := hno event (by simp [hobs])
      obtain ⟨hlen, hactive, -⟩ := h.replayed hno'
      have hstatus : turnStatus (observe events sessionId event) =
          (turnStatus events).next event := by
        rw [hobs, turnStatus_concat]
      have hnext : ((turnStatus events).next event).turnId = some turnId := by
        simp only [TurnStatus.next, hdel, Bool.false_eq_true, if_false, hmat, if_true, hturn]
        split
        · next ht => exact ht
        · rfl
      have hreplay (line : LoggedEvent ρ) : replay ((written ++ [line]).map (·.event)) =
          replayEvent (replay (written.map (·.event))) line.event := by
        rw [map_append, map_singleton, replay_concat]
      rw [hstatus, hnext, hreplay, replayEvent_eq _ hturn]
      refine ⟨by rw [hcount, length_append, hlen, length_singleton], rfl, ?_⟩
      intro q hq
      obtain rfl : q = p := by
        obtain hq' | ⟨hterm', -⟩ := hproj.of_some
        · rw [hq] at hq'
          exact Option.some.inj hq'
        · exact absurd hterm' hterm
      rw [hp, SessionProjection.after_activeTurnId, SessionProjection.after_events]
      refine ⟨.inr rfl, fun ht => ?_, fun hdel' => ⟨rfl, ?_⟩⟩
      · rw [← hp] at ht
        exact absurd ht hterm
      · rw [h.eventsOfTurn_eq hno' fun ht => ?_]
        simpa only [TurnStatus.next, hdel, Bool.false_eq_true, if_false, hmat, if_true, hturn, ht]
          using hdel'

/-- The relation between the log and the projection holds all along a run of a journal over a
store that has no line of its stream. -/
theorem Records.logged {store : ProjectionStore ρ}
    {tr : List (AgenticEvent ρ × Option SessionEventCursor)}
    (h : Records ((withStreamId streamId).withStore store) tr j)
    (hfresh : ∀ log, store.lookup sessionId = some log → ∀ r ∈ log, r.streamId ≠ streamId) :
    ∃ old written, Logged streamId (eventsOf sessionId tr) j sessionId old written := by
  refine Run.history (P := fun tr j =>
    ∃ old written, Logged streamId (eventsOf sessionId tr) j sessionId old written) h ?_ ?_
  · refine ⟨(store.lookup sessionId).getD [], [], rfl, rfl, ?_, ?_, by simp, by simp, ?_, ?_, ?_, ?_,
      fun _ => rfl, ?_⟩
    · simp [SessionEventJournal.log, SessionEventJournal.withStore]
    · cases hlook : store.lookup sessionId with
      | none => simp
      | some log => exact hfresh log hlook
    · exact fun hn => absurd rfl hn
    · exact Nat.zero_le _
    · rintro ⟨e, he, -⟩
      simp [eventsOf] at he
    · exact fun hn => absurd rfl hn
    · exact fun _ => ⟨rfl, rfl, fun p hp => by cases hp⟩
  · rintro tr j ⟨event, cursor⟩ j' ⟨old, written, hlogged⟩ hrec
    obtain rfl : (j.record event).2 = j' := by rw [show j.record event = (cursor, j') from hrec]
    obtain ⟨hstream, hstore, hstep⟩ := record_spec j event sessionId hlogged.store
    have hobs : eventsOf sessionId (tr ++ [(event, cursor)]) =
        observe (eventsOf sessionId tr) sessionId event := eventsOf_concat tr (event, cursor)
    rw [hobs]
    cases hstep with
    | silent hevent hproj hlog =>
      exact ⟨old, written, hlogged.silent hstream hstore hevent hproj hlog⟩
    | deleted hevent hdel hproj hlog =>
      exact ⟨old, written, hlogged.deleted hstream hstore hevent hdel hproj hlog⟩
    | materialized turnId p hevent hdel hturn hmat hp hproj hlog =>
      exact hlogged.materialized hstream hstore hevent hdel hturn hmat hp hproj hlog

/-! ## The restarted journal -/

/-- A journal of a new process over the same store. -/
def SessionEventJournal.restart (j : SessionEventJournal ρ) (streamId : String) :
    SessionEventJournal ρ :=
  { withStreamId streamId with store := j.store }

/-- What the new journal loads: the lines of the old one. -/
theorem Logged.load (h : Logged streamId events j sessionId old written)
    (hcount : events.countP materializes ≠ 0) :
    j.store.bind (·.load sessionId) =
      if written = [] then none else some ⟨streamId, written.map (·.event)⟩ := by
  obtain ⟨store, hst⟩ := Option.isSome_iff_exists.1 h.store
  have hlog : (store.lookup sessionId).getD [] = old ++ written := by
    rw [← h.log, SessionEventJournal.log, hst]
    rfl
  rw [hst, Option.bind_some, ProjectionStore.load]
  split
  · next hw =>
    rw [h.written_ne hcount hw, hw] at hlog
    cases hlook : store.lookup sessionId with
    | none => rfl
    | some log =>
      obtain rfl : log = [] := by simpa [hlook] using hlog
      rfl
  · next hw =>
    cases hlook : store.lookup sessionId with
    | none =>
      rw [hlook, Option.getD_none] at hlog
      exact absurd (append_eq_nil_iff.1 hlog.symm).2 hw
    | some log =>
      obtain rfl : log = old ++ written := by simpa [hlook] using hlog
      obtain ⟨hne, hempty⟩ := foldl_loadRecord_old old h.old_stream
      have hloaded := foldl_loadRecord _ hne hempty written h.stream_written hw
      simp [foldl_append, hloaded, hw]

theorem snapshot_of_projection (hp : j.projection sessionId = some p) :
    j.snapshot sessionId =
      ⟨sessionId, j.state.streamId, p.cursor, p.activeTurnId, p.events⟩ := by
  rw [SessionEventJournal.projection] at hp
  simp [SessionEventJournal.snapshot, hp, projectionSnapshot]

theorem Logged.snapshot_restart (h : Logged streamId events j sessionId old written)
    (hcount : events.countP materializes ≠ 0) (streamId' : String) :
    (j.restart streamId').snapshot sessionId =
      if written = [] then ⟨sessionId, streamId', 0, none, []⟩
      else ⟨sessionId, streamId, (replay (written.map (·.event))).cursor,
        (replay (written.map (·.event))).activeTurnId, (replay (written.map (·.event))).events⟩ := by
  have hload := h.load hcount
  rw [SessionEventJournal.snapshot]
  simp only [SessionEventJournal.restart, withStreamId, AList.lookup_empty, Option.isSome_none,
    Bool.false_eq_true, if_false, hload]
  by_cases hw : written = []
  · simp only [hw, if_true]
  · simp only [hw, if_false]

/-- **Restart equivalence, and where it ends.** A session's current Turn executes. As long as no
Turn of the session has completed, failed or been cancelled, a journal of a new process over the
same store answers `snapshot` as the old one does. Once one has, the two cursors differ. -/
theorem Records.restart {store : ProjectionStore ρ}
    {tr : List (AgenticEvent ρ × Option SessionEventCursor)}
    (h : Records ((withStreamId streamId).withStore store) tr j)
    (hfresh : ∀ log, store.lookup sessionId = some log → ∀ r ∈ log, r.streamId ≠ streamId)
    (hturn : (turnStatus (eventsOf sessionId tr)).Executing) (streamId' : String) :
    ((∀ event ∈ eventsOf sessionId tr, endsTurn event = false) →
      (j.restart streamId').snapshot sessionId = j.snapshot sessionId) ∧
    (tr.length < 2 ^ 64 →
      ((j.restart streamId').snapshot sessionId).cursor = (j.snapshot sessionId).cursor →
      ∀ event ∈ eventsOf sessionId tr, endsTurn event = false) := by
  obtain ⟨old, written, hlogged⟩ := h.logged hfresh
  refine ⟨fun hno => ?_, fun hlen hcur => ?_⟩
  · obtain ⟨hlength, hactive, hsame⟩ := hlogged.replayed hno
    have hw : written ≠ [] := by
      rintro rfl
      have hnone : (turnStatus (eventsOf sessionId tr)).turnId = none := hactive.symm
      simpa [hnone] using hturn.1
    have hcount : (eventsOf sessionId tr).countP materializes ≠ 0 := by
      rw [← hlength]
      exact fun hz => hw (eq_nil_of_length_eq_zero hz)
    obtain ⟨p, hp, hpcur⟩ := hlogged.cursor hcount
    obtain ⟨hpactive, hpevents⟩ := (hsame p hp).2.2 hturn.2.2
    have hrcur := replay_cursor (written.map (·.event)) (by simpa using hlogged.materializes_written)
    rw [hlogged.snapshot_restart hcount, if_neg hw, snapshot_of_projection hp, hlogged.stream, hrcur,
      hactive, hpactive, hpevents, hpcur, length_map, hlength]
  · by_contra hex
    obtain ⟨event, hmem, hend⟩ : ∃ event ∈ eventsOf sessionId tr, endsTurn event = true := by
      simpa using hex
    have hlt := hlogged.written_lt ⟨event, hmem, hend⟩
    have hcount : (eventsOf sessionId tr).countP materializes ≠ 0 := by omega
    have hle : (eventsOf sessionId tr).countP materializes ≤ tr.length := by
      refine countP_le_length.trans ?_
      simpa [eventsOf] using length_filter_le (fun e : AgenticEvent ρ => e.sessionId = some sessionId)
        (tr.map (·.1))
    obtain ⟨p, hp, hpcur⟩ := hlogged.cursor hcount
    have hrcur := replay_cursor (written.map (·.event)) (by simpa using hlogged.materializes_written)
    rw [hlogged.snapshot_restart hcount, snapshot_of_projection hp, hpcur] at hcur
    rw [length_map] at hrcur
    split at hcur
    · simp only at hcur
      omega
    · simp only [hrcur] at hcur
      omega

/-- A Turn that streams its text over the log of an older process is restored as it is. -/
theorem restart_running_turn :
    ∃ (tr : _) (j : SessionEventJournal Unit),
      Records ((withStreamId "runtime-a").withStore (AList.insert "session"
        [⟨"old", 1, .textChunk "session" "turn-0" "round" none none "lost"⟩] ∅)) tr j ∧
      (j.restart "runtime-b").snapshot "session" = j.snapshot "session" ∧
      (j.snapshot "session").events = [.dialogTurnStarted "session" "turn-1" (),
        .textChunk "session" "turn-1" "round" none none "hello"] := by
  obtain ⟨tr, j, hrun, hno, hexec, hevents⟩ : ∃ (tr : _) (j : SessionEventJournal Unit),
      Records ((withStreamId "runtime-a").withStore (AList.insert "session"
        [⟨"old", 1, .textChunk "session" "turn-0" "round" none none "lost"⟩] ∅)) tr j ∧
      (∀ event ∈ eventsOf "session" tr, endsTurn event = false) ∧
      (turnStatus (eventsOf "session" tr)).Executing ∧
      (j.snapshot "session").events = [.dialogTurnStarted "session" "turn-1" (),
        .textChunk "session" "turn-1" "round" none none "hello"] :=
    ⟨_, _, records_recordAll _ [.dialogTurnStarted "session" "turn-1" (),
      .textChunk "session" "turn-1" "round" none none "hel",
      .textChunk "session" "turn-1" "round" none none "lo"], by decide, ⟨rfl, rfl, rfl⟩, by decide⟩
  refine ⟨tr, j, hrun, (Records.restart hrun ?_ hexec "runtime-b").1 hno, hevents⟩
  intro log hlog
  cases hlog
  decide

/-- After a completed Turn the live cursor counts events that the log has lost: the session's third
event has cursor 3 in the journal, and cursor 1 after a restart. -/
theorem restart_after_completed_turn :
    ∃ tr j, Records ((withStreamId "runtime-a" : SessionEventJournal Unit).withStore ∅) tr j ∧
      eventsOf "session" tr = [.dialogTurnStarted "session" "turn-1" (),
        .dialogTurnCompleted "session" "turn-1" (), .dialogTurnStarted "session" "turn-2" ()] ∧
      (turnStatus (eventsOf "session" tr)).Executing ∧
      (j.snapshot "session").cursor = 3 ∧
      ((j.restart "runtime-b").snapshot "session").cursor = 1 :=
  ⟨_, _, records_recordAll _ [.dialogTurnStarted "session" "turn-1" (),
    .dialogTurnCompleted "session" "turn-1" (), .dialogTurnStarted "session" "turn-2" ()],
    rfl, ⟨rfl, rfl, rfl⟩, rfl, rfl⟩

end SessionJournal

end OpenBitFun
