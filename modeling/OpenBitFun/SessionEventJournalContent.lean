import OpenBitFun.SessionEventJournalBound

/-!
# What a projection keeps of a Turn

As long as nothing is compacted away, the projected events of a Turn say what its recorded events
say: the chunks of a stream make the same text, and of the events that replace each other the last
one is there.
-/

namespace OpenBitFun

open List

namespace SessionJournal

variable {ρ : Type} {events recorded : List (AgenticEvent ρ)} {event : AgenticEvent ρ}

/-! ## Streams and keys -/

/-- A stream of chunks: a round, and which attempt of it. -/
structure ChunkStream where
  roundId : String
  attemptId : Option String
  attemptIndex : Option ℕ
  deriving DecidableEq, Repr

/-- The text of a chunk of a stream. -/
def textOf (stream : ChunkStream) : AgenticEvent ρ → Option String
  | .textChunk _ _ r a i text => if stream = ⟨r, a, i⟩ then some text else none
  | _ => none

/-- The content of a thinking chunk of a stream and a kind. -/
def thinkingOf (stream : ChunkStream) (kind : Option ReasoningContentKind) :
    AgenticEvent ρ → Option String
  | .thinkingChunk _ _ r a i content k _ =>
    if stream = ⟨r, a, i⟩ ∧ kind = k then some content else none
  | _ => none

/-- The partial parameters of a tool call. -/
def paramsOf (toolId : String) : AgenticEvent ρ → Option String
  | .toolEvent _ _ _ _ _ (.paramsPartial identity params) =>
    if identity.toolId = toolId then some params else none
  | _ => none

/-- What some events say in a stream, one after the other. -/
def joined (f : AgenticEvent ρ → Option String) (events : List (AgenticEvent ρ)) : String :=
  String.join (events.filterMap f)

/-- What an event replaces events by. -/
inductive EventKey where
  | roundStarted (roundId : String)
  | roundCompleted (roundId : String)
  | tokenUsage
  | tool (kind : ToolEventKind) (toolId : String)
  deriving DecidableEq, Repr

/-- The key of an event that replaces others; partial parameters are chunks. -/
def eventKey : AgenticEvent ρ → Option EventKey
  | .modelRoundStarted _ _ roundId _ => some (.roundStarted roundId)
  | .modelRoundCompleted _ _ roundId _ => some (.roundCompleted roundId)
  | .tokenUsageUpdated .. => some .tokenUsage
  | .toolEvent _ _ _ _ _ (.paramsPartial ..) => none
  | .toolEvent _ _ _ _ _ toolEvent =>
    some (.tool toolEvent.discriminant (toolEventIdentity toolEvent))
  | _ => none

/-- A chunk of a stream. -/
def isChunk : AgenticEvent ρ → Bool
  | .textChunk .. | .thinkingChunk .. | .toolEvent _ _ _ _ _ (.paramsPartial ..) => true
  | _ => false

/-- The projected events of a Turn say what its recorded events say. -/
structure Content (events recorded : List (AgenticEvent ρ)) : Prop where
  text : ∀ stream, joined (textOf stream) events = joined (textOf stream) recorded
  thinking : ∀ stream kind,
    joined (thinkingOf stream kind) events = joined (thinkingOf stream kind) recorded
  params : ∀ toolId, joined (paramsOf toolId) events = joined (paramsOf toolId) recorded
  /-- Of each key there is the last event, and no other. -/
  keyed : ∀ key, events.filter (eventKey · = some key) =
    (recorded.filter (eventKey · = some key)).getLast?.toList
  /-- The parameters of a tool call are in one event. -/
  paramsOnce : ∀ toolId, (events.filter (isParamsPartialOf toolId)).length ≤ 1

/-! ## What one event does -/

/-- The events of a Turn after one more event of it, before anything is compacted away. -/
inductive Projected (events : List (AgenticEvent ρ)) (event : AgenticEvent ρ) :
    List (AgenticEvent ρ) → Prop
  | pushed (hkey : ∀ key, eventKey event = some key → ∀ x ∈ events, eventKey x ≠ some key)
      (hparams : ∀ toolId, isParamsPartialOf toolId event = true →
        ∀ x ∈ events, isParamsPartialOf toolId x = false) :
      Projected events event (events ++ [event])
  | text {before : List (AgenticEvent ρ)} {s t s' t' r : String} {a : Option String}
      {i : Option ℕ} {accumulated text : String}
      (hevents : events = before ++ [.textChunk s t r a i accumulated])
      (hevent : event = .textChunk s' t' r a i text) :
      Projected events event (before ++ [.textChunk s t r a i (accumulated ++ text)])
  | thinking {before : List (AgenticEvent ρ)} {s t s' t' r : String} {a : Option String}
      {i : Option ℕ} {accumulated content : String} {k : Option ReasoningContentKind}
      {isEnd isEnd' isEnd'' : Bool}
      (hevents : events = before ++ [.thinkingChunk s t r a i accumulated k isEnd])
      (hevent : event = .thinkingChunk s' t' r a i content k isEnd') :
      Projected events event
        (before ++ [.thinkingChunk s t r a i (accumulated ++ content) k isEnd''])
  | params {before behind : List (AgenticEvent ρ)} {s t r s' t' r' : String}
      {a a' : Option String} {i i' : Option ℕ} {identity identity' : ToolEventIdentity}
      {accumulated params : String}
      (hevents : events =
        before ++ .toolEvent s t r a i (.paramsPartial identity accumulated) :: behind)
      (hevent : event = .toolEvent s' t' r' a' i' (.paramsPartial identity' params))
      (htool : identity.toolId = identity'.toolId) :
      Projected events event
        (before ++ .toolEvent s t r a i (.paramsPartial identity (accumulated ++ params)) :: behind)
  | replaced {before behind : List (AgenticEvent ρ)} {x : AgenticEvent ρ}
      (hevents : events = before ++ x :: behind) (hkey : eventKey x = eventKey event)
      (hx : isChunk x = false) (hevent : isChunk event = false) :
      Projected events event (before ++ event :: behind)

/-- An event that replaces those with its key. -/
theorem projected_replaceUnique {isMatch : AgenticEvent ρ → Bool} (hchunk : isChunk event = false)
    (hmatch : ∀ x, isMatch x = true → eventKey x = eventKey event ∧ isChunk x = false)
    (hkey : ∀ x key, eventKey event = some key → eventKey x = some key → isMatch x = true) :
    Projected events event (replaceUnique events event isMatch) := by
  rw [replaceUnique]
  cases hfind : events.findIdx? isMatch with
  | none =>
    have hnone := findIdx?_eq_none_iff.1 hfind
    refine .pushed (fun key hevent x hx heq => ?_) (fun toolId hparams => ?_)
    · exact Bool.false_ne_true ((hnone x hx).symm.trans (hkey x key hevent heq))
    · have hnot : isParamsPartialOf toolId event = false := by
        cases event with
        | toolEvent s t r a i toolEvent =>
          cases toolEvent with
          | paramsPartial => cases hchunk
          | _ => rfl
        | _ => rfl
      exact absurd (hnot.symm.trans hparams) Bool.false_ne_true
  | some index =>
    obtain ⟨hlt, hat, -⟩ := findIdx?_eq_some_iff_getElem.1 hfind
    obtain ⟨heq, hx⟩ := hmatch _ hat
    have hsplit : events = events.take index ++ events[index] :: events.drop (index + 1) := by
      rw [getElem_cons_drop, take_append_drop]
    have hset : events.set index event =
        events.take index ++ event :: events.drop (index + 1) :=
      set_eq_take_append_cons_drop.trans (if_pos hlt)
    dsimp only
    rw [hset]
    exact .replaced hsplit heq hx hchunk

/-- An event that has no key and is no chunk is added. -/
theorem projected_push (hkey : eventKey event = none) (hchunk : isChunk event = false) :
    Projected events event (events ++ [event]) := by
  refine .pushed (fun key hsome => ?_) (fun toolId hparams => ?_)
  · rw [hkey] at hsome
    cases hsome
  · cases event with
    | toolEvent s t r a i toolEvent =>
      cases toolEvent with
      | paramsPartial => cases hchunk
      | _ => cases hparams
    | _ => cases hparams

/-- An event that is accumulated into the last one, or added. -/
theorem projected_accumulateLast {merge : AgenticEvent ρ → Option (AgenticEvent ρ)}
    (hkey : eventKey event = none) (hparams : ∀ toolId, isParamsPartialOf toolId event = false)
    (hmerge : ∀ before last merged, merge last = some merged →
      Projected (before ++ [last]) event (before ++ [merged])) :
    Projected events event (accumulateLast events event merge) := by
  have hpushed : Projected events event (events ++ [event]) := by
    refine .pushed (fun key hsome => ?_) (fun toolId htool => ?_)
    · rw [hkey] at hsome
      cases hsome
    · rw [hparams toolId] at htool
      cases htool
  rw [accumulateLast]
  rcases eq_nil_or_concat events with rfl | ⟨before, last, rfl⟩
  · exact hpushed
  · rw [concat_eq_append] at hpushed ⊢
    rw [getLast?_concat, Option.bind_some, dropLast_concat]
    cases hlast : merge last with
    | none => exact hpushed
    | some merged => exact hmerge before last merged hlast

/-- Partial parameters go to those that are there, or are added. -/
theorem projected_params {s t r params : String} {a : Option String} {i : Option ℕ}
    {identity : ToolEventIdentity} :
    Projected events (.toolEvent s t r a i (.paramsPartial identity params))
      (project events (.toolEvent s t r a i (.paramsPartial identity params))) := by
  rw [project]
  cases hfind : events.findIdx? (isParamsPartialOf identity.toolId) with
  | none =>
    have hnone := findIdx?_eq_none_iff.1 hfind
    refine .pushed (fun key hsome => by cases hsome) (fun toolId htool x hx => ?_)
    have hid : identity.toolId = toolId := decide_eq_true_iff.1 htool
    rw [← hid]
    exact hnone x hx
  | some index =>
    obtain ⟨hlt, hat, -⟩ := findIdx?_eq_some_iff_getElem.1 hfind
    have hsplit : events = events.take index ++ events[index] :: events.drop (index + 1) := by
      rw [getElem_cons_drop, take_append_drop]
    have hmodify : events.modify index (appendParams params) =
        events.take index ++ appendParams params events[index] :: events.drop (index + 1) := by
      rw [modify_eq_set_getElem?, getElem?_eq_getElem hlt]
      exact set_eq_take_append_cons_drop.trans (if_pos hlt)
    dsimp only
    rw [hmodify]
    generalize events[index] = x at hsplit hat
    cases x with
    | toolEvent s' t' r' a' i' toolEvent =>
      cases toolEvent with
      | paramsPartial identity' accumulated =>
        exact .params hsplit rfl (decide_eq_true_iff.1 hat)
      | _ => cases hat
    | _ => cases hat

/-- A tool event that is no partial parameters replaces the one of its variant and call. -/
theorem projected_tool {s t r : String} {a : Option String} {i : Option ℕ}
    {toolEvent : ToolEventData ρ}
    (hchunk : isChunk (.toolEvent s t r a i toolEvent) = false) :
    Projected events (.toolEvent s t r a i toolEvent)
      (replaceUnique events (.toolEvent s t r a i toolEvent) (sameToolEvent toolEvent)) := by
  have hnot : toolEvent.discriminant ≠ .paramsPartial := by
    cases toolEvent with
    | paramsPartial => cases hchunk
    | _ => exact fun h => by cases h
  -- the key of a tool event that is no partial parameters
  have hkeyOf : ∀ s t r a i (x : ToolEventData ρ), x.discriminant ≠ .paramsPartial →
      eventKey (.toolEvent s t r a i x) = some (.tool x.discriminant (toolEventIdentity x)) ∧
        isChunk (.toolEvent s t r a i x) = false := by
    intro s t r a i x hx
    cases x with
    | paramsPartial => exact absurd rfl hx
    | _ => exact ⟨rfl, rfl⟩
  have hkey := (hkeyOf s t r a i toolEvent hnot).1
  refine projected_replaceUnique hchunk (fun x hx => ?_) (fun x key hevent hx => ?_)
  · cases x with
    | toolEvent s' t' r' a' i' candidate =>
      have hsame : toolEventIdentity candidate = toolEventIdentity toolEvent ∧
          candidate.discriminant = toolEvent.discriminant := by
        rw [sameToolEvent] at hx
        split at hx
        · exact (decide_eq_true_iff.1 hx).2
        · exact decide_eq_true_iff.1 hx
      obtain ⟨hcandidate, hother⟩ := hkeyOf s' t' r' a' i' candidate (hsame.2 ▸ hnot)
      rw [hcandidate, hkey, hsame.1, hsame.2]
      exact ⟨rfl, hother⟩
    | _ => cases hx
  · rw [hkey] at hevent
    cases hevent
    cases x with
    | toolEvent s' t' r' a' i' candidate =>
      have hcandidate : candidate.discriminant ≠ .paramsPartial := by
        cases candidate with
        | paramsPartial => cases hx
        | _ => exact fun h => by cases h
      have hsame := (hkeyOf s' t' r' a' i' candidate hcandidate).1.symm.trans hx
      have hkind : candidate.discriminant = toolEvent.discriminant ∧
          toolEventIdentity candidate = toolEventIdentity toolEvent := by
        injection hsame with hsame
        injection hsame with hkind hid
        exact ⟨hkind, hid⟩
      have hcompactable : compactableToolEvent candidate = compactableToolEvent toolEvent := by
        have hof : ∀ x y : ToolEventData ρ, x.discriminant = y.discriminant →
            compactableToolEvent x = compactableToolEvent y := by
          intro x y h
          cases x <;> cases y <;> first | rfl | cases h
        exact hof _ _ hkind.1
      rw [sameToolEvent]
      split
      · rename_i hof
        exact decide_eq_true ⟨hcompactable.trans hof, hkind.2, hkind.1⟩
      · exact decide_eq_true ⟨hkind.2, hkind.1⟩
    | _ => cases hx

/-- What the `match` of `apply_event` does. -/
theorem projected_project (events : List (AgenticEvent ρ)) (event : AgenticEvent ρ) :
    Projected events event (project events event) := by
  cases event with
  | textChunk s t r a i text =>
    refine projected_accumulateLast rfl (fun _ => rfl) fun before last merged hmerge => ?_
    cases last with
    | textChunk s' t' r' a' i' accumulated =>
      rw [mergeText] at hmerge
      split at hmerge
      · rename_i hsame
        obtain ⟨-, rfl, rfl, rfl⟩ := hsame
        cases hmerge
        exact .text rfl rfl
      · cases hmerge
    | _ => cases hmerge
  | thinkingChunk s t r a i content k isEnd =>
    refine projected_accumulateLast rfl (fun _ => rfl) fun before last merged hmerge => ?_
    cases last with
    | thinkingChunk s' t' r' a' i' accumulated k' isEnd' =>
      rw [mergeThinking] at hmerge
      split at hmerge
      · rename_i hsame
        obtain ⟨-, rfl, rfl, rfl, rfl⟩ := hsame
        cases hmerge
        exact .thinking rfl rfl
      · cases hmerge
    | _ => cases hmerge
  | modelRoundStarted s t roundId rest =>
    refine projected_replaceUnique rfl (fun x hx => ?_) (fun x key hevent hx => ?_)
    · cases x with
      | modelRoundStarted s' t' r' rest' =>
        obtain rfl : r' = roundId := decide_eq_true_iff.1 hx
        exact ⟨rfl, rfl⟩
      | _ => cases hx
    · cases hevent
      cases x with
      | modelRoundStarted s' t' r' rest' =>
        cases hx
        exact decide_eq_true rfl
      | toolEvent s' t' r' a' i' toolEvent => cases toolEvent <;> cases hx
      | _ => cases hx
  | modelRoundCompleted s t roundId rest =>
    refine projected_replaceUnique rfl (fun x hx => ?_) (fun x key hevent hx => ?_)
    · cases x with
      | modelRoundCompleted s' t' r' rest' =>
        obtain rfl : r' = roundId := decide_eq_true_iff.1 hx
        exact ⟨rfl, rfl⟩
      | _ => cases hx
    · cases hevent
      cases x with
      | modelRoundCompleted s' t' r' rest' =>
        cases hx
        exact decide_eq_true rfl
      | toolEvent s' t' r' a' i' toolEvent => cases toolEvent <;> cases hx
      | _ => cases hx
  | tokenUsageUpdated s t rest =>
    refine projected_replaceUnique rfl (fun x hx => ?_) (fun x key hevent hx => ?_)
    · cases x with
      | tokenUsageUpdated => exact ⟨rfl, rfl⟩
      | _ => cases hx
    · cases hevent
      cases x with
      | tokenUsageUpdated => rfl
      | toolEvent s' t' r' a' i' toolEvent => cases toolEvent <;> cases hx
      | _ => cases hx
  | toolEvent s t r a i toolEvent =>
    cases toolEvent with
    | paramsPartial identity params => exact projected_params
    | _ => exact projected_tool rfl
  | _ => exact projected_push rfl rfl

/-! ## One event keeps the content -/

theorem joined_append (f : AgenticEvent ρ → Option String) (l l' : List (AgenticEvent ρ)) :
    joined f (l ++ l') = joined f l ++ joined f l' := by
  rw [joined, filterMap_append, String.join_append, joined, joined]

theorem joined_none {f : AgenticEvent ρ → Option String} {l : List (AgenticEvent ρ)}
    (h : ∀ x ∈ l, f x = none) : joined f l = "" := by
  rw [joined, filterMap_eq_nil_iff.2 h]
  rfl

theorem joined_singleton (f : AgenticEvent ρ → Option String) (x : AgenticEvent ρ) :
    joined f [x] = (f x).getD "" := by
  cases hx : f x with
  | none => exact joined_none fun y hy => by rw [mem_singleton.1 hy, hx]
  | some text =>
    rw [joined, filterMap_cons_some hx]
    exact (String.join_cons ..).trans (String.append_empty ..)

/-- One event says what two said before, and nothing of the same is behind it. -/
theorem joined_merged {f : AgenticEvent ρ → Option String} {before behind : List (AgenticEvent ρ)}
    {old merged : AgenticEvent ρ} (hmerged : joined f [merged] = joined f [old] ++ joined f [event])
    (hbehind : f event ≠ none → ∀ x ∈ behind, f x = none) :
    joined f (before ++ merged :: behind) = joined f ((before ++ old :: behind) ++ [event]) := by
  have hcons : ∀ x, x :: behind = [x] ++ behind := fun x => rfl
  rw [hcons merged, hcons old, joined_append, joined_append, hmerged, joined_append, joined_append,
    joined_append]
  cases hevent : f event with
  | none =>
    have hnone : joined f [event] = "" := joined_none fun x hx => by
      rw [mem_singleton.1 hx, hevent]
    rw [hnone, String.append_empty, String.append_empty]
  | some text =>
    rw [joined_none (hbehind (by rw [hevent]; exact Option.some_ne_none text)), String.append_empty,
      String.append_empty, String.append_assoc]

/-- What is no chunk says nothing in any stream. -/
theorem of_not_isChunk {x : AgenticEvent ρ} (h : isChunk x = false) :
    (∀ stream, textOf stream x = none) ∧ (∀ stream kind, thinkingOf stream kind x = none) ∧
      (∀ toolId, paramsOf toolId x = none) ∧ ∀ toolId, isParamsPartialOf toolId x = false := by
  cases x with
  | textChunk => cases h
  | thinkingChunk => cases h
  | toolEvent s t r a i toolEvent =>
    cases toolEvent with
    | paramsPartial => cases h
    | _ => exact ⟨fun _ => rfl, fun _ _ => rfl, fun _ => rfl, fun _ => rfl⟩
  | _ => exact ⟨fun _ => rfl, fun _ _ => rfl, fun _ => rfl, fun _ => rfl⟩

/-- Partial parameters are of one tool call. -/
theorem paramsOf_eq_none_iff {toolId : String} {x : AgenticEvent ρ} :
    paramsOf toolId x = none ↔ isParamsPartialOf toolId x = false := by
  cases x with
  | toolEvent s t r a i toolEvent =>
    cases toolEvent with
    | paramsPartial identity params => simp [paramsOf, isParamsPartialOf]
    | _ => exact iff_of_true rfl rfl
  | _ => exact iff_of_true rfl rfl

/-- In every stream the projected events say what they said, and then what the event says. -/
theorem Projected.joined_eq {events' : List (AgenticEvent ρ)} (h : Projected events event events')
    (honce : ∀ toolId, (events.filter (isParamsPartialOf toolId)).length ≤ 1) :
    (∀ stream, joined (textOf stream) events' =
        joined (textOf stream) (events ++ [event])) ∧
      (∀ stream kind, joined (thinkingOf stream kind) events' =
        joined (thinkingOf stream kind) (events ++ [event])) ∧
      ∀ toolId, joined (paramsOf toolId) events' =
        joined (paramsOf toolId) (events ++ [event]) := by
  cases h with
  | pushed => exact ⟨fun _ => rfl, fun _ _ => rfl, fun _ => rfl⟩
  | text hevents hevent =>
    subst hevents hevent
    refine ⟨fun stream => ?_, fun stream kind => joined_merged rfl fun h => absurd rfl h,
      fun toolId => joined_merged rfl fun h => absurd rfl h⟩
    apply joined_merged
    · rw [joined_singleton, joined_singleton, joined_singleton, textOf, textOf, textOf]
      split
      · rfl
      · rfl
    · exact fun _ x hx => by cases hx
  | thinking hevents hevent =>
    subst hevents hevent
    refine ⟨fun stream => joined_merged rfl fun h => absurd rfl h, fun stream kind => ?_,
      fun toolId => joined_merged rfl fun h => absurd rfl h⟩
    apply joined_merged
    · rw [joined_singleton, joined_singleton, joined_singleton, thinkingOf, thinkingOf, thinkingOf]
      split
      · rfl
      · rfl
    · exact fun _ x hx => by cases hx
  | params hevents hevent htool =>
    rename_i before behind s t r s' t' r' a a' i i' identity identity' accumulated params
    subst hevents hevent
    refine ⟨fun stream => joined_merged rfl fun h => absurd rfl h,
      fun stream kind => joined_merged rfl fun h => absurd rfl h, fun toolId => ?_⟩
    apply joined_merged
    · rw [joined_singleton, joined_singleton, joined_singleton, paramsOf, paramsOf, paramsOf, htool]
      split
      · rfl
      · rfl
    · -- the parameters of the call are in one event, so none of them is behind it
      intro hevent x hx
      have hid : identity.toolId = toolId := by
        by_contra hne
        rw [htool] at hne
        exact hevent (if_neg hne)
      have hmatch : isParamsPartialOf toolId
          (.toolEvent s t r a i (.paramsPartial identity accumulated) : AgenticEvent ρ) = true :=
        decide_eq_true hid
      have hlength := honce toolId
      rw [filter_append, filter_cons_of_pos hmatch, length_append,
        length_cons] at hlength
      have hnone : behind.filter (isParamsPartialOf toolId) = [] :=
        eq_nil_of_length_eq_zero (by omega)
      rw [paramsOf_eq_none_iff]
      exact Bool.eq_false_iff.2 (filter_eq_nil_iff.1 hnone x hx)
  | replaced hevents hkey hx hevent =>
    subst hevents
    obtain ⟨htext, hthinking, hparams, -⟩ := of_not_isChunk hx
    obtain ⟨htext', hthinking', hparams', -⟩ := of_not_isChunk hevent
    have hnone : ∀ {f : AgenticEvent ρ → Option String} {x : AgenticEvent ρ}, f x = none →
        joined f [x] = "" := by
      intro f x hnone
      exact joined_none fun y hy => by rw [mem_singleton.1 hy, hnone]
    refine ⟨fun stream => joined_merged ?_ fun h => absurd (htext' stream) h,
      fun stream kind => joined_merged ?_ fun h => absurd (hthinking' stream kind) h,
      fun toolId => joined_merged ?_ fun h => absurd (hparams' toolId) h⟩
    · rw [hnone (htext stream), hnone (htext' stream), String.append_empty]
    · rw [hnone (hthinking stream kind), hnone (hthinking' stream kind), String.append_empty]
    · rw [hnone (hparams toolId), hnone (hparams' toolId), String.append_empty]

/-- Of every key the event takes the place of the one before it. -/
theorem Projected.filter_eventKey {events' : List (AgenticEvent ρ)}
    (h : Projected events event events') {key : EventKey}
    (honce : (events.filter (eventKey · = some key)).length ≤ 1) :
    events'.filter (eventKey · = some key) =
      if eventKey event = some key then [event] else events.filter (eventKey · = some key) := by
  -- a chunk has no key
  have hmerged : ∀ {before behind : List (AgenticEvent ρ)} {old merged : AgenticEvent ρ},
      eventKey old = none → eventKey merged = none → eventKey event = none →
      (before ++ merged :: behind).filter (eventKey · = some key) =
        if eventKey event = some key then [event]
        else (before ++ old :: behind).filter (eventKey · = some key) := by
    intro before behind old merged hold hnew hevent
    rw [hevent, if_neg (by simp), filter_append, filter_append,
      filter_cons_of_neg (by simp [hnew]), filter_cons_of_neg (by simp [hold])]
  cases h with
  | pushed hkey hparams =>
    rw [filter_append]
    split
    · rename_i hevent
      have hnone : events.filter (eventKey · = some key) = [] :=
        filter_eq_nil_iff.2 fun x hx heq => hkey key hevent x hx (decide_eq_true_iff.1 heq)
      rw [hnone, nil_append, filter_cons_of_pos (by simp [hevent]), filter_nil]
    · rename_i hevent
      rw [filter_cons_of_neg (by simp [hevent]), filter_nil, append_nil]
  | text hevents hevent =>
    subst hevents hevent
    exact hmerged rfl rfl rfl
  | thinking hevents hevent =>
    subst hevents hevent
    exact hmerged rfl rfl rfl
  | params hevents hevent =>
    subst hevents hevent
    exact hmerged rfl rfl rfl
  | replaced hevents hkey hx hchunk =>
    subst hevents
    split
    · rename_i hevent
      rw [filter_append, filter_cons_of_pos (by simp [hkey, hevent]), length_append,
        length_cons] at honce
      rw [filter_append, filter_cons_of_pos (by simp [hevent]),
        eq_nil_of_length_eq_zero (show (List.filter _ _).length = 0 by omega),
        eq_nil_of_length_eq_zero (show (List.filter _ _).length = 0 by omega), nil_append]
    · rename_i hevent
      rw [filter_append, filter_append, filter_cons_of_neg (by simp [hevent]),
        filter_cons_of_neg (by simp [hkey, hevent])]

/-- The parameters of a tool call stay in one event. -/
theorem Projected.paramsOnce {events' : List (AgenticEvent ρ)}
    (h : Projected events event events') {toolId : String}
    (honce : (events.filter (isParamsPartialOf toolId)).length ≤ 1) :
    (events'.filter (isParamsPartialOf toolId)).length ≤ 1 := by
  -- an event takes the place of one that is parameters of the call just as it is
  have hsame : ∀ {before behind : List (AgenticEvent ρ)} {old merged : AgenticEvent ρ},
      ((before ++ old :: behind).filter (isParamsPartialOf toolId)).length ≤ 1 →
      isParamsPartialOf toolId merged = isParamsPartialOf toolId old →
      ((before ++ merged :: behind).filter (isParamsPartialOf toolId)).length ≤ 1 := by
    intro before behind old merged hle heq
    rw [← countP_eq_length_filter, countP_append, countP_cons] at hle ⊢
    rwa [heq]
  cases h with
  | pushed hkey hparams =>
    rw [filter_append, length_append]
    by_cases htool : isParamsPartialOf toolId event = true
    · have hnone : events.filter (isParamsPartialOf toolId) = [] :=
        filter_eq_nil_iff.2 fun x hx => Bool.eq_false_iff.1 (hparams toolId htool x hx)
      rw [hnone]
      exact (Nat.zero_add _).trans_le (length_filter_le _ _)
    · rw [filter_cons_of_neg htool]
      exact honce
  | text hevents hevent =>
    subst hevents hevent
    exact hsame honce rfl
  | thinking hevents hevent =>
    subst hevents hevent
    exact hsame honce rfl
  | params hevents hevent =>
    subst hevents hevent
    exact hsame honce rfl
  | replaced hevents hkey hx hchunk =>
    subst hevents
    refine hsame honce ?_
    rw [(of_not_isChunk hx).2.2.2 toolId, (of_not_isChunk hchunk).2.2.2 toolId]

theorem Content.projected {events' : List (AgenticEvent ρ)} (h : Content events recorded)
    (hstep : Projected events event events') : Content events' (recorded ++ [event]) := by
  obtain ⟨htext, hthinking, hparams⟩ := hstep.joined_eq h.paramsOnce
  refine ⟨fun stream => ?_, fun stream kind => ?_, fun toolId => ?_, fun key => ?_,
    fun toolId => hstep.paramsOnce (h.paramsOnce toolId)⟩
  · rw [htext, joined_append, joined_append, h.text]
  · rw [hthinking, joined_append, joined_append, h.thinking]
  · rw [hparams, joined_append, joined_append, h.params]
  · have honce : (events.filter (eventKey · = some key)).length ≤ 1 := by
      rw [h.keyed]
      cases (recorded.filter (eventKey · = some key)).getLast? with
      | none => exact Nat.zero_le 1
      | some x => exact Nat.le_refl 1
    rw [hstep.filter_eventKey honce, filter_append]
    split
    · rename_i hevent
      rw [filter_cons_of_pos (by simp [hevent]), filter_nil, getLast?_concat]
      rfl
    · rename_i hevent
      rw [filter_cons_of_neg (by simp [hevent]), filter_nil, append_nil, h.keyed]

/-! ## Runs -/

/-- The Turn a session shows. -/
def SessionEventJournal.currentTurn (j : SessionEventJournal ρ) (sessionId : String) :
    Option String :=
  (j.projection sessionId).bind (·.activeTurnId)

/-- The events of a Turn after one more event of it, before `compactProjection`. -/
def uncompacted (events : List (AgenticEvent ρ)) (turnId : String) (event : AgenticEvent ρ) :
    List (AgenticEvent ρ) :=
  if startsTurn event then replaceUnique events event (isStartOf turnId) else project events event

/-- A `record` in which the list of a session is not over the limit, not even for a moment. -/
def WithinLimit (sessionId : String) (j : SessionEventJournal ρ)
    (label : AgenticEvent ρ × Option SessionEventCursor) (j' : SessionEventJournal ρ) : Prop :=
  j.record label.1 = (label.2, j') ∧ ∀ turnId, label.1.sessionId = some sessionId →
    materializes label.1 = true → eventTurnId label.1 = some turnId →
      (uncompacted (((j.projection sessionId).getD {}).eventsOfTurn turnId) turnId label.1).length ≤
        MAX_PROJECTED_EVENTS_PER_SESSION

theorem projected_uncompacted (events : List (AgenticEvent ρ)) (turnId : String)
    (event : AgenticEvent ρ) : Projected events event (uncompacted events turnId event) := by
  rw [uncompacted]
  split
  · cases event with
    | dialogTurnStarted s t rest =>
      refine projected_replaceUnique rfl (fun x hx => ?_) fun x key hevent => by cases hevent
      cases x with
      | dialogTurnStarted => exact ⟨rfl, rfl⟩
      | _ => cases hx
    | _ => contradiction
  · exact projected_project events event

theorem nextEvents_eq_uncompacted {turnId : String}
    (h : (uncompacted events turnId event).length ≤ MAX_PROJECTED_EVENTS_PER_SESSION) :
    nextEvents events turnId event = uncompacted events turnId event := by
  rw [uncompacted] at h ⊢
  rw [nextEvents]
  split
  · rfl
  · rename_i hstart
    rw [if_neg hstart] at h
    exact if_pos h

/-- Before a Turn there is nothing to say. -/
theorem Content.nil : Content ([] : List (AgenticEvent ρ)) [] :=
  ⟨fun _ => rfl, fun _ _ => rfl, fun _ => rfl, fun _ => rfl, fun _ => Nat.zero_le _⟩

/-- A session that shows a Turn after pruning was not pruned. -/
theorem Pruned.eq_of_active {before after : Option (SessionProjection ρ)} (h : Pruned before after)
    {turnId : String} (hactive : after.bind (·.activeTurnId) = some turnId) : after = before := by
  rcases h with heq | ⟨p, -, -, -, rfl⟩
  · exact heq
  · cases hactive

/-- The record of an event of a session that is materialized, or of another event. -/
theorem record_of_currentTurn {j : SessionEventJournal ρ} {sessionId turnId : String}
    (hactive : (j.record event).2.currentTurn sessionId = some turnId) :
    (event.sessionId = some sessionId ∧ materializes event = true ∧
      eventTurnId event = some turnId ∧
      ∃ sequence, (j.record event).2.projection sessionId =
        some (((j.projection sessionId).getD {}).after turnId event sequence)) ∨
    (¬ (event.sessionId = some sessionId ∧ materializes event = true) ∧
      (j.record event).2.projection sessionId = j.projection sessionId) := by
  by_cases hdel : isSessionDeleted event = true
  · have hnot : materializes event = false := by
      cases event with
      | sessionDeleted => rfl
      | _ => cases hdel
    obtain ⟨id, hid⟩ : ∃ id, event.sessionId = some id := by
      cases event with
      | sessionDeleted id => exact ⟨id, rfl⟩
      | _ => cases hdel
    refine .inr ⟨fun h => Bool.false_ne_true (hnot.symm.trans h.2), ?_⟩
    have hprojection := (record_of_deleted hid hdel j).2.2 sessionId
    rw [SessionEventJournal.currentTurn, hprojection] at hactive
    rw [hprojection]
    split
    · -- a deleted session shows no Turn
      rename_i hsame
      rw [if_pos hsame] at hactive
      cases hp : j.projection id with
      | none =>
        rw [hp] at hactive
        cases hactive
      | some p =>
        rw [hp] at hactive
        cases hactive
    · rfl
  · have hdel := Bool.eq_false_iff.2 hdel
    by_cases hmat : materializes event = true
    · obtain ⟨turn, hturn⟩ : ∃ turn, eventTurnId event = some turn := by
        rw [materializes, Bool.and_eq_true] at hmat
        exact Option.isSome_iff_exists.1 hmat.1
      obtain ⟨id, hid⟩ : ∃ id, event.sessionId = some id := by
        cases event <;> first | exact ⟨_, rfl⟩ | cases hturn
      have hprune := pruned_prune (j.state.sessions.insert id
        (((j.projection id).getD {}).after turn event (saturatingSucc j.state.sequence))) sessionId
      have hrecord := @record_of_materializes ρ j _ event turn id hid hmat hturn rfl
      have hprojection : (j.record event).2.projection sessionId =
          (pruneTerminalProjections (j.state.sessions.insert id (((j.projection id).getD {}).after
            turn event (saturatingSucc j.state.sequence)))).lookup sessionId := by
        rw [hrecord]
        rfl
      rw [SessionEventJournal.currentTurn, hprojection] at hactive
      have heq := hprune.eq_of_active hactive
      rw [heq, AssocMap.lookup_insert] at hactive
      rw [hprojection, heq, AssocMap.lookup_insert]
      split
      · rename_i hsame
        rw [if_pos hsame] at hactive
        obtain rfl : sessionId = id := hsame
        obtain rfl : turn = turnId := Option.some.inj hactive
        exact .inl ⟨hid, hmat, hturn, _, rfl⟩
      · rename_i hother
        refine .inr ⟨fun h => hother ?_, rfl⟩
        exact Option.some.inj (h.1.symm.trans hid)
    · have hmat := Bool.eq_false_iff.2 hmat
      rw [record_of_not_materializes hdel hmat]
      exact .inr ⟨fun h => Bool.false_ne_true (hmat.symm.trans h.2), rfl⟩

/-- One more `record` keeps the content of a Turn that is shown after it. -/
theorem Content.record {sessionId turnId : String} {j j' : SessionEventJournal ρ}
    {tr : List (AgenticEvent ρ × Option SessionEventCursor)}
    {label : AgenticEvent ρ × Option SessionEventCursor}
    (h : Content (((j.projection sessionId).getD {}).eventsOfTurn turnId)
      ((eventsOf sessionId tr).filter materializes))
    (hstep : WithinLimit sessionId j label j')
    (hactive : j'.currentTurn sessionId = some turnId) :
    Content (((j'.projection sessionId).getD {}).eventsOfTurn turnId)
      ((eventsOf sessionId (tr ++ [label])).filter materializes) := by
  obtain ⟨hrecord, hlimit⟩ := hstep
  have hj' : (j.record label.1).2 = j' := by rw [hrecord]
  rw [← hj'] at hactive
  rw [eventsOf_concat, filter_append, ← hj']
  rcases record_of_currentTurn hactive with ⟨hid, hmat, hturn, sequence, hp⟩ | ⟨hnot, hp⟩
  · have hnext := nextEvents_eq_uncompacted (hlimit turnId hid hmat hturn)
    rw [hp, Option.getD_some, SessionProjection.eventsOfTurn, SessionProjection.after_activeTurnId,
      if_pos rfl, SessionProjection.after_events, hnext, if_pos hid, filter_cons_of_pos hmat,
      filter_nil]
    exact h.projected (projected_uncompacted _ turnId label.1)
  · have hnone : (if label.1.sessionId = some sessionId then [label.1] else []).filter
        materializes = [] := by
      split
      · rename_i hid
        exact filter_cons_of_neg fun hmat => hnot ⟨hid, hmat⟩
      · rfl
    rw [hp, hnone, append_nil]
    exact h

/-- In every run in which the list of a session is never over the limit, the snapshot says what was
recorded since its Turn became active. The Turn of an event is shown after it, and a session that
was deleted or pruned shows none, so the events since then are of this Turn. -/
theorem content_kept (store : Option (ProjectionStore ρ)) {streamId sessionId turnId : String}
    {tr : List (AgenticEvent ρ × Option SessionEventCursor)} {j' : SessionEventJournal ρ}
    (h : Run (WithinLimit sessionId) { withStreamId streamId with store } tr j')
    (hactive : j'.currentTurn sessionId = some turnId) :
    ∃ before since j, tr = before ++ since ∧
      Run (WithinLimit sessionId) { withStreamId streamId with store } before j ∧
      j.currentTurn sessionId ≠ some turnId ∧
      Run (fun j label j' => WithinLimit sessionId j label j' ∧
        j'.currentTurn sessionId = some turnId) j since j' ∧
      (j'.snapshot sessionId).activeTurnId = some turnId ∧
      Content (j'.snapshot sessionId).events
        ((eventsOf sessionId since).filter materializes) := by
  suffices hsince : ∃ before since j, tr = before ++ since ∧
      Run (WithinLimit sessionId) { withStreamId streamId with store } before j ∧
      j.currentTurn sessionId ≠ some turnId ∧
      Run (fun j label j' => WithinLimit sessionId j label j' ∧
        j'.currentTurn sessionId = some turnId) j since j' ∧
      Content (((j'.projection sessionId).getD {}).eventsOfTurn turnId)
        ((eventsOf sessionId since).filter materializes) by
    obtain ⟨before, since, j, htr, hbefore, hinactive, hrun, hcontent⟩ := hsince
    refine ⟨before, since, j, htr, hbefore, hinactive, hrun, ?_⟩
    obtain ⟨p, hp, hturn⟩ := Option.bind_eq_some_iff.1 hactive
    have hsome : (j'.state.sessions.lookup sessionId).isSome = true := by
      change (j'.projection sessionId).isSome = true
      rw [hp]
      rfl
    rw [hp, Option.getD_some, SessionProjection.eventsOfTurn, if_pos hturn] at hcontent
    rw [SessionEventJournal.snapshot, if_pos hsome]
    change ((j'.projection sessionId).bind (·.activeTurnId)) = some turnId ∧
      Content (((j'.projection sessionId).map (·.events)).getD []) _
    rw [hp]
    exact ⟨hturn, hcontent⟩
  induction h with
  | refl => cases hactive
  | @step tr j label j' hrun hstep ih =>
    by_cases hshown : j.currentTurn sessionId = some turnId
    · obtain ⟨before, since, j₀, rfl, hbefore, hinactive, hsince, hcontent⟩ := ih hshown
      exact ⟨before, since ++ [label], j₀, append_assoc .., hbefore, hinactive,
        hsince.step ⟨hstep, hactive⟩, hcontent.record hstep hactive⟩
    · -- the first event of the Turn
      have hempty : ((j.projection sessionId).getD {}).eventsOfTurn turnId = [] := by
        rw [SessionProjection.eventsOfTurn]
        refine if_neg fun hturn => hshown ?_
        rw [SessionEventJournal.currentTurn]
        cases hp : j.projection sessionId with
        | none =>
          rw [hp] at hturn
          cases hturn
        | some p =>
          rw [hp] at hturn
          exact hturn
      have hcontent : Content (((j.projection sessionId).getD {}).eventsOfTurn turnId)
          ((eventsOf sessionId []).filter materializes) := by
        rw [hempty]
        exact Content.nil
      exact ⟨tr, [label], j, rfl, hrun, hshown, Run.single ⟨hstep, hactive⟩,
        @Content.record _ _ _ _ _ [] _ hcontent hstep hactive⟩

/-- Two chunks of a stream, which the snapshot shows as one. -/
theorem content_kept_two_chunks : ∃ (j' : SessionEventJournal Unit) (since : _),
    (j'.snapshot "session").events =
      [.textChunk "session" "turn-1" "round" none none "hello"] ∧
    Content (j'.snapshot "session").events
      ((eventsOf "session" since).filter materializes) := by
  let start : SessionEventJournal Unit := { withStreamId "runtime-a" with store := none }
  let hel : AgenticEvent Unit := .textChunk "session" "turn-1" "round" none none "hel"
  let lo : AgenticEvent Unit := .textChunk "session" "turn-1" "round" none none "lo"
  have hlimit : ∀ events : List (AgenticEvent Unit), events.length ≤ 1 →
      events.length ≤ MAX_PROJECTED_EVENTS_PER_SESSION := fun events h => h.trans (by decide)
  have hhel : WithinLimit "session" start (hel, (start.record hel).1) (start.record hel).2 := by
    refine ⟨rfl, fun turnId _ _ hturn => hlimit _ ?_⟩
    cases hturn
    exact Nat.le_refl 1
  have hlo : WithinLimit "session" (start.record hel).2 (lo, ((start.record hel).2.record lo).1)
      ((start.record hel).2.record lo).2 := by
    refine ⟨rfl, fun turnId _ _ hturn => hlimit _ ?_⟩
    cases hturn
    exact Nat.le_refl 1
  obtain ⟨before, since, j, -, -, -, -, -, hcontent⟩ :=
    @content_kept Unit none "runtime-a" "session" "turn-1" _ _ ((Run.single hhel).step hlo) rfl
  exact ⟨_, since, rfl, hcontent⟩

end SessionJournal

end OpenBitFun
