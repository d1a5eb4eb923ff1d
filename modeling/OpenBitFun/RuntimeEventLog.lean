import Mathlib
import OpenBitFun.AgenticEvent
import OpenBitFun.Text

/-!
# The log of runtime events

A session's runtime events are logged one JSON record a line (`session_projection_format.rs`). A
runtime that starts anew goes on in the same file with a stream of its own, which replaces what the
older ones wrote. `validate_runtime_event_log` reads a log up to the line that was cut short when
the runtime died, and sums up the last stream.
-/

namespace OpenBitFun

open List

namespace RuntimeEventLog

variable {ρ : Type}

/-- `LoggedEvent` -/
structure LoggedEvent (ρ : Type) where
  streamId : String
  cursor : ℕ
  event : AgenticEvent ρ

/-- The errors of the storage. -/
inductive StorageError where
  | io (message : String)
  | validation (message : String)
  deriving DecidableEq, Repr

/-- `RuntimeEventLogSummary` -/
structure RuntimeEventLogSummary where
  streamId : String
  eventCount : ℕ
  turnIds : Finset String
  deriving DecidableEq

/-- What the loop has found so far. -/
structure Progress where
  streamId : Option String := none
  eventCount : ℕ := 0
  turnIds : Finset String := ∅

/-- What the loop does with a record of the session. -/
def Progress.add (progress : Progress) (record : LoggedEvent ρ) : Progress :=
  let turnIds := match record.event.turnId with
    | some turnId => insert turnId progress.turnIds
    | none => progress.turnIds
  match progress.streamId with
  | some current =>
    if current ≠ record.streamId then
      { streamId := some record.streamId, eventCount := 0 + 1, turnIds := ∅ }
    else { progress with eventCount := progress.eventCount + 1, turnIds }
  | none => { streamId := some record.streamId, eventCount := progress.eventCount + 1, turnIds }

/-- Whether an event names another session. -/
def isForeign (expectedSessionId : String) (record : LoggedEvent ρ) : Bool :=
  record.event.sessionId.any fun sessionId => sessionId != expectedSessionId

/-- `line.trim().is_empty()` -/
def isBlank (line : String) : Bool := (Text.trim line.toList).isEmpty

section Validate

/-! A line is its text, or the error of reading it: a disk error, or bytes that are not UTF-8. The
records are parsed by `serde_json`, a parameter. -/

variable (fromStr : String → Option (LoggedEvent ρ)) (path expectedSessionId : String)

/-- The loop over the lines. -/
def readLines : (lineIndex : ℕ) → Progress → List (Except String String) →
    Except StorageError Progress
  | _, progress, [] => .ok progress
  | lineIndex, _, .error error :: _ =>
    .error (.io ("Failed to read runtime event log " ++ path ++ " at line " ++
      toString (lineIndex + 1) ++ ": " ++ error))
  | lineIndex, progress, .ok line :: lines =>
    if isBlank line then readLines (lineIndex + 1) progress lines
    else match fromStr line with
      | none => .ok progress
      | some record =>
        if isForeign expectedSessionId record then
          .error (.validation ("Runtime event log " ++ path ++ " contains a different Session id"))
        else readLines (lineIndex + 1) (progress.add record) lines

/-- `validate_runtime_event_log`; the file's lines, or the error of opening it. -/
def validateRuntimeEventLog (file : Except String (List (Except String String))) :
    Except StorageError RuntimeEventLogSummary :=
  match file with
  | .error error =>
    .error (.io ("Failed to open runtime event log " ++ path ++ ": " ++ error))
  | .ok lines => do
    let progress ← readLines fromStr path expectedSessionId 0 {} lines
    match progress.streamId with
    | some streamId => .ok ⟨streamId, progress.eventCount, progress.turnIds⟩
    | none => .error (.validation ("Runtime event log " ++ path ++ " contains no events"))

end Validate

/-! ## What a log says -/

section Spec

variable (fromStr : String → Option (LoggedEvent ρ))

/-- The readable prefix: the records up to the first line that is none. -/
def readablePrefix : List (Except String String) → List (LoggedEvent ρ)
  | [] => []
  | .error _ :: _ => []
  | .ok line :: lines =>
    if isBlank line then readablePrefix lines
    else match fromStr line with
      | none => []
      | some record => record :: readablePrefix lines

/-- Whether the readable prefix ends at a line that cannot even be read as text. -/
def endsUnreadable : List (Except String String) → Bool
  | [] => false
  | .error _ :: _ => true
  | .ok line :: lines =>
    if isBlank line then endsUnreadable lines
    else match fromStr line with
      | none => false
      | some _ => endsUnreadable lines

end Spec

/-- The longest end of a list of records that is of the last record's stream. -/
def lastRun (records : List (LoggedEvent ρ)) : List (LoggedEvent ρ) :=
  match records.getLast? with
  | none => []
  | some last => records.rtakeWhile fun record => record.streamId = last.streamId

/-- The turns of some records. -/
def turnsOf (records : List (LoggedEvent ρ)) : Finset String :=
  (records.filterMap fun record => record.event.turnId).toFinset

/-! ### One more record -/

section Snoc

variable (records : List (LoggedEvent ρ)) (record : LoggedEvent ρ)

theorem lastRun_snoc : lastRun (records ++ [record]) =
    (records.rtakeWhile fun x => x.streamId = record.streamId) ++ [record] := by
  rw [lastRun, getLast?_concat]
  exact rtakeWhile_concat_pos _ _ _ (decide_eq_true rfl)

/-- A record of the same stream joins the run. -/
theorem lastRun_snoc_same {last : LoggedEvent ρ} (hlast : records.getLast? = some last)
    (hsame : last.streamId = record.streamId) :
    lastRun (records ++ [record]) = lastRun records ++ [record] := by
  rw [lastRun_snoc, lastRun, hlast, ← hsame]

/-- A record of another stream begins a new run. -/
theorem lastRun_snoc_other {last : LoggedEvent ρ} (hlast : records.getLast? = some last)
    (hother : last.streamId ≠ record.streamId) : lastRun (records ++ [record]) = [record] := by
  obtain ⟨before, rfl⟩ := getLast?_eq_some_iff.1 hlast
  rw [lastRun_snoc, rtakeWhile_concat_neg _ _ _ (by simpa using hother), nil_append]

theorem turnsOf_snoc : turnsOf (records ++ [record]) = match record.event.turnId with
    | some turnId => insert turnId (turnsOf records)
    | none => turnsOf records := by
  rw [turnsOf, filterMap_append]
  cases h : record.event.turnId with
  | none => simp [turnsOf, h]
  | some turnId =>
    ext turn
    simp [turnsOf, h]

end Snoc

/-- The records whose turns the loop keeps: where the stream has changed, not the first of the run,
since the turns are cleared after that record's turn is in. -/
def counted (records : List (LoggedEvent ρ)) : List (LoggedEvent ρ) :=
  if (lastRun records).length < records.length then (lastRun records).tail else lastRun records

/-- What the loop has found in some records. -/
theorem foldl_add (records : List (LoggedEvent ρ)) :
    records.foldl Progress.add {} =
      { streamId := records.getLast?.map (·.streamId)
        eventCount := (lastRun records).length
        turnIds := turnsOf (counted records) } := by
  induction records using List.reverseRecOn with
  | nil => rfl
  | append_singleton records record ih =>
    rw [foldl_append, ih, foldl_cons, foldl_nil, Progress.add]
    have hsnoc := turnsOf_snoc (counted records) record
    cases hlast : records.getLast? with
    | none =>
      rw [getLast?_eq_none_iff] at hlast
      subst hlast
      have hrun : lastRun [record] = [record] := by simpa using lastRun_snoc [] record
      have hcounted : counted [record] = [record] := by
        rw [counted, hrun, if_neg (lt_irrefl _)]
      rw [nil_append, hrun, hcounted]
      exact congrArg (Progress.mk (some record.streamId) 1) hsnoc.symm
    | some last =>
      have hne : records ≠ [] := by
        rintro rfl
        cases hlast
      rw [getLast?_concat, Option.map_some, Option.map_some]
      by_cases hsame : last.streamId = record.streamId
      · have hrun := lastRun_snoc_same records record hlast hsame
        have hcounted : counted (records ++ [record]) = counted records ++ [record] := by
          have hpos : lastRun records ≠ [] := by
            rw [lastRun, hlast]
            obtain ⟨before, rfl⟩ := getLast?_eq_some_iff.1 hlast
            simp
          rw [counted, counted, hrun, length_append, length_append]
          simp only [Nat.add_lt_add_iff_right]
          split_ifs
          · exact tail_append_of_ne_nil hpos
          · rfl
        rw [hcounted, hsnoc, hrun, length_append]
        dsimp only
        rw [if_neg (not_not_intro hsame), hsame]
        rfl
      · have hrun := lastRun_snoc_other records record hlast hsame
        have hcounted : counted (records ++ [record]) = [] := by
          rw [counted, hrun, if_pos]
          · rfl
          · rw [length_append]
            have := length_pos_of_ne_nil hne
            simpa using this
        rw [hcounted, hrun]
        dsimp only
        rw [if_pos hsame]
        rfl

/-! ## The summary -/

section Summary

variable {fromStr : String → Option (LoggedEvent ρ)} {expectedSessionId : String}

/-- The loop takes in the readable prefix, unless that ends at a line that is no text. -/
theorem readLines_eq (path : String) (lines : List (Except String String)) :
    ∀ lineIndex progress, (∀ record ∈ readablePrefix fromStr lines,
      isForeign expectedSessionId record = false) →
      (endsUnreadable fromStr lines = false →
        readLines fromStr path expectedSessionId lineIndex progress lines =
          .ok ((readablePrefix fromStr lines).foldl Progress.add progress)) ∧
      (endsUnreadable fromStr lines = true → ∃ error,
        readLines fromStr path expectedSessionId lineIndex progress lines = .error error) := by
  induction lines with
  | nil => exact fun _ _ _ => ⟨fun _ => rfl, fun h => absurd h Bool.false_ne_true⟩
  | cons line lines ih =>
    intro lineIndex progress hsession
    cases line with
    | error error => exact ⟨fun h => absurd h.symm Bool.false_ne_true, fun _ => ⟨_, rfl⟩⟩
    | ok line =>
      rw [readablePrefix] at hsession ⊢
      rw [endsUnreadable, readLines]
      by_cases hblank : isBlank line
      · simp only [hblank, if_true] at hsession ⊢
        exact ih _ _ hsession
      · simp only [hblank, if_false, Bool.false_eq_true] at hsession ⊢
        cases hparse : fromStr line with
        | none => exact ⟨fun _ => rfl, fun h => absurd h Bool.false_ne_true⟩
        | some record =>
          rw [hparse] at hsession
          obtain ⟨hrecord, hrest⟩ := forall_mem_cons.1 hsession
          simp only [hrecord, Bool.false_eq_true, if_false]
          exact ih _ _ hrest

/-- What the summary of a log should say: there is one when there are records, of the stream of the
last of them, with the number and the turns of the stream's records. -/
def DescribesLastStream (summary : Except StorageError RuntimeEventLogSummary)
    (records : List (LoggedEvent ρ)) : Prop :=
  ((∃ s, summary = .ok s) ↔ records ≠ []) ∧
    ∀ s, summary = .ok s → records.getLast?.map (·.streamId) = some s.streamId ∧
      s.eventCount = (lastRun records).length ∧ s.turnIds = turnsOf (lastRun records)

/-- Where the stream changes, the first record of the last stream has no turn, or one that occurs
again in the stream. -/
def FirstTurnRecurs (records : List (LoggedEvent ρ)) : Prop :=
  (lastRun records).length < records.length →
    ∀ turn, ((lastRun records).head?.bind fun record => record.event.turnId) = some turn →
      turn ∈ turnsOf (lastRun records).tail

/-- Leaving the first record out changes nothing exactly when its turn recurs. -/
theorem turnsOf_counted (records : List (LoggedEvent ρ)) :
    turnsOf (counted records) = turnsOf (lastRun records) ↔ FirstTurnRecurs records := by
  rw [counted, FirstTurnRecurs]
  split_ifs with hlt
  · rw [forall_prop_of_true hlt]
    cases lastRun records with
    | nil => simp
    | cons record run =>
      rw [tail_cons, head?_cons, Option.bind_some]
      cases hturn : record.event.turnId with
      | none => simp [turnsOf, hturn]
      | some turn =>
        have hcons : turnsOf (record :: run) = insert turn (turnsOf run) := by
          simp [turnsOf, hturn]
        rw [hcons, eq_comm, Finset.insert_eq_self]
        simp
  · exact iff_of_true rfl fun h => absurd h hlt

/-- The summary of a log of one session describes the last stream exactly when the log has no
records, or does not end in the middle of a character and loses no turn where the stream changes. -/
theorem describesLastStream_iff (fromStr : String → Option (LoggedEvent ρ))
    (path expectedSessionId : String) (lines : List (Except String String))
    (hsession : ∀ record ∈ readablePrefix fromStr lines,
      isForeign expectedSessionId record = false) :
    DescribesLastStream (validateRuntimeEventLog fromStr path expectedSessionId (.ok lines))
        (readablePrefix fromStr lines) ↔
      readablePrefix fromStr lines = [] ∨ endsUnreadable fromStr lines = false ∧
        FirstTurnRecurs (readablePrefix fromStr lines) := by
  obtain ⟨hreadable, hunreadable⟩ := readLines_eq path lines 0 {} hsession
  rw [validateRuntimeEventLog]
  cases hend : endsUnreadable fromStr lines with
  | true =>
    obtain ⟨error, herror⟩ := hunreadable hend
    simp only [herror]
    refine ⟨fun h => Or.inl ?_, fun h => ⟨iff_of_false ?_ (not_not_intro ?_), ?_⟩⟩
    · by_contra hne
      obtain ⟨s, hs⟩ := h.1.2 hne
      cases hs
    · rintro ⟨s, hs⟩
      cases hs
    · exact h.resolve_right fun h => Bool.noConfusion h.1
    · intro s hs
      cases hs
  | false =>
    rw [hreadable hend, foldl_add]
    cases hlast : (readablePrefix fromStr lines).getLast? with
    | none =>
      have hnil := getLast?_eq_none_iff.1 hlast
      refine iff_of_true ⟨iff_of_false ?_ (not_not_intro hnil), ?_⟩ (Or.inl hnil)
      · rintro ⟨s, hs⟩
        cases hs
      · intro s hs
        cases hs
    | some last =>
      have hne : readablePrefix fromStr lines ≠ [] := by
        intro hnil
        rw [hnil] at hlast
        cases hlast
      rw [or_iff_right hne, and_iff_right rfl, ← turnsOf_counted, DescribesLastStream, hlast]
      refine ⟨fun h => (h.2 _ rfl).2.2, fun h => ⟨iff_of_true ⟨_, rfl⟩ hne, ?_⟩⟩
      rintro s ⟨⟩
      exact ⟨rfl, rfl, h⟩

end Summary

/-! ### A restarted runtime -/

/-- The line of a record that says that a turn was cancelled. -/
def cancelledLine (streamId cursor turnId : String) : String :=
  "\x7b\"streamId\":\"" ++ streamId ++ "\",\"cursor\":" ++ cursor ++
    ",\"event\":\x7b\"type\":\"DialogTurnCancelled\",\"session_id\":\"session-1\"," ++
    "\"turn_id\":\"" ++ turnId ++ "\"\x7d\x7d"

/-- What is appended does not change the first character. -/
theorem head_append {s : String} {c : Char} (h : s.toList.head? = some c) (t : String) :
    (s ++ t).toList.head? = some c := by
  rw [String.toList_append, head?_append, h, Option.some_or]

/-- A line that begins with a visible character is not blank. -/
theorem isBlank_of_head {line : String} {c : Char} (h : line.toList.head? = some c)
    (hc : Text.isWhitespace c = false) : isBlank line = false := by
  obtain ⟨rest, hline⟩ := head?_eq_some_iff.1 h
  have htrim : Text.trim (c :: rest) ≠ [] := by
    rw [Text.trim, Text.trimStart, dropWhile_cons_of_neg (by simp [hc]), Text.trimEnd, Ne,
      rdropWhile_eq_nil_iff]
    exact fun h => Bool.false_ne_true (hc.symm.trans (h _ mem_cons_self))
  rw [isBlank, hline]
  exact isEmpty_eq_false_iff.2 htrim

theorem isBlank_cancelledLine (streamId cursor turnId : String) :
    isBlank (cancelledLine streamId cursor turnId) = false := by
  refine isBlank_of_head (c := '\x7b') ?_ (by decide)
  refine head_append (head_append (head_append (head_append (head_append (head_append
    (head_append ?_ _) _) _) _) _) _) _
  decide +kernel

/-- The line of the first stream. -/
def firstLine : String := cancelledLine "stream-1" "1" "turn-1"

/-- The line of the second stream. -/
def secondLine : String := cancelledLine "stream-2" "1" "turn-2"

/-- The reading of the two lines. -/
def sampleFromStr (line : String) : Option (LoggedEvent Unit) :=
  if line = firstLine then some ⟨"stream-1", 1, .dialogTurnCancelled "session-1" "turn-1"⟩
  else if line = secondLine then
    some ⟨"stream-2", 1, .dialogTurnCancelled "session-1" "turn-2"⟩
  else none

theorem sampleFromStr_first : sampleFromStr firstLine =
    some ⟨"stream-1", 1, .dialogTurnCancelled "session-1" "turn-1"⟩ := if_pos rfl

theorem sampleFromStr_second : sampleFromStr secondLine =
    some ⟨"stream-2", 1, .dialogTurnCancelled "session-1" "turn-2"⟩ := by
  have hne : secondLine ≠ firstLine := by decide +kernel
  rw [sampleFromStr, if_neg hne, if_pos rfl]

theorem isBlank_first : isBlank firstLine = false := isBlank_cancelledLine _ _ _

theorem isBlank_second : isBlank secondLine = false := isBlank_cancelledLine _ _ _

/-- A log of one stream is summed up as it should be. -/
theorem describesLastStream_sample :
    DescribesLastStream (validateRuntimeEventLog sampleFromStr "session-1.jsonl" "session-1"
      (.ok [.ok firstLine])) (readablePrefix sampleFromStr [.ok firstLine]) := by
  have hrecords : readablePrefix sampleFromStr [.ok firstLine] =
      [⟨"stream-1", 1, .dialogTurnCancelled "session-1" "turn-1"⟩] := by
    simp only [readablePrefix, isBlank_first, Bool.false_eq_true, if_false, sampleFromStr_first]
  refine (describesLastStream_iff sampleFromStr "session-1.jsonl" "session-1" _ ?_).2
    (Or.inr ⟨?_, ?_⟩)
  · rw [hrecords]
    decide
  · simp only [endsUnreadable, isBlank_first, Bool.false_eq_true, if_false, sampleFromStr_first]
  · rw [hrecords]
    exact fun h => absurd h (by decide)

/-- Where a restarted runtime goes on in the file, the turn of its first record is lost. -/
theorem first_turn_lost :
    ¬DescribesLastStream (validateRuntimeEventLog sampleFromStr "session-1.jsonl" "session-1"
        (.ok [.ok firstLine, .ok secondLine]))
      (readablePrefix sampleFromStr [.ok firstLine, .ok secondLine]) := by
  intro h
  have hsummary : validateRuntimeEventLog sampleFromStr "session-1.jsonl" "session-1"
      (.ok [.ok firstLine, .ok secondLine]) = .ok ⟨"stream-2", 1, ∅⟩ := by
    simp only [validateRuntimeEventLog, readLines, isBlank_first, isBlank_second,
      Bool.false_eq_true, if_false, sampleFromStr_first, sampleFromStr_second]
    rfl
  have hturns := (h.2 _ hsummary).2.2
  simp only [readablePrefix, isBlank_first, isBlank_second, Bool.false_eq_true, if_false,
    sampleFromStr_first, sampleFromStr_second] at hturns
  exact absurd hturns (by decide)

end RuntimeEventLog

end OpenBitFun
