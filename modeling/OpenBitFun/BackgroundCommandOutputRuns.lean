import Mathlib
import OpenBitFun.BackgroundCommandOutput

/-!
# Reading the output of background commands

A capture retains a suffix of the chunks appended to it, numbered from where the suffix starts
(`Record.Holds`). From this a reader's cursor says what the reader has seen, and what a read leaves
out can be said: a reader that comes back gets what was appended since, or is told to start over
from what is retained, unless the last chunk alone was larger than the limit. Such a chunk evicts
every chunk and itself, and a record without chunks resets nobody.
-/

namespace OpenBitFun

open List

namespace BackgroundCommandOutput

/-! ## Chunks with their numbers -/

/-- Texts as chunks, numbered from `i` on. -/
def numbered : (i : ℕ) → List Output → List Chunk
  | _, [] => []
  | i, text :: texts => ⟨min i wordMax, text, text.len⟩ :: numbered (i + 1) texts

/-- The bytes of some texts. -/
def totalLen (texts : List Output) : ℕ := (texts.map Output.len).sum

variable {i n : ℕ} {text : Output} {texts since : List Output}

@[simp] theorem totalLen_nil : totalLen [] = 0 := rfl

@[simp] theorem totalLen_cons : totalLen (text :: texts) = text.len + totalLen texts := rfl

@[simp] theorem totalLen_append (texts since : List Output) :
    totalLen (texts ++ since) = totalLen texts + totalLen since := by
  simp [totalLen]

theorem numbered_concat (text : Output) (texts : List Output) : ∀ i : ℕ,
    numbered i (texts ++ [text]) =
      numbered i texts ++ [⟨min (i + texts.length) wordMax, text, text.len⟩] := by
  induction texts with
  | nil => exact fun i => rfl
  | cons first texts ih =>
    intro i
    have hnext : i + 1 + texts.length = i + (texts.length + 1) := by omega
    simp [numbered, ih, hnext]

@[simp] theorem map_text_numbered (texts : List Output) : ∀ i : ℕ,
    (numbered i texts).map Chunk.text = texts := by
  induction texts with
  | nil => exact fun i => rfl
  | cons first texts ih => simp [numbered, ih]

/-- The chunks from a number on are the texts from there on. A number at the end of the counter is
no number of its own, since the counter stops there. -/
theorem filter_numbered (hn : n < wordMax) (texts : List Output) : ∀ i : ℕ,
    ((numbered i texts).filter fun chunk => chunk.cursor ≥ n).map Chunk.text =
      texts.drop (n - i) := by
  induction texts with
  | nil => simp [numbered]
  | cons first texts ih =>
    intro i
    have hrest := ih (i + 1)
    by_cases hle : n ≤ i
    · have hzero : n - (i + 1) = 0 := by omega
      have hzero' : n - i = 0 := by omega
      have hcursor : n ≤ min i wordMax := by omega
      rw [hzero] at hrest
      simp [numbered, hcursor, hrest, hzero']
    · have hsucc : n - i = n - (i + 1) + 1 := by omega
      have hcursor : ¬n ≤ min i wordMax := by omega
      simp [numbered, hcursor, hrest, hsucc]

/-- The eviction drops texts from the front until the rest fits. Only a last text that is too
large by itself leaves nothing. -/
theorem evict_numbered (texts : List Output) : ∀ (i : ℕ) (truncated : Bool),
    ∃ gone kept, texts = gone ++ kept ∧
      Record.evict (numbered i texts) (totalLen texts) truncated =
        (numbered (i + gone.length) kept, totalLen kept, truncated || !gone.isEmpty) ∧
      totalLen kept ≤ captureLimitBytes ∧
      (kept = [] → ∀ last ∈ texts.getLast?, captureLimitBytes < last.len) := by
  induction texts with
  | nil =>
    intro i truncated
    refine ⟨[], [], rfl, ?_, ?_, ?_⟩
    · simp [numbered, Record.evict]
    · simp
    · simp
  | cons first texts ih =>
    intro i truncated
    by_cases hlarge : totalLen (first :: texts) > captureLimitBytes
    · obtain ⟨gone, kept, happ, hevict, hfits, hlast⟩ := ih (i + 1) true
      have hrest : totalLen (first :: texts) - first.len = totalLen texts := by simp
      have hnext : i + 1 + gone.length = i + (first :: gone).length := by
        simp only [length_cons]
        omega
      refine ⟨first :: gone, kept, by simp [happ], ?_, hfits, ?_⟩
      · simp only [numbered, Record.evict, if_pos hlarge, hrest, hevict, hnext]
        simp
      · intro hkept last hmem
        cases texts with
        | nil =>
          -- the text that is evicted is the last one
          simp only [getLast?_singleton, Option.mem_def, Option.some.injEq] at hmem
          subst hmem
          simpa using hlarge
        | cons second texts =>
          rw [getLast?_cons_cons] at hmem
          exact hlast hkept last hmem
    · refine ⟨[], first :: texts, rfl, ?_, Nat.le_of_not_lt hlarge, ?_⟩
      · simp only [numbered, Record.evict, if_neg hlarge]
        simp
      · intro hkept
        simp at hkept

/-! ## What a record says about the texts appended to it -/

namespace Record

/-- A record after some texts were appended to it: some are gone, the others are kept under their
numbers. -/
structure Holds (r : Record) (texts : List Output) (gone kept : List Output) : Prop where
  append : texts = gone ++ kept
  chunks : r.chunks = numbered gone.length kept
  nextCursor : r.nextCursor = min texts.length wordMax
  retainedBytes : r.retainedBytes = totalLen kept
  fits : totalLen kept ≤ captureLimitBytes
  truncated : r.truncatedFromStart = !gone.isEmpty
  emptied : kept = [] → ∀ last ∈ texts.getLast?, captureLimitBytes < last.len

variable {r r' : Record} {gone kept : List Output}

theorem holds_start (request : StartRequest) (now : ℕ) : (start request now).Holds [] [] [] where
  append := rfl
  chunks := rfl
  nextCursor := rfl
  retainedBytes := rfl
  fits := Nat.zero_le _
  truncated := rfl
  emptied := by simp

theorem Holds.congr (h : r.Holds texts gone kept) (hchunks : r'.chunks = r.chunks)
    (hcursor : r'.nextCursor = r.nextCursor) (hbytes : r'.retainedBytes = r.retainedBytes)
    (htruncated : r'.truncatedFromStart = r.truncatedFromStart) : r'.Holds texts gone kept where
  append := h.append
  chunks := hchunks.trans h.chunks
  nextCursor := hcursor.trans h.nextCursor
  retainedBytes := hbytes.trans h.retainedBytes
  fits := h.fits
  truncated := htruncated.trans h.truncated
  emptied := h.emptied

theorem Holds.updateLifecycle {nowUnixSeconds now : ℕ} {execSessionId : Int} {status : Status}
    {exitCode : Option Int} (h : r.Holds texts gone kept) :
    (r.updateLifecycle nowUnixSeconds now execSessionId status exitCode).Holds texts gone kept := by
  rw [Record.updateLifecycle]
  split
  · exact h.congr rfl rfl rfl rfl
  · exact h.congr rfl rfl rfl rfl

theorem Holds.appendChunk (h : r.Holds texts gone kept) (text : Output) :
    ∃ gone kept, (r.appendChunk text).Holds (texts ++ [text]) gone kept := by
  have hlen : texts.length = gone.length + kept.length := by simp [h.append]
  have hchunks : r.chunks ++ [⟨r.nextCursor, text, text.len⟩] =
      numbered gone.length (kept ++ [text]) := by
    rw [numbered_concat, h.chunks, h.nextCursor, hlen]
  have hbytes : saturatingAdd r.retainedBytes text.len = totalLen (kept ++ [text]) := by
    have hfits := h.fits
    have htext := text.fits
    rw [saturatingAdd, h.retainedBytes]
    simp only [totalLen_append, totalLen_cons, totalLen_nil, Output.len, captureLimitBytes,
      wordMax] at hfits ⊢
    omega
  obtain ⟨gone', kept', happ, hevict, hfits, hlast⟩ :=
    evict_numbered (kept ++ [text]) gone.length r.truncatedFromStart
  rw [← hchunks, ← hbytes] at hevict
  refine ⟨gone ++ gone', kept', ?_, ?_, ?_, ?_, hfits, ?_, ?_⟩
  · rw [h.append, append_assoc, happ, append_assoc]
  · rw [Record.appendChunk, hevict, length_append]
  · simp only [Record.appendChunk, h.nextCursor, saturatingAdd, length_append,
      length_singleton]
    omega
  · rw [Record.appendChunk, hevict]
  · rw [Record.appendChunk, hevict]
    cases gone with
    | nil => simp [h.truncated]
    | cons first gone => simp [h.truncated]
  · intro hkept last hmem
    have hlast := hlast hkept
    simp only [getLast?_append, getLast?_singleton, Option.some_or] at hmem hlast
    exact hlast last hmem

/-! ## Reading -/

theorem Holds.retained (h : r.Holds texts gone kept) : r.retained = kept := by
  rw [Record.retained, h.chunks, map_text_numbered]

theorem Holds.snapshot (h : r.Holds texts gone kept) : r.snapshot = kept.flatMap Output.text := by
  rw [← h.retained, Record.snapshot, Record.retained, flatMap_map]

/-- A reader is reset when a text after its cursor is gone and another one is kept. -/
theorem Holds.shouldReset (h : r.Holds texts gone kept) (hn : n < wordMax) :
    r.shouldReset (some n) = decide (kept ≠ [] ∧ n < gone.length) := by
  cases kept with
  | nil => simp [Record.shouldReset, h.chunks, numbered]
  | cons first kept =>
    have hmin : n < min gone.length wordMax ↔ n < gone.length := by omega
    simp [Record.shouldReset, h.chunks, numbered, hmin]

theorem Holds.read_chunks (h : r.Holds texts gone kept) (hn : n < wordMax)
    (hreset : r.shouldReset (some n) = false) :
    (r.read (some n)).chunks = kept.drop (n - gone.length) := by
  simp only [Record.read, hreset, Option.filter]
  rw [if_pos (by rfl), h.chunks]
  exact filter_numbered hn kept gone.length

end Record

/-- The last text since some text is the last text. -/
theorem mem_getLast?_of_drop {last : Output} (h : last ∈ (texts.drop n).getLast?) :
    last ∈ texts.getLast? := by
  rw [getLast?_drop] at h
  split at h
  · simp at h
  · exact h

/-- A reader that comes back gets what was appended since, or all that is retained. -/
def Faithful (since retained : List Output) (response : ReadResponse) : Prop :=
  (response.reset = false ∧ response.chunks = since) ∨
    (response.reset = true ∧ response.snapshot = some (retained.flatMap Output.text))

/-- The last text is no larger than a capture may be. -/
def LastFits (since : List Output) : Prop := ∀ last ∈ since.getLast?, last.len ≤ captureLimitBytes

/-- **One read**: a reader that has read the first `n` texts loses nothing exactly if the last text
since then is no larger than the limit. -/
theorem Record.Holds.faithful_iff {r : Record} {gone kept : List Output}
    (h : r.Holds texts gone kept) (hn : n < wordMax) :
    Faithful (texts.drop n) r.retained (r.read (some n)) ↔ LastFits (texts.drop n) := by
  have hshould := h.shouldReset hn
  by_cases hkept : kept = []
  · -- nothing is kept: nobody is reset, and nobody gets anything
    have hreset : r.shouldReset (some n) = false := by simp [hshould, hkept]
    have hchunks : (r.read (some n)).chunks = [] := by simp [h.read_chunks hn hreset, hkept]
    have hno : (r.read (some n)).reset = false := hreset
    have hfaithful : Faithful (texts.drop n) r.retained (r.read (some n)) ↔ texts.drop n = [] := by
      simp [Faithful, hno, hchunks, eq_comm]
    rw [hfaithful]
    refine ⟨fun hnil => by simp [LastFits, hnil], fun hfits => ?_⟩
    by_contra hsome
    have hlast := getLast?_eq_some_getLast hsome
    have hlarge := h.emptied hkept _ (mem_getLast?_of_drop hlast)
    exact absurd (hfits _ hlast) (Nat.not_le_of_lt hlarge)
  · have hlast : LastFits (texts.drop n) := by
      intro last hmem
      have hin : last ∈ kept := by
        have hlast := mem_getLast?_of_drop hmem
        rw [h.append, getLast?_append_of_ne_nil _ hkept] at hlast
        exact mem_of_getLast? hlast
      have hle : last.len ≤ totalLen kept := single_le_sum (by simp) _ (mem_map_of_mem hin)
      exact Nat.le_trans hle h.fits
    refine ⟨fun _ => hlast, fun _ => ?_⟩
    by_cases hgone : n < gone.length
    · right
      have hreset : r.shouldReset (some n) = true := by simp [hshould, hkept, hgone]
      refine ⟨hreset, ?_⟩
      simp [Record.read, hreset, h.snapshot, h.retained]
    · left
      have hreset : r.shouldReset (some n) = false := by simp [hshould, hgone]
      refine ⟨hreset, ?_⟩
      rw [h.read_chunks hn hreset, h.append, drop_append,
        drop_eq_nil_of_le (Nat.le_of_not_lt hgone), nil_append]

/-! ## Runs -/

/-- What an event says about the texts appended to a capture. A capture that is started again has
no texts. -/
def hear (captureId : String) (texts : List Output) : Event → List Output
  | .started id => if id = captureId then [] else texts
  | .appended id text => if id = captureId then texts ++ [text] else texts
  | .answered .. => texts

/-- The texts appended to a capture, since it was started last. -/
def appended (captureId : String) (log : List Event) : List Output := log.foldl (hear captureId) []

theorem appended_concat (captureId : String) (log : List Event) (event : Event) :
    appended captureId (log ++ [event]) = hear captureId (appended captureId log) event := by
  rw [appended, foldl_append]
  rfl

/-- A capture that was not started again has the texts from before, and the new ones. -/
theorem appended_append {captureId : String} (before since : List Event)
    (hsame : Event.started captureId ∉ since) :
    appended captureId (before ++ since) =
      appended captureId before ++ appended captureId since := by
  induction since using List.reverseRecOn with
  | nil => simp [appended]
  | append_singleton since event ih =>
    simp only [mem_append, mem_singleton, not_or] at hsame
    have ih := ih hsame.1
    rw [← append_assoc, appended_concat, appended_concat, ih]
    cases event with
    | started id =>
      have hid : id ≠ captureId := fun hid => hsame.2 (by rw [hid])
      simp [hear, hid]
    | appended id text =>
      rw [hear, hear]
      split
      · rw [append_assoc]
      · rfl
    | answered => rfl

/-- What every world of a run satisfies: the records keep the accounts of what was appended to
them, and so did every record that was read. -/
structure World.Inv (w : World) : Prop where
  records : ∀ id r, w.records.lookup id = some r →
    ∃ gone kept, r.Holds (appended id w.log) gone kept
  reads : ∀ before id retained cursor response since,
    w.log = before ++ .answered id retained cursor response :: since →
      ∃ (r : Record) (gone kept : List Output), r.Holds (appended id before) gone kept ∧
        retained = r.retained ∧ response = r.read cursor

variable {w w' : World}

/-- A record of the pruned records was there before. -/
theorem Pruned.lookup {records records' : Records} (h : Pruned records records') {id : String}
    {r : Record} (hr : records'.lookup id = some r) : records.lookup id = some r := by
  induction h with
  | done => exact hr
  | drop _ _ _ _ ih =>
    have herased := ih hr
    rw [AssocMap.lookup_erase] at herased
    split at herased
    · simp at herased
    · exact herased

namespace World.Inv

/-- Nothing happened that is logged; every record has the output of a record from before. -/
theorem of_log (h : w.Inv) (hlog : w'.log = w.log)
    (hrecords : ∀ id r', w'.records.lookup id = some r' → ∃ r, w.records.lookup id = some r ∧
      ∀ texts gone kept, r.Holds texts gone kept → r'.Holds texts gone kept) : w'.Inv where
  records := by
    intro id r' hr'
    obtain ⟨r, hr, hholds⟩ := hrecords id r' hr'
    obtain ⟨gone, kept, hgone⟩ := h.records id r hr
    rw [hlog]
    exact ⟨gone, kept, hholds _ _ _ hgone⟩
  reads := by
    rw [hlog]
    exact h.reads

/-- Changing one record without its output. -/
theorem modify (h : w.Inv) (captureId : String) {f : Record → Record}
    (hf : ∀ r texts gone kept, r.Holds texts gone kept → (f r).Holds texts gone kept) :
    World.Inv { w with records := w.records.modify captureId f } := by
  refine h.of_log rfl ?_
  intro id r' hr'
  simp only [AssocMap.lookup_modify] at hr'
  split at hr'
  · next hid =>
    subst hid
    obtain ⟨r, hr, rfl⟩ := Option.map_eq_some_iff.1 hr'
    exact ⟨r, hr, hf r⟩
  · exact ⟨r', hr', fun _ _ _ hholds => hholds⟩

theorem reads_concat (h : w.Inv) {event : Event}
    (hread : ∀ id retained cursor response, event = .answered id retained cursor response →
      ∃ (r : Record) (gone kept : List Output), r.Holds (appended id w.log) gone kept ∧
        retained = r.retained ∧ response = r.read cursor) {before since : List Event} {id : String}
    {retained : List Output} {cursor : Option ℕ} {response : ReadResponse}
    (hlog : w.log ++ [event] = before ++ .answered id retained cursor response :: since) :
    ∃ (r : Record) (gone kept : List Output), r.Holds (appended id before) gone kept ∧
      retained = r.retained ∧ response = r.read cursor := by
  induction since using List.reverseRecOn with
  | nil =>
    obtain ⟨hbefore, hevent⟩ := append_inj' hlog rfl
    rw [← hbefore]
    exact hread _ _ _ _ (singleton_inj.1 hevent)
  | append_singleton since last =>
    rw [← cons_append, ← append_assoc] at hlog
    obtain ⟨hbefore, -⟩ := append_inj' hlog rfl
    exact h.reads _ _ _ _ _ _ hbefore

end World.Inv

theorem World.inv_new : World.new.Inv where
  records := by
    intro id r hr
    simp [World.new] at hr
  reads := by
    intro before id retained cursor response since hlog
    simp [World.new] at hlog

theorem World.Inv.start (h : w.Inv) (request : StartRequest) (nowUnixSeconds : ℕ) :
    (w.perform (.startCapture request nowUnixSeconds)).Inv where
  records := by
    intro id r hr
    simp only [World.perform, AssocMap.lookup_insert] at hr ⊢
    rw [appended_concat]
    split at hr
    · next hid =>
      cases hr
      simp only [hear, hid, if_pos]
      exact ⟨[], [], Record.holds_start _ _⟩
    · next hid =>
      simp only [hear, Ne.symm hid, if_false]
      exact h.records id r hr
  reads := by
    intro before id retained cursor response since hlog
    exact h.reads_concat (by simp) hlog

theorem World.Inv.appendChunk (h : w.Inv) (captureId : String) (text : Output) :
    (w.perform (.appendChunk captureId text)).Inv := by
  simp only [World.perform]
  split
  · exact h
  split
  · exact h
  · next r hr =>
    refine ⟨?_, fun _ _ _ _ _ _ hlog => h.reads_concat (by simp) hlog⟩
    intro id r' hr'
    simp only [AssocMap.lookup_insert] at hr' ⊢
    rw [appended_concat]
    split at hr'
    · next hid =>
      subst hid
      cases hr'
      obtain ⟨gone, kept, hholds⟩ := h.records id r hr
      simp only [hear, if_pos]
      exact hholds.appendChunk text
    · next hid =>
      simp only [hear, Ne.symm hid, if_false]
      exact h.records id r' hr'

theorem World.Inv.read (h : w.Inv) (captureId : String) (cursor : Option ℕ) :
    (w.perform (.read captureId cursor)).Inv := by
  simp only [World.perform]
  split
  · exact h
  · next r hr =>
    refine ⟨?_, ?_⟩
    · intro id r' hr'
      simp only [appended_concat, hear]
      exact h.records id r' hr'
    · intro before id retained cursor' response since hlog
      refine h.reads_concat ?_ hlog
      intro id retained cursor' response hevent
      cases hevent
      obtain ⟨gone, kept, hholds⟩ := h.records _ r hr
      exact ⟨r, gone, kept, hholds, rfl, rfl⟩

/-- **Steps** keep the accounts. -/
theorem Step.inv {operation : Operation} (hstep : Step w operation w') (h : w.Inv) : w'.Inv := by
  cases hstep with
  | @start request nowUnixSeconds records hpruned =>
    refine (h.start request nowUnixSeconds).of_log rfl ?_
    intro id r hr
    exact ⟨r, hpruned.lookup hr, fun _ _ _ hholds => hholds⟩
  | other hother =>
    cases operation with
    | startCapture request now => exact absurd rfl (hother request now)
    | setSessionId captureId execSessionId =>
      exact h.modify captureId fun r _ _ _ hholds => hholds.congr rfl rfl rfl rfl
    | updateLifecycle captureId execSessionId status exitCode nowUnixSeconds now =>
      exact h.modify captureId fun r _ _ _ hholds => hholds.updateLifecycle
    | finish captureId status exitCode nowUnixSeconds now =>
      exact h.modify captureId fun r _ _ _ hholds => hholds.congr rfl rfl rfl rfl
    | appendChunk captureId text => exact h.appendChunk captureId text
    | read captureId cursor => exact h.read captureId cursor
    | cleanup now keep =>
      refine h.of_log rfl ?_
      intro id r hr
      simp only [World.perform, Records.cleanup, AssocMap.lookup_retainEntries,
        Option.filter_eq_some_iff] at hr
      exact ⟨r, hr.1, fun _ _ _ hholds => hholds⟩

/-- Every world of a run keeps the accounts. -/
theorem run_inv {tr : List Operation} (h : Run Step .new tr w) : w.Inv :=
  h.invariant World.inv_new fun _ _ _ hinv hstep => hstep.inv hinv

/-- A record accounts for what was appended: its bytes are those of the chunks it retains, which
are a suffix of what was appended, within the limit, and it says whether the suffix is proper. -/
structure Record.Accounts (r : Record) (texts : List Output) : Prop where
  retainedBytes : r.retainedBytes = totalLen r.retained
  fits : r.retainedBytes ≤ captureLimitBytes
  isSuffix : r.retained <:+ texts
  truncated : r.truncatedFromStart = true ↔ r.retained ≠ texts

theorem Record.Holds.accounts {r : Record} {gone kept : List Output}
    (h : r.Holds texts gone kept) : r.Accounts texts where
  retainedBytes := by rw [h.retained, h.retainedBytes]
  fits := by
    rw [h.retainedBytes]
    exact h.fits
  isSuffix := by
    rw [h.retained]
    exact ⟨gone, h.append.symm⟩
  truncated := by
    rw [h.retained, h.truncated, h.append]
    cases gone with
    | nil => simp
    | cons first gone =>
      simp only [isEmpty_cons, Bool.not_false, true_iff, ne_eq]
      intro heq
      have hlength := congrArg List.length heq
      simp only [length_append, length_cons] at hlength
      omega

/-- A reader that comes back, in a log that keeps the accounts. -/
theorem World.Inv.faithful_iff (h : w.Inv) {before since after : List Event} {id : String}
    {retained retained' : List Output} {cursor : Option ℕ} {first second : ReadResponse}
    (hlog : w.log = before ++ .answered id retained cursor first ::
      (since ++ .answered id retained' (some first.cursor) second :: after))
    (hsame : Event.started id ∉ since) (hmax : first.cursor < wordMax) :
    Faithful (appended id since) retained' second ↔ LastFits (appended id since) := by
  obtain ⟨r, gone, kept, hfirst, -, rfl⟩ := h.reads _ _ _ _ _ _ hlog
  have hlog' : w.log = (before ++ .answered id retained cursor (r.read cursor) :: since) ++
      .answered id retained' (some (r.read cursor).cursor) second :: after := by
    rw [hlog]
    simp
  obtain ⟨r', gone', kept', hsecond, rfl, rfl⟩ := h.reads _ _ _ _ _ _ hlog'
  -- the first answer is no news about the capture
  have hnews : appended id (before ++ .answered id retained cursor (r.read cursor) :: since) =
      appended id before ++ appended id since :=
    appended_append before (.answered id retained cursor (r.read cursor) :: since) (by simpa)
  have hcursor : (r.read cursor).cursor = (appended id before).length := by
    have hnext : (r.read cursor).cursor = min (appended id before).length wordMax :=
      hfirst.nextCursor
    omega
  rw [hcursor] at hmax ⊢
  have hiff := hsecond.faithful_iff (n := (appended id before).length) hmax
  rwa [hnews, drop_left] at hiff

/-- **Reading loses nothing, unless a chunk is larger than the limit**: in every run every record
accounts for what was appended to it, and a reader that comes back with the cursor of an answer
gets what was appended since, or all that is retained and a reset, exactly if the last chunk since
then is no larger than the limit. -/
theorem reads_lose_nothing_unless_oversized {tr : List Operation} (h : Run Step .new tr w) :
    (∀ id r, w.records.lookup id = some r → r.Accounts (appended id w.log)) ∧
      ∀ (before since after : List Event) (id : String) (retained retained' : List Output)
        (cursor : Option ℕ) (first second : ReadResponse),
        w.log = before ++ .answered id retained cursor first ::
          (since ++ .answered id retained' (some first.cursor) second :: after) →
        Event.started id ∉ since → first.cursor < wordMax →
          (Faithful (appended id since) retained' second ↔ LastFits (appended id since)) := by
  have hinv := run_inv h
  refine ⟨?_, ?_⟩
  · intro id r hr
    obtain ⟨gone, kept, hholds⟩ := hinv.records id r hr
    exact hholds.accounts
  · intro before since after id retained retained' cursor first second hlog hsame hmax
    exact hinv.faithful_iff hlog hsame hmax

/-! ## Two readers -/

/-- A capture is started, read, appended to and read again. -/
def rereading (text : Output) : List Operation :=
  [.startCapture ⟨"call-1", none, "make", none, false, false, none⟩ 0, .read "call-1" none,
    .appendChunk "call-1" text, .read "call-1" (some 0)]

/-- The record before the chunk. -/
def beforeChunk : Record := .start ⟨"call-1", none, "make", none, false, false, none⟩ 0

/-- The world after the chunk is read. -/
def reread (text : Output) : World where
  records := (World.new.records.insert "call-1" beforeChunk).insert "call-1"
    (beforeChunk.appendChunk text)
  log := [.started "call-1"] ++ .answered "call-1" [] none (beforeChunk.read none) ::
    ([.appended "call-1" text] ++ .answered "call-1" (beforeChunk.appendChunk text).retained
      (some 0) ((beforeChunk.appendChunk text).read (some 0)) :: [])

theorem run_rereading {text : Output} (htext : text.text ≠ []) :
    Run Step .new (rereading text) (reread text) := by
  have hstart : Step .new (.startCapture ⟨"call-1", none, "make", none, false, false, none⟩ 0)
      ⟨World.new.records.insert "call-1" beforeChunk, [.started "call-1"]⟩ :=
    Step.start (Pruned.done (by decide +kernel))
  refine Run.cons hstart (Run.cons (Step.other (by simp)) (Run.cons (Step.other (by simp))
    (Run.cons (Step.other (by simp)) ?_)))
  rw [run_nil]
  simp [World.perform, htext, reread, Record.retained, beforeChunk, Record.start]

/-- A short chunk. -/
def hello : Output := ⟨"hello".toList, by decide⟩

/-- `reads_lose_nothing_unless_oversized` for a reader that gets a short chunk. -/
theorem reads_lose_nothing_of_hello :
    Faithful [hello] (beforeChunk.appendChunk hello).retained
      ((beforeChunk.appendChunk hello).read (some 0)) :=
  ((reads_lose_nothing_unless_oversized (run_rereading (by decide : hello.text ≠ []))).2
    [.started "call-1"] [.appended "call-1" hello] [] "call-1" _ _ _ _ _ rfl (by decide)
    (by decide)).2 (by simp [LastFits, appended, hear]; decide)

theorem byteLength_replicate (n : ℕ) : Text.byteLength (List.replicate n 'a') = n := by
  have hsize : 'a'.utf8Size = 1 := by decide
  simp [Text.byteLength, hsize]

/-- A chunk of one byte more than the limit. -/
def oversized : Output where
  text := List.replicate (captureLimitBytes + 1) 'a'
  fits := by
    rw [byteLength_replicate]
    decide

/-- A reader whose cursor is from before the oversized chunk gets nothing, and is not told. -/
theorem oversized_chunk_lost :
    ¬∀ (tr : List Operation) (w : World), Run Step .new tr w →
      ∀ (before since after : List Event) (id : String) (retained retained' : List Output)
        (cursor : Option ℕ) (first second : ReadResponse),
        w.log = before ++ .answered id retained cursor first ::
          (since ++ .answered id retained' (some first.cursor) second :: after) →
        Event.started id ∉ since → first.cursor < wordMax →
          Faithful (appended id since) retained' second := by
  intro h
  have hrun : Run Step .new (rereading oversized) (reread oversized) :=
    run_rereading (by simp [oversized])
  have hfaithful := h _ _ hrun [.started "call-1"] [.appended "call-1" oversized] [] "call-1" _ _
    _ _ _ rfl (by simp) (by decide)
  have hlog : (reread oversized).log = [.started "call-1"] ++
      .answered "call-1" [] none (beforeChunk.read none) ::
        ([.appended "call-1" oversized] ++ .answered "call-1"
          (beforeChunk.appendChunk oversized).retained (some (beforeChunk.read none).cursor)
          ((beforeChunk.appendChunk oversized).read (some 0)) :: []) := rfl
  have hfits := ((run_inv hrun).faithful_iff hlog (by simp) (by decide)).1 hfaithful
  have hle : oversized.len ≤ captureLimitBytes := hfits oversized (by simp [appended, hear])
  rw [Output.len, oversized, byteLength_replicate] at hle
  omega

end BackgroundCommandOutput

end OpenBitFun
