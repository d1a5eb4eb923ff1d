import Mathlib
import OpenBitFun.AnsiCleaner

/-!
# What the cleaner keeps of the rows

A terminal that only prints, feeds lines, returns carriages and moves its cursor up and down keeps
every row that nothing is printed on (`Screen`). The cleaner keeps the rows too as long as no step
loses one: a line feed that leaves a row which was entered again writes an empty line over it, and
the cursor carries the text of a row that is not saved yet to another row (`Keeps`). In between, the
output is the screen (`rows_kept`). Plain text has none of these steps and comes out as it is.
-/

namespace OpenBitFun

open List

namespace AnsiCleaner

open Text (byteLength joinLines lines splitInclusive stripLineEnd)
open Cleaner (param lastNonEmpty)

/-! ## The screen -/

/-- The rows of a terminal with their text, and the place of the cursor. -/
structure Screen where
  rows : ℕ → List Char
  row : ℕ
  col : ℕ

/-- An empty screen. -/
def Screen.empty : Screen := ⟨fun _ => [], 0, 0⟩

/-- A character is typed on the cursor's row. -/
def Screen.print (screen : Screen) (c : Char) : Screen :=
  let text := typeAt (screen.rows screen.row) screen.col c
  { screen with rows := Function.update screen.rows screen.row text, col := byteLength text }

/-- What an event does on the screen: only printing changes text, and only on the cursor's row. -/
def Screen.step (screen : Screen) : Event → Screen
  | .print c => screen.print c
  | .execute byte =>
    if byte = 10 then { screen with row := screen.row + 1, col := 0 }
    else if byte = 13 then { screen with col := 0 }
    else screen
  | .csiDispatch params c =>
    if c = 'A' then { screen with row := screen.row - param params }
    else if c = 'B' then { screen with row := screen.row + param params }
    else screen
  | .ignored => screen

/-- Prints, line feeds, carriage returns, moves of the cursor up and down, and what is ignored. -/
def Event.isPlain : Event → Bool
  | .execute byte => byte != 8 && byte != 9
  | .csiDispatch params c =>
    match c with
    | 'G' | 'C' | 'D' | 'e' | 'H' | 'f' => false
    | 'K' => decide (2 < param params)
    | 'J' => param params != 2
    | _ => true
  | _ => true

/-- The output is the screen, from top to bottom: every row with text on it is there, with the text
that was left on it. -/
def ShowsScreen (output : List Char) (screen : Screen) : Prop :=
  ∃ kept : List ℕ, kept.Pairwise (· < ·) ∧ (∀ row, screen.rows row ≠ [] → row ∈ kept) ∧
    output = joinLines (kept.map screen.rows)

/-! ## Steps that keep the rows -/

/-- The step loses no text: a line feed with nothing on the current line does not leave a row that
has text, and the cursor does not move to another row while the current line is not saved. -/
def Keeps (cleaner : Cleaner) : Event → Prop
  | .execute 10 => cleaner.currentLine = [] → cleaner.line cleaner.cursorRow = []
  | .csiDispatch params 'A' => cleaner.currentLine ≠ [] → param params = 0 ∨ cleaner.cursorRow = 0
  | .csiDispatch params 'B' => cleaner.currentLine ≠ [] → param params = 0
  | _ => True

/-- Every step of the run keeps the rows. -/
def KeepsAll : Cleaner → List Event → Prop
  | _, [] => True
  | cleaner, event :: events => Keeps cleaner event ∧ KeepsAll (cleaner.step event) events

/-- The cleaner has the rows of the screen; the text of the cursor's row is the current line if
there is one. -/
structure Agrees (cleaner : Cleaner) (screen : Screen) : Prop where
  row : screen.row = cleaner.cursorRow
  col : screen.col = cleaner.cursorCol
  /-- With nothing on the current line the cursor is at its start. -/
  start : cleaner.currentLine = [] → cleaner.cursorCol = 0
  rows : ∀ r, screen.rows r =
    if r = cleaner.cursorRow ∧ cleaner.currentLine ≠ [] then cleaner.currentLine
    else cleaner.line r

variable {cleaner : Cleaner} {screen : Screen}

theorem agrees_new : Agrees .new .empty where
  row := rfl
  col := rfl
  start _ := rfl
  rows r := by
    rw [if_neg (fun h => h.2 rfl)]
    rfl

/-- A plain control sequence that does not move the cursor is ignored. -/
theorem csiDispatch_eq_self (cleaner : Cleaner) {params : List (List ℕ)} {c : Char}
    (hplain : (Event.csiDispatch params c).isPlain) (hup : c ≠ 'A') (hdown : c ≠ 'B') :
    cleaner.csiDispatch params c = cleaner := by
  rw [Cleaner.csiDispatch.eq_def]
  split <;> simp_all [Event.isPlain]
  rw [Cleaner.eraseInLine] <;> omega

namespace Agrees

/-- Where there is a current line it is the text of the cursor's row. -/
theorem rows_cursor (h : Agrees cleaner screen) (hne : cleaner.currentLine ≠ []) :
    screen.rows cleaner.cursorRow = cleaner.currentLine := by
  rw [h.rows, if_pos ⟨rfl, hne⟩]

/-- Without a current line all rows are saved. -/
theorem rows_saved (h : Agrees cleaner screen) (hnil : cleaner.currentLine = []) (r : ℕ) :
    screen.rows r = cleaner.line r := by
  rw [h.rows, if_neg (fun hr => hr.2 hnil)]

theorem rows_other (h : Agrees cleaner screen) {r : ℕ} (hr : r ≠ cleaner.cursorRow) :
    screen.rows r = cleaner.line r := by
  rw [h.rows, if_neg (fun hc => hr hc.1)]

/-- The cleaner types the same line as the screen: without a current line the cursor is at the
start, so nothing of the row is left on the screen either. -/
theorem typeAt_eq (h : Agrees cleaner screen) (c : Char) :
    typeAt (screen.rows screen.row) screen.col c = (cleaner.print c).currentLine := by
  rw [h.row, h.col]
  simp only [Cleaner.print]
  by_cases hcol : cleaner.cursorCol = 0
  · rw [hcol, typeAt_zero, typeAt_zero]
  · have hne : cleaner.currentLine ≠ [] := fun hnil => hcol (h.start hnil)
    have hcleared : (cleaner.lineCleared && cleaner.cursorCol == 0 &&
        !cleaner.currentLine.isEmpty) = false := by
      simp [hcol]
    rw [hcleared, h.rows_cursor hne]
    rfl

theorem print (h : Agrees cleaner screen) (c : Char) :
    Agrees (cleaner.print c) (screen.print c) where
  row := h.row
  col := by
    simp only [Screen.print]
    rw [h.typeAt_eq c]
    rfl
  start hnil := absurd hnil (typeAt_ne_nil _ _ _)
  rows r := by
    have hne : (cleaner.print c).currentLine ≠ [] := typeAt_ne_nil _ _ _
    simp only [Screen.print]
    rw [h.typeAt_eq c, h.row]
    by_cases hr : r = cleaner.cursorRow
    · rw [hr, Function.update_self, if_pos ⟨rfl, hne⟩]
    · rw [Function.update_of_ne hr, if_neg (fun hc => hr hc.1), h.rows_other hr]
      rfl

/-- Saving the current line writes the row that the screen has. -/
theorem line_save (h : Agrees cleaner screen)
    (hkeeps : cleaner.currentLine = [] → cleaner.line cleaner.cursorRow = []) (isReal : Bool)
    (r : ℕ) :
    (cleaner.saveCurrentLine isReal).line r = screen.rows r := by
  rw [Cleaner.line_saveCurrentLine]
  by_cases hr : r = cleaner.cursorRow
  · rw [if_pos hr, hr]
    by_cases hnil : cleaner.currentLine = []
    · rw [h.rows_saved hnil, hkeeps hnil, hnil]
    · rw [h.rows_cursor hnil]
  · rw [if_neg hr, h.rows_other hr]

theorem lineFeed (h : Agrees cleaner screen) (hkeeps : Keeps cleaner (.execute 10)) :
    Agrees (cleaner.execute 10) (screen.step (.execute 10)) where
  row := congrArg (· + 1) h.row
  col := rfl
  start _ := rfl
  rows r := by
    have hnil : (cleaner.execute 10).currentLine = [] := rfl
    rw [if_neg (fun hc => hc.2 hnil)]
    exact (h.line_save hkeeps true r).symm

theorem carriageReturn (h : Agrees cleaner screen) :
    Agrees (cleaner.execute 13) (screen.step (.execute 13)) where
  row := h.row
  col := rfl
  start _ := rfl
  rows := h.rows

/-- The cursor moves to another row only when all rows are saved. -/
theorem move (h : Agrees cleaner screen) {row : ℕ}
    (hkeeps : cleaner.currentLine ≠ [] → row = cleaner.cursorRow) :
    Agrees { cleaner with cursorRow := row } { screen with row } where
  row := rfl
  col := h.col
  start := h.start
  rows r := by
    by_cases hnil : cleaner.currentLine = []
    · rw [if_neg (fun hc => hc.2 hnil)]
      exact h.rows_saved hnil r
    · rw [hkeeps hnil]
      exact h.rows r

/-- **One step**: a step that keeps the rows does to the cleaner what it does to the screen. -/
theorem step (h : Agrees cleaner screen) {event : Event} (hplain : event.isPlain)
    (hkeeps : Keeps cleaner event) : Agrees (cleaner.step event) (screen.step event) := by
  cases event with
  | print c => exact h.print c
  | ignored => exact h
  | execute byte =>
    rw [Cleaner.step]
    by_cases hfeed : byte = 10
    · subst hfeed
      exact h.lineFeed hkeeps
    by_cases hreturn : byte = 13
    · subst hreturn
      exact h.carriageReturn
    · -- Tabs and backspaces are not plain, and the other bytes do nothing.
      have hself : cleaner.execute byte = cleaner := by
        simp only [Event.isPlain, Bool.and_eq_true, bne_iff_ne] at hplain
        rw [Cleaner.execute] <;> simp_all
      have hscreen : screen.step (.execute byte) = screen := by
        rw [Screen.step, if_neg hfeed, if_neg hreturn]
      rw [hself, hscreen]
      exact h
  | csiDispatch params c =>
    rw [Cleaner.step]
    by_cases hup : c = 'A'
    · subst hup
      rw [Screen.step, if_pos rfl, h.row]
      refine h.move fun hne => ?_
      obtain hzero | htop := hkeeps hne
      · rw [hzero, Nat.sub_zero]
      · rw [htop, Nat.zero_sub]
    by_cases hdown : c = 'B'
    · subst hdown
      rw [Screen.step, if_neg (by decide), if_pos rfl, h.row]
      refine h.move fun hne => ?_
      rw [hkeeps hne, Nat.add_zero]
    · -- Nothing else that is plain does anything.
      have hcleaner : cleaner.csiDispatch params c = cleaner :=
        csiDispatch_eq_self cleaner hplain hup hdown
      have hscreen : screen.step (.csiDispatch params c) = screen := by
        rw [Screen.step, if_neg hup, if_neg hdown]
      rw [hcleaner, hscreen]
      exact h

/-- **The run**: what holds for a step holds for all. -/
theorem run (h : Agrees cleaner screen) {events : List Event}
    (hplain : ∀ event ∈ events, event.isPlain) (hkeeps : KeepsAll cleaner events) :
    Agrees (events.foldl Cleaner.step cleaner) (events.foldl Screen.step screen) := by
  induction events generalizing cleaner screen with
  | nil => exact h
  | cons event events ih =>
    obtain ⟨hevent, hkeeps⟩ := hkeeps
    have hstep := h.step (hplain event mem_cons_self) hevent
    exact ih hstep (fun e he => hplain e (mem_cons_of_mem _ he)) hkeeps

/-- At the end the last current line is saved, and all rows are those of the screen. -/
theorem line_finish (h : Agrees cleaner screen) (r : ℕ) :
    cleaner.finish.line r = screen.rows r := by
  rw [Cleaner.finish]
  by_cases hnil : cleaner.currentLine = []
  · rw [if_pos (isEmpty_iff.mpr hnil), h.rows_saved hnil]
  · rw [if_neg (by simpa using hnil), h.line_save (fun hc => absurd hc hnil)]

end Agrees

/-! ## The output -/

theorem find?_reverse_range {p : ℕ → Bool} {n k : ℕ}
    (h : (List.range n).reverse.find? p = some k) :
    k < n ∧ p k ∧ ∀ r, k < r → r < n → p r = false := by
  induction n with
  | zero => cases h
  | succ n ih =>
    rw [range_succ, reverse_append, reverse_singleton, singleton_append,
      find?_cons] at h
    cases hn : p n with
    | true =>
      rw [hn] at h
      have hk : n = k := Option.some.inj h
      rw [← hk]
      exact ⟨Nat.lt_succ_self n, hn, fun r hr hlt => absurd hlt (by omega)⟩
    | false =>
      rw [hn] at h
      obtain ⟨hlt, hk, hrest⟩ := ih h
      refine ⟨Nat.lt_succ_of_lt hlt, hk, fun r hr hr' => ?_⟩
      obtain heq | hlt := Nat.eq_or_lt_of_le (Nat.le_of_lt_succ hr')
      · rw [heq]
        exact hn
      · exact hrest r hr hlt

/-- `rposition` finds nothing where all rows are empty. -/
theorem lastNonEmpty_eq_none {rows : List (List Char)} (h : lastNonEmpty rows = none) (r : ℕ) :
    rows.getD r [] = [] := by
  by_cases hr : r < rows.length
  · have hnone := find?_eq_none.mp h r (mem_reverse.mpr (mem_range.mpr hr))
    simpa using hnone
  · rw [getD_eq_getElem?_getD, getElem?_eq_none (Nat.le_of_not_lt hr)]
    rfl

/-- `rposition` finds a row with text, and all rows behind it are empty. -/
theorem lastNonEmpty_eq_some {rows : List (List Char)} {last : ℕ}
    (h : lastNonEmpty rows = some last) :
    last < rows.length ∧ rows.getD last [] ≠ [] ∧ ∀ r, last < r → rows.getD r [] = [] := by
  obtain ⟨hlt, hlast, hrest⟩ := find?_reverse_range h
  refine ⟨hlt, by simpa using hlast, fun r hr => ?_⟩
  by_cases hr' : r < rows.length
  · simpa using hrest r hr hr'
  · rw [getD_eq_getElem?_getD, getElem?_eq_none (Nat.le_of_not_lt hr')]
    rfl

/-- The output shows the rows that were saved. -/
theorem showsScreen_buildOutput (h : ∀ r, cleaner.line r = screen.rows r) :
    ShowsScreen cleaner.buildOutput screen := by
  have hrows : cleaner.line = screen.rows := funext h
  rw [Cleaner.buildOutput]
  cases hlast : lastNonEmpty cleaner.lines with
  | none =>
    refine ⟨[], List.Pairwise.nil, fun r hr => absurd ?_ hr, rfl⟩
    rw [← h]
    exact lastNonEmpty_eq_none hlast r
  | some last =>
    obtain ⟨-, -, hrest⟩ := lastNonEmpty_eq_some hlast
    refine ⟨cleaner.shownRows last, pairwise_lt_range.filter _, fun r hr => ?_, by rw [hrows]⟩
    rw [← h] at hr
    refine mem_filter.mpr ⟨mem_range.mpr ?_, by simp [hr]⟩
    by_contra hlt
    exact hr (hrest r (by omega))

/-! ## Plain text -/

/-- `char::is_control`. -/
def isControl (c : Char) : Bool := c.toNat < 32 || (127 ≤ c.toNat && c.toNat < 160)

/-- There are no control characters but those of line ends. -/
def IsPlainText (text : List Char) : Prop := ∀ line ∈ lines text, ∀ c ∈ line, isControl c = false

/-- What the parser reports for plain text. -/
def textEvents (text : List Char) : List Event :=
  text.map fun c => if c = '\n' ∨ c = '\r' then .execute c.toNat else .print c

/-- The cleaner after some lines, with a start of the next one. -/
def afterLines (rows : List (List Char)) (start : List Char) : Cleaner :=
  ⟨rows, List.replicate rows.length true, start, byteLength start, false, rows.length⟩

/-- The characters of a line are appended to the current line. -/
theorem foldl_print (rows : List (List Char)) (start : List Char) {line : List Char}
    (h : ∀ c ∈ line, isControl c = false) :
    (textEvents line).foldl Cleaner.step (afterLines rows start) =
      afterLines rows (start ++ line) := by
  induction line generalizing start with
  | nil =>
    rw [append_nil]
    rfl
  | cons c line ih =>
    obtain ⟨hc, hline⟩ := forall_mem_cons.mp h
    have hprint : ¬(c = '\n' ∨ c = '\r') := by
      rintro (rfl | rfl) <;> exact absurd hc (by decide)
    have hstep : (afterLines rows start).step (.print c) = afterLines rows (start ++ [c]) := by
      simp only [Cleaner.step, Cleaner.print, afterLines, Bool.false_and, Bool.false_eq_true,
        if_false, typeAt_end]
    rw [textEvents, map_cons, if_neg hprint, foldl_cons, hstep]
    refine Eq.trans (ih _ hline) ?_
    rw [append_assoc, singleton_append]

/-- The current line is saved behind the lines before it. -/
theorem saveCurrentLine_afterLines (rows : List (List Char)) (line : List Char) :
    (afterLines rows line).saveCurrentLine true =
      { afterLines (rows ++ [line]) [] with
        cursorCol := byteLength line, cursorRow := rows.length } := by
  have hone : rows.length + 1 - rows.length = 1 := by omega
  simp only [Cleaner.saveCurrentLine, Cleaner.ensureRowExists, afterLines, hone,
    replicate_one, if_true, length_append, length_singleton]
  rw [set_append_right _ _ (Nat.le_refl _), Nat.sub_self, set_cons_zero,
    set_append_right _ _ (by rw [length_replicate]), length_replicate, Nat.sub_self,
    set_cons_zero, replicate_succ']

theorem lineFeed_afterLines (rows : List (List Char)) (line : List Char) :
    (afterLines rows line).execute 10 = afterLines (rows ++ [line]) [] := by
  rw [Cleaner.execute, saveCurrentLine_afterLines]
  simp [afterLines]

/-- A carriage return before the line feed makes no difference. -/
theorem carriageReturn_lineFeed (cleaner : Cleaner) :
    (cleaner.execute 13).execute 10 = cleaner.execute 10 := rfl

/-- A line with its end, which is a line feed or a carriage return and a line feed. -/
theorem foldl_line (rows : List (List Char)) (line : List Char)
    (h : ∀ c ∈ line, isControl c = false) {ending : List Char}
    (hending : ending = ['\n'] ∨ ending = ['\r', '\n']) :
    (textEvents (line ++ ending)).foldl Cleaner.step (afterLines rows []) =
      afterLines (rows ++ [line]) [] := by
  rw [textEvents, map_append, foldl_append]
  have hline := foldl_print rows [] h
  rw [textEvents, nil_append] at hline
  rw [hline]
  obtain rfl | rfl := hending
  · exact lineFeed_afterLines rows line
  · exact (carriageReturn_lineFeed _).trans (lineFeed_afterLines rows line)

theorem exists_first_line {text : List Char} (h : '\n' ∈ text) : ∃ line ending rest,
    text = line ++ ending ++ rest ∧ lines text = line :: lines rest ∧
      (ending = ['\n'] ∨ ending = ['\r', '\n']) := by
  obtain ⟨w, rest, rfl, hw⟩ := eq_append_cons_of_mem h
  by_cases hreturn : w.getLast? = some '\r'
  · refine ⟨w.dropLast, ['\r', '\n'], rest, ?_, ?_, Or.inr rfl⟩
    · obtain ⟨v, rfl⟩ := getLast?_eq_some_iff.mp hreturn
      simp
    · rw [Text.lines_append hw, if_pos hreturn]
  · refine ⟨w, ['\n'], rest, by simp, ?_, Or.inl rfl⟩
    rw [Text.lines_append hw, if_neg hreturn]

/-- **Plain text**: the rows are its lines, and each was written by a line feed or at the end. -/
theorem finish_plain {text : List Char} (h : IsPlainText text) (rows : List (List Char)) :
    ((textEvents text).foldl Cleaner.step (afterLines rows [])).finish.lines = rows ++ lines text ∧
      ((textEvents text).foldl Cleaner.step (afterLines rows [])).finish.lineIsReal =
        List.replicate (rows ++ lines text).length true := by
  by_cases hfeed : '\n' ∈ text
  · obtain ⟨line, ending, rest, htext, hlines, hending⟩ := exists_first_line hfeed
    have hline : ∀ c ∈ line, isControl c = false := h line (by simp [hlines])
    have hrest : IsPlainText rest := fun l hl => h l (by simp [hlines, hl])
    have hshorter : rest.length < text.length := by
      rw [htext]
      obtain rfl | rfl := hending <;> simp <;> omega
    have ih := finish_plain hrest (rows ++ [line])
    rw [append_assoc, singleton_append, ← hlines] at ih
    rw [htext, textEvents, map_append, foldl_append]
    have hfold := foldl_line rows line hline hending
    rw [textEvents] at hfold
    rw [hfold, ← htext]
    exact ih
  · by_cases hnil : text = []
    · subst hnil
      refine ⟨?_, ?_⟩ <;> simp [textEvents, afterLines, Cleaner.finish, Text.lines,
        Text.splitInclusive]
    · have hlines := Text.lines_of_not_mem hfeed hnil
      have hline : ∀ c ∈ text, isControl c = false := h text (by simp [hlines])
      have hfinish : (afterLines rows text).finish = (afterLines rows text).saveCurrentLine true :=
        if_neg (by simpa [afterLines] using hnil)
      rw [foldl_print rows [] hline, nil_append, hfinish, saveCurrentLine_afterLines, hlines]
      exact ⟨rfl, rfl⟩
  termination_by text.length

/-- The rows up to an index, read one by one. -/
theorem map_getD_range {rows : List (List Char)} {n : ℕ} (h : n ≤ rows.length) :
    (List.range n).map (fun i => rows.getD i []) = rows.take n := by
  refine ext_getElem (by simp [h]) fun i hi hi' => ?_
  have hlt : i < rows.length := by
    rw [length_take] at hi'
    omega
  rw [getElem_map, getElem_range, getElem_take, getD_eq_getElem _ _ hlt]

/-- Dropping the empty lines at the end leaves the lines up to the last one with text. -/
theorem rdropWhile_isEmpty {rows : List (List Char)} {last : ℕ}
    (h : lastNonEmpty rows = some last) :
    rows.rdropWhile List.isEmpty = (List.range (last + 1)).map fun i => rows.getD i [] := by
  obtain ⟨hlt, hlast, hrest⟩ := lastNonEmpty_eq_some h
  have hdrop : ∀ line ∈ (rows.drop (last + 1)).reverse, line.isEmpty := by
    intro line hline
    obtain ⟨i, hi, rfl⟩ := mem_iff_getElem.mp (mem_reverse.mp hline)
    rw [length_drop] at hi
    have hempty := hrest (last + 1 + i) (by omega)
    rw [getD_eq_getElem _ _ (by omega)] at hempty
    rw [getElem_drop, hempty]
    rfl
  have htake : (rows.take (last + 1)).reverse = rows[last] :: (rows.take last).reverse := by
    rw [take_succ_eq_append_getElem hlt, reverse_concat]
  rw [getD_eq_getElem _ _ hlt] at hlast
  have hne : ¬rows[last].isEmpty = true := by simpa using hlast
  rw [map_getD_range hlt, List.rdropWhile]
  conv_lhs => rw [← take_append_drop (last + 1) rows]
  rw [reverse_append, dropWhile_append_of_pos hdrop, htake,
    dropWhile_cons_of_neg hne, ← htake, reverse_reverse]

/-- **Plain text comes out unchanged**, without the empty lines at its end. -/
theorem process_plain {text : List Char} (h : IsPlainText text) :
    Cleaner.new.process (textEvents text) = joinLines ((lines text).rdropWhile List.isEmpty) := by
  obtain ⟨hlines, hreal⟩ := finish_plain h []
  have hnew : afterLines [] [] = Cleaner.new := rfl
  rw [hnew, nil_append] at hlines hreal
  rw [Cleaner.process, Cleaner.buildOutput]
  generalize (textEvents text).foldl Cleaner.step Cleaner.new = cleaner at hlines hreal
  rw [hlines]
  cases hlast : lastNonEmpty (lines text) with
  | none =>
    have hempty : ∀ line ∈ lines text, line.isEmpty := by
      intro line hline
      obtain ⟨i, hi, rfl⟩ := mem_iff_getElem.mp hline
      have hnil := lastNonEmpty_eq_none hlast i
      rw [getD_eq_getElem _ _ hi] at hnil
      rw [hnil]
      rfl
    rw [rdropWhile_eq_nil_iff.mpr hempty]
    rfl
  | some last =>
    obtain ⟨hlt, -, -⟩ := lastNonEmpty_eq_some hlast
    -- Every row was written by a line feed, or is the last line with text.
    have hshown : cleaner.finish.shownRows last = List.range (last + 1) := by
      refine filter_eq_self.mpr fun i hi => ?_
      have hi : i < (lines text).length := by
        rw [mem_range] at hi
        omega
      rw [hreal, getD_eq_getElem _ _ (by simpa using hi), getElem_replicate,
        Bool.or_true]
    have hline : cleaner.finish.line = fun i => (lines text).getD i [] := by
      funext i
      rw [Cleaner.line, hlines]
    rw [rdropWhile_isEmpty hlast]
    simp only [hshown, hline]

/-! ## Rows are kept -/

/-- The output shows the screen for all events that print, feed lines, return the carriage, move
the cursor up and down or are ignored. -/
def RowsKept (events : List Event) : Prop :=
  ShowsScreen (Cleaner.new.process events) (events.foldl Screen.step .empty)

/-- **The cleaner keeps untouched rows** in every run whose steps lose no row: after any events of
a terminal that only prints, feeds lines, returns carriages and moves its cursor up and down, the
output is the screen, row by row. Plain text comes out as its lines, whatever they are. -/
theorem rows_kept (events : List Event) (text : List Char) :
    ((∀ event ∈ events, event.isPlain) → KeepsAll .new events → RowsKept events) ∧
    (IsPlainText text →
      Cleaner.new.process (textEvents text) =
        joinLines ((lines text).rdropWhile List.isEmpty)) := by
  refine ⟨fun hplain hkeeps => ?_, fun htext => process_plain htext⟩
  have hagrees := agrees_new.run hplain hkeeps
  exact showsScreen_buildOutput fun r => hagrees.line_finish r

/-- A row is left, entered again and printed on; a second text has empty lines and both kinds of
line ends. -/
theorem rows_kept_reentered :
    RowsKept [.print 'a', .execute 10, .csiDispatch [[1]] 'A', .print 'b', .execute 13,
      .execute 10] ∧
      Cleaner.new.process (textEvents ['a', '\r', '\n', '\n', 'b', '\n', '\n']) =
        joinLines ((lines ['a', '\r', '\n', '\n', 'b', '\n', '\n']).rdropWhile List.isEmpty) := by
  refine ⟨(rows_kept _ []).1 (by decide) ⟨trivial, ?_, ?_, trivial, trivial, ?_, trivial⟩,
    (rows_kept [] _).2 ?_⟩
  · exact fun hnil => absurd hnil (by decide)
  · exact fun hne => absurd rfl hne
  · exact fun hnil => absurd hnil (by decide)
  · have hlines : lines ['a', '\r', '\n', '\n', 'b', '\n', '\n'] = [['a'], [], ['b'], []] := by
      decide
    rw [IsPlainText, hlines]
    have ha : isControl 'a' = false := rfl
    have hb : isControl 'b' = false := rfl
    simp [ha, hb]

/-- What is on a line is in the text of the lines. -/
theorem mem_joinLines {c : Char} {line : List Char} {rows : List (List Char)} (hc : c ∈ line)
    (hline : line ∈ rows) : c ∈ joinLines rows := by
  induction rows with
  | nil => cases hline
  | cons row rows ih =>
    cases rows with
    | nil =>
      rw [joinLines, intercalate_singleton]
      rwa [mem_singleton.mp hline] at hc
    | cons row' rows =>
      rw [joinLines, intercalate_cons_cons, append_assoc]
      obtain rfl | hline := mem_cons.mp hline
      · exact mem_append_left _ hc
      · exact mem_append_right _ (mem_append_right _ (ih hline))

/-- **A row is lost** by stepping over it: the cursor goes up to the first row, and a line feed
writes an empty line over it. -/
theorem rows_kept_fails :
    ¬∀ events : List Event, (∀ event ∈ events, event.isPlain) → RowsKept events := by
  intro hall
  obtain ⟨kept, -, hkept, houtput⟩ :=
    hall [.print 'a', .execute 10, .csiDispatch [[1]] 'A', .execute 10] (by decide)
  have hempty : Cleaner.new.process [.print 'a', .execute 10, .csiDispatch [[1]] 'A',
      .execute 10] = [] := by decide
  rw [hempty] at houtput
  have ha : 'a' ∈ ([] : List Char) := by
    rw [houtput]
    refine mem_joinLines ?_ (mem_map_of_mem (hkept 0 (by decide)))
    decide
  cases ha

end AnsiCleaner

end OpenBitFun
