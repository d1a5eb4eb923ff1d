import OpenBitFun.TextSlices

/-!
# Cleaning terminal output

A command's output is cut down to plain text (`ansi_cleaner.rs`). An escape-sequence parser turns
the bytes into events, and the cleaner keeps the rows of the text, the row that is being written
(the current line, which is not among the rows yet), and the place of the cursor. Columns are bytes
of the current line.
-/

namespace OpenBitFun

open List

namespace AnsiCleaner

open Text (byteLength splitAt? joinLines)

/-! ## Events -/

/-- What the parser reports (`Perform`). -/
inductive Event
  | print (c : Char)
  | execute (byte : ℕ)
  | csiDispatch (params : List (List ℕ)) (c : Char)
  /-- `esc_dispatch`, `osc_dispatch`, `hook`, `put` and `unhook` do nothing. -/
  | ignored
  deriving DecidableEq

/-- `AnsiCleaner`. -/
structure Cleaner where
  /-- The rows that have been saved. -/
  lines : List (List Char)
  /-- Which of them were written by a line feed, and did not only fill a gap. -/
  lineIsReal : List Bool
  /-- The row that is being written. -/
  currentLine : List Char
  cursorCol : ℕ
  /-- The line was just cleared, or the cursor went back to its start. -/
  lineCleared : Bool
  cursorRow : ℕ
  deriving DecidableEq

/-- `AnsiCleaner::new`. -/
def Cleaner.new : Cleaner := ⟨[], [], [], 0, false, 0⟩

/-! ## Lines -/

/-- `floor_char_boundary` from a position that is inside the string. -/
def floorFrom (s : List Char) : ℕ → ℕ
  | 0 => 0
  | pos + 1 => if (splitAt? s (pos + 1)).isSome then pos + 1 else floorFrom s pos

/-- `floor_char_boundary`. -/
def floorCharBoundary (s : List Char) (index : ℕ) : ℕ := floorFrom s (min index (byteLength s))

/-- `String::truncate` at a character boundary. -/
def truncate (s : List Char) (n : ℕ) : List Char := ((splitAt? s n).map Prod.fst).getD s

/-- The first `n` bytes, rounded down to a boundary, which is where `print` and `ESC[K` cut. -/
def truncateFloor (s : List Char) (n : ℕ) : List Char := truncate s (floorCharBoundary s n)

@[simp] theorem truncateFloor_zero (s : List Char) : truncateFloor s 0 = [] := by
  have h : floorCharBoundary s 0 = 0 := by rw [floorCharBoundary, Nat.zero_min, floorFrom]
  rw [truncateFloor, h, truncate, splitAt?]
  rfl

/-- Writes a character in a column: what is behind the column goes away, and a gap before it is
filled with spaces. -/
def typeAt (line : List Char) (col : ℕ) (c : Char) : List Char :=
  (if col < byteLength line then truncateFloor line col
    else line ++ List.replicate (col - byteLength line) ' ') ++ [c]

@[simp] theorem typeAt_zero (line : List Char) (c : Char) : typeAt line 0 c = [c] := by
  rw [typeAt]
  by_cases h : 0 < byteLength line
  · rw [if_pos h, truncateFloor_zero, nil_append]
  · have hnil : line = [] := by
      by_contra hne
      exact h (Text.byteLength_pos hne)
    rw [if_neg h, hnil]
    rfl

/-- At the end of the line the character is appended. -/
theorem typeAt_end (line : List Char) (c : Char) :
    typeAt line (byteLength line) c = line ++ [c] := by
  simp [typeAt]

theorem typeAt_ne_nil (line : List Char) (col : ℕ) (c : Char) : typeAt line col c ≠ [] := by
  simp [typeAt]

/-! ## Rows -/

namespace Cleaner

/-- `ensure_row_exists`: the rows up to this one are filled in. -/
def ensureRowExists (self : Cleaner) (row : ℕ) : Cleaner :=
  { self with
    lines := self.lines ++ List.replicate (row + 1 - self.lines.length) []
    lineIsReal := self.lineIsReal ++ List.replicate (row + 1 - self.lines.length) false }

/-- `save_current_line`. -/
def saveCurrentLine (self : Cleaner) (isReal : Bool) : Cleaner :=
  let self := self.ensureRowExists self.cursorRow
  { self with
    lines := self.lines.set self.cursorRow self.currentLine
    lineIsReal := if isReal then self.lineIsReal.set self.cursorRow true else self.lineIsReal
    currentLine := [] }

/-- The row as it is saved; there is nothing on a row behind the last one. -/
def line (self : Cleaner) (row : ℕ) : List Char := self.lines.getD row []

/-! ## Events -/

/-- `print`. -/
def print (self : Cleaner) (c : Char) : Cleaner :=
  let currentLine :=
    if self.lineCleared && self.cursorCol == 0 && !self.currentLine.isEmpty then []
    else self.currentLine
  let currentLine := typeAt currentLine self.cursorCol c
  { self with currentLine, lineCleared := false, cursorCol := byteLength currentLine }

/-- `execute`. -/
def execute (self : Cleaner) (byte : ℕ) : Cleaner :=
  match byte with
  -- Line feed.
  | 10 =>
    { self.saveCurrentLine true with
      cursorCol := 0, cursorRow := self.cursorRow + 1, lineCleared := false }
  -- Carriage return.
  | 13 =>
    { self with
      cursorCol := 0
      lineCleared := if self.currentLine.isEmpty then self.lineCleared else true }
  -- Tab.
  | 9 =>
    let currentLine := self.currentLine ++ List.replicate (8 - self.cursorCol % 8) ' '
    { self with currentLine, lineCleared := false, cursorCol := byteLength currentLine }
  -- Backspace.
  | 8 =>
    { self with
      lineCleared := false
      currentLine := self.currentLine.dropLast
      cursorCol := if self.currentLine.isEmpty then self.cursorCol else self.cursorCol - 1 }
  | _ => self

/-- The first parameter, which is 1 where there is none. -/
def param (params : List (List ℕ)) : ℕ := (params.head?.bind List.head?).getD 1

/-- The row is read back: the cursor enters it in this column. -/
def reload (self : Cleaner) (row : ℕ) (col : List Char → ℕ) : Cleaner :=
  let self := self.ensureRowExists row
  { self with
    cursorRow := row, currentLine := self.line row, cursorCol := col (self.line row) }

/-- `H` and `f`: column 1 starts a logical line of its own, and a high column right after a line
break goes on with the line before. -/
def cursorPosition (self : Cleaner) (params : List (List ℕ)) : Cleaner :=
  let targetCol := ((params[1]?.bind List.head?).getD 1) - 1
  if targetCol = 0 then
    let self :=
      if self.currentLine.isEmpty then self
      else { self.saveCurrentLine true with cursorRow := self.cursorRow + 1 }
    self.reload self.cursorRow fun _ => 0
  else if self.currentLine.isEmpty && decide (0 < self.cursorRow) then
    self.reload (self.cursorRow - 1) fun line => byteLength line - 1
  else { self with cursorCol := targetCol }

/-- `K`: erases in the line. -/
def eraseInLine (self : Cleaner) (param : ℕ) : Cleaner :=
  match param with
  | 0 =>
    { self with
      currentLine := truncateFloor self.currentLine self.cursorCol
      lineCleared := if self.cursorCol = 0 then true else self.lineCleared }
  | 1 | 2 => { self with currentLine := [], cursorCol := 0, lineCleared := true }
  | _ => self

/-- `csi_dispatch`. -/
def csiDispatch (self : Cleaner) (params : List (List ℕ)) (c : Char) : Cleaner :=
  match c with
  | 'G' => { self with cursorCol := param params - 1 }
  | 'C' => { self with cursorCol := self.cursorCol + param params }
  | 'A' => { self with cursorRow := self.cursorRow - param params }
  | 'B' | 'e' => { self with cursorRow := self.cursorRow + param params }
  | 'D' => { self with cursorCol := self.cursorCol - min (param params) self.cursorCol }
  | 'H' | 'f' => self.cursorPosition params
  | 'K' => self.eraseInLine (param params)
  | 'J' =>
    if param params = 2 then
      { self with lines := [], lineIsReal := [], currentLine := [], cursorCol := 0, cursorRow := 0 }
    else self
  -- `X` is ignored like all the others: later text overwrites what it would erase.
  | _ => self

/-- One event. -/
def step (self : Cleaner) : Event → Cleaner
  | .print c => self.print c
  | .execute byte => self.execute byte
  | .csiDispatch params c => self.csiDispatch params c
  | .ignored => self

/-! ## The output -/

/-- The last row that is not empty (`rposition`). -/
def lastNonEmpty (lines : List (List Char)) : Option ℕ :=
  (List.range lines.length).reverse.find? fun i => !(lines.getD i []).isEmpty

/-- The rows that are shown: those with text on them, and the empty ones that a line feed wrote. -/
def shownRows (self : Cleaner) (last : ℕ) : List ℕ :=
  (List.range (last + 1)).filter fun i =>
    !(self.line i).isEmpty || self.lineIsReal.getD i false

/-- `build_output`. -/
def buildOutput (self : Cleaner) : List Char :=
  match lastNonEmpty self.lines with
  | none => []
  | some last => joinLines ((self.shownRows last).map self.line)

/-- The end of `process`: the current line is saved if there is something on it. -/
def finish (self : Cleaner) : Cleaner :=
  if self.currentLine.isEmpty then self else self.saveCurrentLine true

/-- `process`, from the parser's events on. -/
def process (self : Cleaner) (events : List Event) : List Char :=
  (events.foldl step self).finish.buildOutput

/-! ## Small facts about rows -/

variable {self : Cleaner}

theorem line_ensureRowExists (row r : ℕ) : (self.ensureRowExists row).line r = self.line r := by
  rw [line, line, ensureRowExists]
  simp only [getD_eq_getElem?_getD]
  by_cases h : r < self.lines.length
  · rw [getElem?_append_left h]
  · rw [getElem?_append_right (Nat.le_of_not_lt h), getElem?_replicate,
      getElem?_eq_none (Nat.le_of_not_lt h)]
    by_cases h' : r - self.lines.length < row + 1 - self.lines.length
    · rw [if_pos h']
      rfl
    · rw [if_neg h']

/-- Saving writes the current line to the cursor's row and to no other. -/
theorem line_saveCurrentLine (isReal : Bool) (r : ℕ) :
    (self.saveCurrentLine isReal).line r =
      if r = self.cursorRow then self.currentLine else self.line r := by
  have hlen : self.cursorRow < (self.ensureRowExists self.cursorRow).lines.length := by
    simp only [ensureRowExists, length_append, length_replicate]
    omega
  by_cases h : r = self.cursorRow
  · subst h
    rw [if_pos rfl]
    simp only [saveCurrentLine, line, getD_eq_getElem?_getD, ensureRowExists]
    simp only [ensureRowExists] at hlen
    rw [getElem?_set_self hlen]
    rfl
  · rw [if_neg h]
    refine Eq.trans ?_ (line_ensureRowExists self.cursorRow r)
    simp only [saveCurrentLine, line, getD_eq_getElem?_getD, ensureRowExists]
    rw [getElem?_set_ne (Ne.symm h)]

end Cleaner

end AnsiCleaner

end OpenBitFun
