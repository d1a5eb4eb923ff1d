import OpenBitFun.DiffService

/-!
# What the hunks say

The hunks are about the lines of the script, which are those of `similar`. They say what the script
says if `str::lines` has the same lines where the hunks show them.
-/

namespace OpenBitFun

open List

namespace DiffService

/-! ## The lines of the script -/

/-- The lines of `similar`: each ends after a line feed, after both, or after a lone carriage
return. -/
def tokenizeLines : List Char → List (List Char)
  | [] => []
  | c :: text =>
    if c = '\n' ∨ c = '\r' ∧ text.head? ≠ some '\n' then [c] :: tokenizeLines text
    else match tokenizeLines text with
      | [] => [[c]]
      | line :: lines => (c :: line) :: lines

/-- What is in these lines, without the line feed and the carriage return in front of it. -/
def lineContents (text : List Char) : List (List Char) :=
  (tokenizeLines text).map Text.stripLineEnd

/-! ## What hunks have to say -/

/-- The lines that a hunk puts in the place of its range. -/
def DiffHunk.newContents (hunk : DiffHunk) : List (List Char) :=
  (hunk.lines.filter (·.lineType ≠ .delete)).map DiffLine.content

/-- The lines `a` from a place on, with the range of each hunk replaced. -/
def patch (a : List (List Char)) : ℕ → List DiffHunk → List (List Char)
  | pos, [] => a.drop pos
  | pos, hunk :: hunks =>
    (a.drop pos).take (hunk.oldStart - 1 - pos) ++ hunk.newContents ++
      patch a (hunk.oldStart - 1 + hunk.oldLines) hunks

/-- The two ranges of each hunk start at places that belong together, behind ranges of the given
lengths. -/
def InPlace : ℕ → ℕ → List DiffHunk → Prop
  | _, _, [] => True
  | oldBefore, newBefore, hunk :: hunks =>
    hunk.oldStart - 1 + newBefore = hunk.newStart - 1 + oldBefore ∧
      InPlace (oldBefore + hunk.oldLines) (newBefore + hunk.newLines) hunks

/-- How many lines of a type hunks have. -/
def countLines (lineType : DiffLineType) (hunks : List DiffHunk) : ℕ :=
  (hunks.map fun hunk => hunk.lines.countP (·.lineType = lineType)).sum

/-- A result describes how the lines `a` become the lines `b`. -/
structure Describes (a b : List (List Char)) (result : DiffResult) : Prop where
  /-- A context or deleted line is the original's line with its number. -/
  oldLine : ∀ hunk ∈ result.hunks, ∀ line ∈ hunk.lines, line.lineType ≠ .add →
    ∃ n, line.oldLineNumber = some (n + 1) ∧ a[n]? = some line.content
  /-- A context or added line is the modified text's line with its number. -/
  newLine : ∀ hunk ∈ result.hunks, ∀ line ∈ hunk.lines, line.lineType ≠ .delete →
    ∃ n, line.newLineNumber = some (n + 1) ∧ b[n]? = some line.content
  /-- The range of the original is what these lines cover. -/
  oldRange : ∀ hunk ∈ result.hunks,
    (hunk.lines.filter (·.lineType ≠ .add)).map DiffLine.oldLineNumber =
      (List.range' hunk.oldStart hunk.oldLines).map some
  /-- So is the range of the modified text. -/
  newRange : ∀ hunk ∈ result.hunks,
    (hunk.lines.filter (·.lineType ≠ .delete)).map DiffLine.newLineNumber =
      (List.range' hunk.newStart hunk.newLines).map some
  /-- A range without lines is in the place that belongs to the other one. -/
  places : InPlace 0 0 result.hunks
  /-- The hunks make the modified text of the original. -/
  patched : patch a 0 result.hunks = b
  additions : result.additions = countLines .add result.hunks
  deletions : result.deletions = countLines .delete result.hunks
  changes : result.changes = result.additions + result.deletions

/-- A group that only inserts is at the start of the original, and one that only deletes at the
start of the modified text: no line of the other side says where it is. -/
def Located (group : List DiffOp) : Prop :=
  (group.all DiffOp.isInsert = true → ∀ op ∈ group, 0 < op.newLen → op.oldIndex = 0) ∧
    (group.all DiffOp.isDelete = true → ∀ op ∈ group, 0 < op.oldLen → op.newIndex = 0)

/-- The condition: `str::lines` has the lines that the script shows. -/
structure Aligned (original modified : List Char) (groups : List (List DiffOp)) : Prop where
  /-- The lines that are taken from the original. -/
  old : ∀ group ∈ groups, ∀ op ∈ group, ∀ n ∈ op.oldItems,
    (lineContents original)[n]? = some ((Text.lines original).getD n [])
  /-- The lines that are taken from the modified text. -/
  new : ∀ group ∈ groups, ∀ op ∈ group, ∀ n ∈ op.newItems,
    (lineContents modified)[n]? = some ((Text.lines modified).getD n [])
  located : ∀ group ∈ groups, Located group

/-! ## The lines of an operation -/

section lines

variable (originalLines modifiedLines : List (List Char))

/-- The lines that an operation adds to its hunk. -/
def opLines : DiffOp → List DiffLine
  | .equal oldIndex newIndex len => contextRange originalLines oldIndex newIndex len
  | .delete oldIndex oldLen _ => deletedRange originalLines oldIndex oldLen
  | .insert _ newIndex newLen => addedRange modifiedLines newIndex newLen
  | .replace oldIndex oldLen newIndex newLen =>
    deletedRange originalLines oldIndex oldLen ++ addedRange modifiedLines newIndex newLen

/-- The lines of a group. -/
def groupLines (group : List DiffOp) : List DiffLine :=
  group.flatMap (opLines originalLines modifiedLines)

/-- The start of a group on a side where all its operations have lines but those `empty`. -/
def groupStart (empty : Bool) (index : ℕ) : ℕ := if empty then 0 else index + 1

variable {originalLines modifiedLines}

/-- Lines of one type are kept or dropped together. -/
theorem filter_map_range (p : DiffLineType → Bool) (f : ℕ → DiffLine) (lineType : DiffLineType)
    (hf : ∀ i, (f i).lineType = lineType) (len : ℕ) :
    ((List.range len).map f).filter (fun line => p line.lineType) =
      if p lineType then (List.range len).map f else [] := by
  split
  · rename_i hp
    apply filter_eq_self.2
    simp [hf, hp]
  · rename_i hp
    apply filter_eq_nil_iff.2
    simp [hf, hp]

theorem map_range_add (i len : ℕ) :
    (List.range len).map (fun k => some (i + k + 1)) = (List.range' (i + 1) len).map some := by
  rw [range'_eq_map_range, map_map]
  refine map_congr_left fun k _ => ?_
  simp only [Function.comp_apply]
  congr 1
  omega

theorem oldNumbers_opLines (op : DiffOp) :
    ((opLines originalLines modifiedLines op).filter (·.lineType ≠ .add)).map
      DiffLine.oldLineNumber = (List.range' (op.oldIndex + 1) op.oldLen).map some := by
  cases op with
  | equal i j len =>
    rw [opLines, contextRange, filter_map_range (· ≠ .add) _ .context fun _ => rfl,
      if_pos (by decide), map_map]
    exact map_range_add i len
  | delete i len j =>
    rw [opLines, deletedRange, filter_map_range (· ≠ .add) _ .delete fun _ => rfl,
      if_pos (by decide), map_map]
    exact map_range_add i len
  | insert i j len =>
    rw [opLines, addedRange, filter_map_range (· ≠ .add) _ .add fun _ => rfl,
      if_neg (by decide)]
    rfl
  | replace i len j newLen =>
    rw [opLines, deletedRange, addedRange, filter_append,
      filter_map_range (· ≠ .add) _ .delete fun _ => rfl, if_pos (by decide),
      filter_map_range (· ≠ .add) _ .add fun _ => rfl, if_neg (by decide), append_nil,
      map_map]
    exact map_range_add i len

theorem newNumbers_opLines (op : DiffOp) :
    ((opLines originalLines modifiedLines op).filter (·.lineType ≠ .delete)).map
      DiffLine.newLineNumber = (List.range' (op.newIndex + 1) op.newLen).map some := by
  cases op with
  | equal i j len =>
    rw [opLines, contextRange, filter_map_range (· ≠ .delete) _ .context fun _ => rfl,
      if_pos (by decide), map_map]
    exact map_range_add j len
  | delete i len j =>
    rw [opLines, deletedRange, filter_map_range (· ≠ .delete) _ .delete fun _ => rfl,
      if_neg (by decide)]
    rfl
  | insert i j len =>
    rw [opLines, addedRange, filter_map_range (· ≠ .delete) _ .add fun _ => rfl,
      if_pos (by decide), map_map]
    exact map_range_add j len
  | replace i len j newLen =>
    rw [opLines, deletedRange, addedRange, filter_append,
      filter_map_range (· ≠ .delete) _ .delete fun _ => rfl, if_neg (by decide),
      filter_map_range (· ≠ .delete) _ .add fun _ => rfl, if_pos (by decide), nil_append,
      map_map]
    exact map_range_add j newLen

theorem mem_contextRange {i j len : ℕ} {line : DiffLine} :
    line ∈ contextRange originalLines i j len ↔ ∃ k < len,
      line = ⟨.context, originalLines.getD (i + k) [], some (i + k + 1), some (j + k + 1)⟩ := by
  simp only [contextRange, mem_map, mem_range, eq_comm]

theorem mem_deletedRange {i len : ℕ} {line : DiffLine} :
    line ∈ deletedRange originalLines i len ↔ ∃ k < len,
      line = ⟨.delete, originalLines.getD (i + k) [], some (i + k + 1), none⟩ := by
  simp only [deletedRange, mem_map, mem_range, eq_comm]

theorem mem_addedRange {j len : ℕ} {line : DiffLine} :
    line ∈ addedRange modifiedLines j len ↔ ∃ k < len,
      line = ⟨.add, modifiedLines.getD (j + k) [], none, some (j + k + 1)⟩ := by
  simp only [addedRange, mem_map, mem_range, eq_comm]

theorem mem_range_iff {i len n : ℕ} : n ∈ List.range' i len ↔ ∃ k < len, n = i + k := by
  rw [mem_range'_1]
  refine ⟨fun h => ⟨n - i, by omega, by omega⟩, ?_⟩
  rintro ⟨k, hk, rfl⟩
  omega

/-- The lines that an operation takes from the original are those at its places there. -/
theorem old_opLines (op : DiffOp) :
    (∀ line ∈ opLines originalLines modifiedLines op, line.lineType ≠ .add →
      ∃ n ∈ op.oldItems, line.oldLineNumber = some (n + 1) ∧
        line.content = originalLines.getD n []) ∧
    ∀ n ∈ op.oldItems, ∃ line ∈ opLines originalLines modifiedLines op,
      line.lineType ≠ .add ∧ line.oldLineNumber = some (n + 1) ∧
        line.content = originalLines.getD n [] := by
  cases op with
  | equal i j len =>
    refine ⟨fun line hline _ => ?_, fun n hn => ?_⟩
    · obtain ⟨k, hk, rfl⟩ := mem_contextRange.1 hline
      exact ⟨i + k, mem_range_iff.2 ⟨k, hk, rfl⟩, rfl, rfl⟩
    · obtain ⟨k, hk, rfl⟩ := mem_range_iff.1 hn
      exact ⟨_, mem_contextRange.2 ⟨k, hk, rfl⟩, by simp, rfl, rfl⟩
  | delete i len j =>
    refine ⟨fun line hline _ => ?_, fun n hn => ?_⟩
    · obtain ⟨k, hk, rfl⟩ := mem_deletedRange.1 hline
      exact ⟨i + k, mem_range_iff.2 ⟨k, hk, rfl⟩, rfl, rfl⟩
    · obtain ⟨k, hk, rfl⟩ := mem_range_iff.1 hn
      exact ⟨_, mem_deletedRange.2 ⟨k, hk, rfl⟩, by simp, rfl, rfl⟩
  | insert i j len =>
    refine ⟨fun line hline hne => ?_, fun n hn => ?_⟩
    · obtain ⟨k, hk, rfl⟩ := mem_addedRange.1 hline
      exact absurd rfl hne
    · cases hn
  | replace i len j newLen =>
    refine ⟨fun line hline hne => ?_, fun n hn => ?_⟩
    · rcases mem_append.1 hline with hline | hline
      · obtain ⟨k, hk, rfl⟩ := mem_deletedRange.1 hline
        exact ⟨i + k, mem_range_iff.2 ⟨k, hk, rfl⟩, rfl, rfl⟩
      · obtain ⟨k, hk, rfl⟩ := mem_addedRange.1 hline
        exact absurd rfl hne
    · obtain ⟨k, hk, rfl⟩ := mem_range_iff.1 hn
      exact ⟨_, mem_append_left _ (mem_deletedRange.2 ⟨k, hk, rfl⟩), by simp, rfl, rfl⟩

/-- The lines that an operation adds are those at its places in the modified text. -/
theorem new_opLines (op : DiffOp) :
    (∀ line ∈ opLines originalLines modifiedLines op, line.lineType = .add →
      ∃ n ∈ op.newItems, line.newLineNumber = some (n + 1) ∧
        line.content = modifiedLines.getD n []) ∧
    ∀ n ∈ op.newItems, ∃ line ∈ opLines originalLines modifiedLines op,
      line.lineType = .add ∧ line.newLineNumber = some (n + 1) ∧
        line.content = modifiedLines.getD n [] := by
  cases op with
  | equal i j len =>
    refine ⟨fun line hline hadd => ?_, fun n hn => ?_⟩
    · obtain ⟨k, hk, rfl⟩ := mem_contextRange.1 hline
      cases hadd
    · cases hn
  | delete i len j =>
    refine ⟨fun line hline hadd => ?_, fun n hn => ?_⟩
    · obtain ⟨k, hk, rfl⟩ := mem_deletedRange.1 hline
      cases hadd
    · cases hn
  | insert i j len =>
    refine ⟨fun line hline _ => ?_, fun n hn => ?_⟩
    · obtain ⟨k, hk, rfl⟩ := mem_addedRange.1 hline
      exact ⟨j + k, mem_range_iff.2 ⟨k, hk, rfl⟩, rfl, rfl⟩
    · obtain ⟨k, hk, rfl⟩ := mem_range_iff.1 hn
      exact ⟨_, mem_addedRange.2 ⟨k, hk, rfl⟩, rfl, rfl, rfl⟩
  | replace i len j newLen =>
    refine ⟨fun line hline hadd => ?_, fun n hn => ?_⟩
    · rcases mem_append.1 hline with hline | hline
      · obtain ⟨k, hk, rfl⟩ := mem_deletedRange.1 hline
        cases hadd
      · obtain ⟨k, hk, rfl⟩ := mem_addedRange.1 hline
        exact ⟨j + k, mem_range_iff.2 ⟨k, hk, rfl⟩, rfl, rfl⟩
    · obtain ⟨k, hk, rfl⟩ := mem_range_iff.1 hn
      exact ⟨_, mem_append_right _ (mem_addedRange.2 ⟨k, hk, rfl⟩), rfl, rfl, rfl⟩

/-! ## The lines of a group -/

section script

variable {a b : List (List Char)} {i j i' j' : ℕ} {group : List DiffOp}

/-- The old numbers of a group are its range. -/
theorem oldNumbers_groupLines (h : Script a b i j group i' j') :
    ((groupLines originalLines modifiedLines group).filter (·.lineType ≠ .add)).map
      DiffLine.oldLineNumber =
        (List.range' (i + 1) (group.map DiffOp.oldLen).sum).map some := by
  induction h with
  | nil => rfl
  | equal _ _ _ ih | delete _ _ ih | replace _ _ _ ih =>
    rw [groupLines, flatMap_cons, filter_append, map_append, oldNumbers_opLines,
      ← groupLines, ih, ← map_append, map_cons, sum_cons, ← range'_append_1]
    simp only [DiffOp.oldIndex, DiffOp.oldLen]
    congr 3
    omega
  | insert _ _ ih =>
    rw [groupLines, flatMap_cons, filter_append, map_append, oldNumbers_opLines,
      ← groupLines, ih, map_cons, sum_cons]
    simp only [DiffOp.oldLen, range'_zero, map_nil, nil_append, Nat.zero_add]

/-- The new numbers of a group are its range. -/
theorem newNumbers_groupLines (h : Script a b i j group i' j') :
    ((groupLines originalLines modifiedLines group).filter (·.lineType ≠ .delete)).map
      DiffLine.newLineNumber =
        (List.range' (j + 1) (group.map DiffOp.newLen).sum).map some := by
  induction h with
  | nil => rfl
  | equal _ _ _ ih | insert _ _ ih | replace _ _ _ ih =>
    rw [groupLines, flatMap_cons, filter_append, map_append, newNumbers_opLines,
      ← groupLines, ih, ← map_append, map_cons, sum_cons, ← range'_append_1]
    simp only [DiffOp.newIndex, DiffOp.newLen]
    congr 3
    omega
  | delete _ _ ih =>
    rw [groupLines, flatMap_cons, filter_append, map_append, newNumbers_opLines,
      ← groupLines, ih, map_cons, sum_cons]
    simp only [DiffOp.newLen, range'_zero, map_nil, nil_append, Nat.zero_add]

/-- A context line of a group is at places where the texts have the same line. -/
theorem context_groupLines (h : Script a b i j group i' j') :
    ∀ line ∈ groupLines originalLines modifiedLines group, line.lineType = .context →
      ∃ n m, line.oldLineNumber = some (n + 1) ∧ line.newLineNumber = some (m + 1) ∧
        a[n]? = b[m]? := by
  intro line hline hcontext
  induction h with
  | nil => cases hline
  | @equal i j _ _ len _ _ hsame _ ih =>
    rcases mem_append.1 hline with hline | hline
    · obtain ⟨k, hk, rfl⟩ := mem_contextRange.1 hline
      exact ⟨i + k, j + k, rfl, rfl, hsame k hk⟩
    · exact ih hline
  | delete _ _ ih =>
    rcases mem_append.1 hline with hline | hline
    · obtain ⟨k, hk, rfl⟩ := mem_deletedRange.1 hline
      cases hcontext
    · exact ih hline
  | insert _ _ ih =>
    rcases mem_append.1 hline with hline | hline
    · obtain ⟨k, hk, rfl⟩ := mem_addedRange.1 hline
      cases hcontext
    · exact ih hline
  | replace _ _ _ ih =>
    rcases mem_append.1 hline with hline | hline
    · rcases mem_append.1 hline with hline | hline
      · obtain ⟨k, hk, rfl⟩ := mem_deletedRange.1 hline
        cases hcontext
      · obtain ⟨k, hk, rfl⟩ := mem_addedRange.1 hline
        cases hcontext
    · exact ih hline

end script

/-! ## The hunk of a group -/

/-- An operation adds its lines and counts them. -/
theorem pushOp_eq (s : GroupState) (op : DiffOp) :
    let s' := pushOp originalLines modifiedLines s op
    s'.hunkLines = s.hunkLines ++ opLines originalLines modifiedLines op ∧
      s'.oldCount = s.oldCount + op.oldLen ∧ s'.newCount = s.newCount + op.newLen ∧
      s'.additions = s.additions +
        (opLines originalLines modifiedLines op).countP (·.lineType = .add) ∧
      s'.deletions = s.deletions +
        (opLines originalLines modifiedLines op).countP (·.lineType = .delete) := by
  cases op with
  | equal i j len =>
    simp [pushOp, opLines, contextRange, DiffOp.oldLen, DiffOp.newLen, Function.comp_def,
      countP_map]
  | delete i len j =>
    simp [pushOp, opLines, deletedRange, DiffOp.oldLen, DiffOp.newLen, Function.comp_def,
      countP_map]
  | insert i j len =>
    simp [pushOp, opLines, addedRange, DiffOp.oldLen, DiffOp.newLen, Function.comp_def,
      countP_map]
  | replace i len j newLen =>
    simp [pushOp, opLines, deletedRange, addedRange, DiffOp.oldLen, DiffOp.newLen,
      Function.comp_def, countP_map, append_assoc]

/-- The loop over a group adds the lines of its operations and counts them. -/
theorem foldl_pushOp (group : List DiffOp) (s : GroupState) :
    let s' := group.foldl (pushOp originalLines modifiedLines) s
    s'.hunkLines = s.hunkLines ++ groupLines originalLines modifiedLines group ∧
      s'.oldCount = s.oldCount + (group.map DiffOp.oldLen).sum ∧
      s'.newCount = s.newCount + (group.map DiffOp.newLen).sum ∧
      s'.additions = s.additions +
        (groupLines originalLines modifiedLines group).countP (·.lineType = .add) ∧
      s'.deletions = s.deletions +
        (groupLines originalLines modifiedLines group).countP (·.lineType = .delete) := by
  induction group generalizing s with
  | nil => simp [groupLines]
  | cons op group ih =>
    obtain ⟨hlines, hold, hnew, hadd, hdelete⟩ :=
      @pushOp_eq originalLines modifiedLines s op
    obtain ⟨hlines', hold', hnew', hadd', hdelete'⟩ :=
      ih (pushOp originalLines modifiedLines s op)
    simp only [foldl_cons, hlines', hold', hnew', hadd', hdelete', hlines, hold, hnew, hadd,
      hdelete, groupLines, flatMap_cons, countP_append, map_cons, sum_cons,
      append_assoc, Nat.add_assoc, and_self]

theorem starts_foldl (group : List DiffOp) (s : GroupState) :
    let s' := group.foldl (pushOp originalLines modifiedLines) s
    (s.oldStart ≠ 0 → s'.oldStart = s.oldStart) ∧
      (s.newStart ≠ 0 → s'.newStart = s.newStart) := by
  induction group generalizing s with
  | nil => exact ⟨fun _ => rfl, fun _ => rfl⟩
  | cons op group ih =>
    have hstep : (s.oldStart ≠ 0 →
          (pushOp originalLines modifiedLines s op).oldStart = s.oldStart) ∧
        (s.newStart ≠ 0 →
          (pushOp originalLines modifiedLines s op).newStart = s.newStart) := by
      cases op with
      | delete => exact ⟨fun h => if_neg h, fun _ => rfl⟩
      | insert => exact ⟨fun _ => rfl, fun h => if_neg h⟩
      | _ => exact ⟨fun h => if_neg h, fun h => if_neg h⟩
    obtain ⟨hold, hnew⟩ := ih (pushOp originalLines modifiedLines s op)
    refine ⟨fun h => ?_, fun h => ?_⟩
    · rw [foldl_cons, hold (by rwa [hstep.1 h]), hstep.1 h]
    · rw [foldl_cons, hnew (by rwa [hstep.2 h]), hstep.2 h]

/-- The start on the side of the original is that of the group, unless it only inserts. -/
theorem oldStart_foldl {a b : List (List Char)} {i j i' j' : ℕ} {group : List DiffOp}
    (h : Script a b i j group i' j') (s : GroupState) (hs : s.oldStart = 0) :
    (group.foldl (pushOp originalLines modifiedLines) s).oldStart =
      groupStart (group.all DiffOp.isInsert) i := by
  induction h generalizing s with
  | nil => exact hs
  | insert _ _ ih => exact ih _ hs
  | @equal i _ _ _ _ group _ _ _ _ | @delete i _ _ _ _ group _ _ _
  | @replace i _ _ _ _ _ group _ _ _ _ =>
    rw [foldl_cons, (starts_foldl group _).1 (by simp [pushOp, startAt, hs])]
    exact if_pos hs

/-- The start on the side of the modified text is that of the group, unless it only deletes. -/
theorem newStart_foldl {a b : List (List Char)} {i j i' j' : ℕ} {group : List DiffOp}
    (h : Script a b i j group i' j') (s : GroupState) (hs : s.newStart = 0) :
    (group.foldl (pushOp originalLines modifiedLines) s).newStart =
      groupStart (group.all DiffOp.isDelete) j := by
  induction h generalizing s with
  | nil => exact hs
  | delete _ _ ih => exact ih _ hs
  | @equal _ j _ _ _ group _ _ _ _ | @insert _ j _ _ _ group _ _ _
  | @replace _ j _ _ _ _ group _ _ _ _ =>
    rw [foldl_cons, (starts_foldl group _).2 (by simp [pushOp, startAt, hs])]
    exact if_pos hs

variable (originalLines modifiedLines)

/-- The hunk of a group. -/
def groupHunk (group : List DiffOp) : DiffHunk where
  oldStart :=
    groupStart (group.all DiffOp.isInsert) ((group.head?.map DiffOp.oldIndex).getD 0)
  oldLines := (group.map DiffOp.oldLen).sum
  newStart :=
    groupStart (group.all DiffOp.isDelete) ((group.head?.map DiffOp.newIndex).getD 0)
  newLines := (group.map DiffOp.newLen).sum
  lines := groupLines originalLines modifiedLines group

/-- The hunks of groups, where a group without lines has none. -/
def groupHunks : List (List DiffOp) → List DiffHunk
  | [] => []
  | group :: groups =>
    if (groupLines originalLines modifiedLines group).isEmpty then groupHunks groups
    else groupHunk originalLines modifiedLines group :: groupHunks groups

variable {originalLines modifiedLines}

/-- The loop over a group of a script gives its hunk. -/
theorem pushGroup_eq {a b : List (List Char)} {i j i' j' : ℕ} {group : List DiffOp}
    (h : Script a b i j group i' j') (hunks : List DiffHunk) (additions deletions : ℕ) :
    pushGroup originalLines modifiedLines (hunks, additions, deletions) group =
      (hunks ++ groupHunks originalLines modifiedLines [group],
        additions + countLines .add (groupHunks originalLines modifiedLines [group]),
        deletions + countLines .delete (groupHunks originalLines modifiedLines [group])) := by
  obtain ⟨hlines, hold, hnew, hadd, hdelete⟩ := @foldl_pushOp originalLines modifiedLines group
    { additions := additions, deletions := deletions }
  have hold' := @oldStart_foldl originalLines modifiedLines _ _ _ _ _ _ _ h
    { additions := additions, deletions := deletions } rfl
  have hnew' := @newStart_foldl originalLines modifiedLines _ _ _ _ _ _ _ h
    { additions := additions, deletions := deletions } rfl
  rw [nil_append] at hlines
  simp only [pushGroup, groupHunks, hlines, hold, hnew, hadd, hdelete, hold', hnew']
  cases hempty : (groupLines originalLines modifiedLines group).isEmpty with
  | true =>
    rw [List.isEmpty_iff] at hempty
    simp [hempty, countLines]
  | false =>
    cases group with
    | nil => cases hempty
    | cons op ops => simp [groupHunk, countLines, h.head_eq.1, h.head_eq.2]

/-- The hunks of a list of groups are those of the first and of the rest. -/
theorem groupHunks_cons (group : List DiffOp) (groups : List (List DiffOp)) :
    groupHunks originalLines modifiedLines (group :: groups) =
      groupHunks originalLines modifiedLines [group] ++
        groupHunks originalLines modifiedLines groups := by
  simp only [groupHunks]
  split
  · rfl
  · rfl

theorem countLines_append (lineType : DiffLineType) (hunks more : List DiffHunk) :
    countLines lineType (hunks ++ more) = countLines lineType hunks + countLines lineType more := by
  rw [countLines, map_append, sum_append, countLines, countLines]

/-- The loop over the groups of a script gives their hunks, and counts their lines. -/
theorem foldl_pushGroup {a b : List (List Char)} {i j : ℕ} {groups : List (List DiffOp)}
    (h : Grouped a b i j groups) (hunks : List DiffHunk) (additions deletions : ℕ) :
    groups.foldl (pushGroup originalLines modifiedLines) (hunks, additions, deletions) =
      (hunks ++ groupHunks originalLines modifiedLines groups,
        additions + countLines .add (groupHunks originalLines modifiedLines groups),
        deletions + countLines .delete (groupHunks originalLines modifiedLines groups)) := by
  induction h generalizing hunks additions deletions with
  | nil => simp [groupHunks, countLines]
  | @cons _ _ _ _ _ group groups _ _ hscript _ ih =>
    rw [foldl_cons, pushGroup_eq hscript, ih, groupHunks_cons group groups,
      countLines_append, countLines_append, append_assoc, Nat.add_assoc, Nat.add_assoc]

/-- A hunk is that of a group with lines. -/
theorem mem_groupHunks {groups : List (List DiffOp)} {hunk : DiffHunk} :
    hunk ∈ groupHunks originalLines modifiedLines groups ↔ ∃ group ∈ groups,
      groupLines originalLines modifiedLines group ≠ [] ∧
        hunk = groupHunk originalLines modifiedLines group := by
  induction groups with
  | nil => simp [groupHunks]
  | cons group groups ih =>
    rw [groupHunks]
    split
    · rename_i hempty
      rw [ih]
      simp [List.isEmpty_iff.1 hempty]
    · rename_i hempty
      rw [List.mem_cons, ih]
      simp [mt List.isEmpty_iff.2 hempty]

/-- A line of the hunks is a line of an operation. -/
theorem forall_lines {groups : List (List DiffOp)} {p : DiffLine → Prop} :
    (∀ hunk ∈ groupHunks originalLines modifiedLines groups, ∀ line ∈ hunk.lines, p line) ↔
      ∀ group ∈ groups, ∀ op ∈ group,
        ∀ line ∈ opLines originalLines modifiedLines op, p line := by
  refine ⟨fun h group hgroup op hop line hline => ?_, fun h hunk hhunk line hline => ?_⟩
  · have hmem : line ∈ groupLines originalLines modifiedLines group :=
      mem_flatMap.2 ⟨op, hop, hline⟩
    exact h _ (mem_groupHunks.2 ⟨group, hgroup, ne_nil_of_mem hmem, rfl⟩) line hmem
  · obtain ⟨group, hgroup, -, rfl⟩ := mem_groupHunks.1 hhunk
    obtain ⟨op, hop, hline⟩ := mem_flatMap.1 hline
    exact h group hgroup op hop line hline

/-- The lines from the original are right just if `str::lines` has them where the script shows
them. -/
theorem oldLine_iff {a : List (List Char)} {groups : List (List DiffOp)} :
    (∀ hunk ∈ groupHunks originalLines modifiedLines groups, ∀ line ∈ hunk.lines,
      line.lineType ≠ .add → ∃ n, line.oldLineNumber = some (n + 1) ∧
        a[n]? = some line.content) ↔
    ∀ group ∈ groups, ∀ op ∈ group, ∀ n ∈ op.oldItems,
      a[n]? = some (originalLines.getD n []) := by
  rw [forall_lines]
  refine forall₂_congr fun group _ => forall₂_congr fun op _ => ?_
  obtain ⟨hlines, hitems⟩ := @old_opLines originalLines modifiedLines op
  refine ⟨fun h n hn => ?_, fun h line hline hne => ?_⟩
  · obtain ⟨line, hline, hne, hnumber, hcontent⟩ := hitems n hn
    obtain ⟨m, hm, ha⟩ := h line hline hne
    rw [hnumber, Option.some.injEq, Nat.add_right_cancel_iff] at hm
    obtain rfl := hm
    rw [ha, hcontent]
  · obtain ⟨n, hn, hnumber, hcontent⟩ := hlines line hline hne
    exact ⟨n, hnumber, by rw [h n hn, hcontent]⟩

/-- The added lines are right just if `str::lines` has them where the script shows them. -/
theorem addedLine_iff {b : List (List Char)} {groups : List (List DiffOp)} :
    (∀ hunk ∈ groupHunks originalLines modifiedLines groups, ∀ line ∈ hunk.lines,
      line.lineType = .add → ∃ n, line.newLineNumber = some (n + 1) ∧
        b[n]? = some line.content) ↔
    ∀ group ∈ groups, ∀ op ∈ group, ∀ n ∈ op.newItems,
      b[n]? = some (modifiedLines.getD n []) := by
  rw [forall_lines]
  refine forall₂_congr fun group _ => forall₂_congr fun op _ => ?_
  obtain ⟨hlines, hitems⟩ := @new_opLines originalLines modifiedLines op
  refine ⟨fun h n hn => ?_, fun h line hline hadd => ?_⟩
  · obtain ⟨line, hline, hadd, hnumber, hcontent⟩ := hitems n hn
    obtain ⟨m, hm, hb⟩ := h line hline hadd
    rw [hnumber, Option.some.injEq, Nat.add_right_cancel_iff] at hm
    obtain rfl := hm
    rw [hb, hcontent]
  · obtain ⟨n, hn, hnumber, hcontent⟩ := hlines line hline hadd
    exact ⟨n, hnumber, by rw [h n hn, hcontent]⟩

/-! ## The places of hunks -/

/-- A group without lines takes and gives none. -/
theorem groupLines_eq_nil {a b : List (List Char)} {i j i' j' : ℕ} {group : List DiffOp}
    (h : Script a b i j group i' j') :
    groupLines originalLines modifiedLines group = [] ↔
      (group.map DiffOp.oldLen).sum = 0 ∧ (group.map DiffOp.newLen).sum = 0 := by
  have hold := @oldNumbers_groupLines originalLines modifiedLines _ _ _ _ _ _ _ h
  have hnew := @newNumbers_groupLines originalLines modifiedLines _ _ _ _ _ _ _ h
  refine ⟨fun hnil => ?_, fun ⟨hzero, hzero'⟩ => ?_⟩
  · rw [hnil] at hold hnew
    have hlen := congrArg List.length hold
    have hlen' := congrArg List.length hnew
    simp only [filter_nil, map_nil, length_nil, length_map,
      length_range'] at hlen hlen'
    exact ⟨hlen.symm, hlen'.symm⟩
  · rw [hzero] at hold
    rw [hzero'] at hnew
    simp only [range'_zero, map_nil, map_eq_nil_iff,
      filter_eq_nil_iff] at hold hnew
    refine eq_nil_iff_forall_not_mem.2 fun line hline => ?_
    have hadd : line.lineType = .add := by simpa using hold line hline
    have hdelete : line.lineType = .delete := by simpa using hnew line hline
    rw [hadd] at hdelete
    cases hdelete

theorem sum_oldLen_eq_zero {group : List DiffOp} (h : group.all DiffOp.isInsert = true) :
    (group.map DiffOp.oldLen).sum = 0 := by
  induction group with
  | nil => rfl
  | cons op group ih =>
    rw [all_cons, Bool.and_eq_true] at h
    rw [map_cons, sum_cons, ih h.2]
    cases op with
    | insert => rfl
    | _ => cases h.1

theorem sum_newLen_eq_zero {group : List DiffOp} (h : group.all DiffOp.isDelete = true) :
    (group.map DiffOp.newLen).sum = 0 := by
  induction group with
  | nil => rfl
  | cons op group ih =>
    rw [all_cons, Bool.and_eq_true] at h
    rw [map_cons, sum_cons, ih h.2]
    cases op with
    | delete => rfl
    | _ => cases h.1

/-- Where an operation takes or gives lines the sum is not zero. -/
theorem exists_of_sum_ne_zero {group : List DiffOp} {f : DiffOp → ℕ}
    (h : (group.map f).sum ≠ 0) : ∃ op ∈ group, 0 < f op := by
  obtain ⟨n, hn, hpos⟩ := List.sum_pos_iff_exists_pos_nat.1 (Nat.pos_of_ne_zero h)
  obtain ⟨op, hop, rfl⟩ := List.mem_map.1 hn
  exact ⟨op, hop, hpos⟩

/-- The starts of the hunk of a group with lines. -/
theorem groupHunk_starts {a b : List (List Char)} {i j i' j' : ℕ} {group : List DiffOp}
    (h : Script a b i j group i' j')
    (hne : groupLines originalLines modifiedLines group ≠ []) :
    (groupHunk originalLines modifiedLines group).oldStart =
        groupStart (group.all DiffOp.isInsert) i ∧
      (groupHunk originalLines modifiedLines group).newStart =
        groupStart (group.all DiffOp.isDelete) j := by
  cases group with
  | nil => exact absurd rfl hne
  | cons op group =>
    simp only [groupHunk, head?_cons, Option.map_some, Option.getD_some, h.head_eq.1,
      h.head_eq.2, and_self]

/-- The starts of a group with lines belong together just if the group is located. -/
theorem located_iff {a b : List (List Char)} {i j i' j' : ℕ} {group : List DiffOp}
    (h : Script a b i j group i' j')
    (hne : groupLines originalLines modifiedLines group ≠ []) {oldBefore newBefore : ℕ}
    (hplace : i + newBefore = j + oldBefore) :
    (groupHunk originalLines modifiedLines group).oldStart - 1 + newBefore =
        (groupHunk originalLines modifiedLines group).newStart - 1 + oldBefore ↔
      Located group := by
  obtain ⟨hold, hnew⟩ := groupHunk_starts h hne
  rw [hold, hnew, groupStart, groupStart, Located]
  cases hinsert : group.all DiffOp.isInsert with
  | true =>
    have holdSum := sum_oldLen_eq_zero hinsert
    have hnewSum : (group.map DiffOp.newLen).sum ≠ 0 := fun hnewSum =>
      hne ((groupLines_eq_nil h).2 ⟨holdSum, hnewSum⟩)
    have hdelete : group.all DiffOp.isDelete = false := by
      cases hdelete : group.all DiffOp.isDelete with
      | false => rfl
      | true => exact absurd (sum_newLen_eq_zero hdelete) hnewSum
    obtain ⟨op, hop, hpos⟩ := exists_of_sum_ne_zero hnewSum
    have hindex := h.oldIndex_eq hinsert
    rw [hdelete]
    refine ⟨fun heq => ⟨fun _ op hop _ => ?_, nofun⟩, fun hlocated => ?_⟩
    · rw [hindex op hop]
      simp at heq
      omega
    · have hzero := hlocated.1 rfl op hop hpos
      rw [hindex op hop] at hzero
      simp
      omega
  | false =>
    cases hdelete : group.all DiffOp.isDelete with
    | true =>
      have hnewSum := sum_newLen_eq_zero hdelete
      have holdSum : (group.map DiffOp.oldLen).sum ≠ 0 := fun holdSum =>
        hne ((groupLines_eq_nil h).2 ⟨holdSum, hnewSum⟩)
      obtain ⟨op, hop, hpos⟩ := exists_of_sum_ne_zero holdSum
      have hindex := h.newIndex_eq hdelete
      refine ⟨fun heq => ⟨nofun, fun _ op hop _ => ?_⟩, fun hlocated => ?_⟩
      · rw [hindex op hop]
        simp at heq
        omega
      · have hzero := hlocated.2 rfl op hop hpos
        rw [hindex op hop] at hzero
        simp
        omega
    | false =>
      refine ⟨fun _ => ⟨nofun, nofun⟩, fun _ => ?_⟩
      simp
      omega

theorem located_of_nil {a b : List (List Char)} {i j i' j' : ℕ} {group : List DiffOp}
    (h : Script a b i j group i' j')
    (hnil : groupLines originalLines modifiedLines group = []) : Located group := by
  obtain ⟨hold, hnew⟩ := (groupLines_eq_nil h).1 hnil
  have hzero : ∀ (f : DiffOp → ℕ), (group.map f).sum = 0 → ∀ op ∈ group, ¬ 0 < f op := by
    intro f hsum op hop hpos
    have hzero := List.sum_eq_zero_iff_forall_eq_nat.1 hsum _ (List.mem_map_of_mem hop)
    omega
  exact ⟨fun _ op hop hpos => absurd hpos (hzero _ hnew op hop),
    fun _ op hop hpos => absurd hpos (hzero _ hold op hop)⟩

/-- The ranges of the hunks are in places that belong together just if the groups are located. -/
theorem inPlace_iff {a b : List (List Char)} {i j : ℕ} {groups : List (List DiffOp)}
    (h : Grouped a b i j groups) {oldBefore newBefore : ℕ}
    (hplace : i + newBefore = j + oldBefore) :
    InPlace oldBefore newBefore (groupHunks originalLines modifiedLines groups) ↔
      ∀ group ∈ groups, Located group := by
  induction h generalizing oldBefore newBefore with
  | nil => simp [groupHunks, InPlace]
  | @cons i j gap i' j' group groups _ _ hscript _ ih =>
    have hold := hscript.old_eq
    have hnew := hscript.new_eq
    have hgap : i + gap + newBefore = j + gap + oldBefore := by omega
    rw [groupHunks, forall_mem_cons]
    split
    · rename_i hempty
      have hnil := isEmpty_iff.1 hempty
      obtain ⟨holdSum, hnewSum⟩ := (groupLines_eq_nil hscript).1 hnil
      rw [ih (by omega)]
      exact ⟨fun hall => ⟨located_of_nil hscript hnil, hall⟩, And.right⟩
    · rename_i hempty
      have hne := mt List.isEmpty_iff.2 hempty
      rw [InPlace, located_iff hscript hne hgap]
      refine and_congr_right fun _ => ih ?_
      simp only [groupHunk]
      omega

/-! ## The patch -/

/-- Lines with numbers that count up are a range of the text. -/
theorem contents_eq {b : List (List Char)} {lines : List DiffLine} {j len : ℕ}
    (hnumbers : lines.map DiffLine.newLineNumber = (List.range' (j + 1) len).map some)
    (hlines : ∀ line ∈ lines, ∃ n, line.newLineNumber = some (n + 1) ∧
      b[n]? = some line.content) :
    lines.map DiffLine.content = (b.drop j).take len := by
  induction len generalizing j lines with
  | zero =>
    rw [range'_zero, map_nil, map_eq_nil_iff] at hnumbers
    rw [hnumbers, take_zero, map_nil]
  | succ len ih =>
    rw [range'_succ, map_cons] at hnumbers
    cases lines with
    | nil => cases hnumbers
    | cons line lines =>
      rw [map_cons, List.cons.injEq] at hnumbers
      obtain ⟨⟨n, hnumber, hcontent⟩, hrest⟩ := forall_mem_cons.1 hlines
      rw [hnumber, Option.some.injEq, Nat.add_right_cancel_iff] at hnumbers
      obtain ⟨rfl, hnumbers⟩ := hnumbers
      obtain ⟨hlt, hget⟩ := List.getElem?_eq_some_iff.1 hcontent
      rw [List.map_cons, ih hnumbers hrest, List.drop_eq_getElem_cons hlt, List.take_succ_cons,
        hget]

/-- What is behind a place is two ranges and what is behind them. -/
theorem drop_split (b : List (List Char)) (j len more : ℕ) :
    (b.drop j).take len ++ (b.drop (j + len)).take more ++ b.drop (j + len + more) = b.drop j := by
  have hfirst := take_append_drop len (b.drop j)
  have hsecond := take_append_drop more (b.drop (j + len))
  rw [drop_drop] at hfirst hsecond
  rw [append_assoc, hsecond, hfirst]

/-- Texts that have the same lines in a range. -/
theorem take_eq {a b : List (List Char)} {i j len : ℕ}
    (h : ∀ k < len, a[i + k]? = b[j + k]?) : (a.drop i).take len = (b.drop j).take len := by
  apply ext_getElem?
  intro k
  rw [getElem?_take, getElem?_take, getElem?_drop, getElem?_drop]
  split
  · rename_i hk
    exact h k hk
  · rfl

/-- The same lines have the same contents. -/
theorem getElem?_stripLineEnd {a b : List (List Char)} {n m : ℕ} (h : a[n]? = b[m]?) :
    (a.map Text.stripLineEnd)[n]? = (b.map Text.stripLineEnd)[m]? := by
  rw [getElem?_map, getElem?_map, h]

/-- A group with lines that is located starts its hunk where it starts. -/
theorem oldStart_eq {a b : List (List Char)} {i j i' j' : ℕ} {group : List DiffOp}
    (h : Script a b i j group i' j')
    (hne : groupLines originalLines modifiedLines group ≠ []) (hlocated : Located group) :
    (groupHunk originalLines modifiedLines group).oldStart - 1 = i := by
  rw [(groupHunk_starts h hne).1, groupStart]
  cases hinsert : group.all DiffOp.isInsert with
  | false => rfl
  | true =>
    have hnewSum : (group.map DiffOp.newLen).sum ≠ 0 := fun hnewSum =>
      hne ((groupLines_eq_nil h).2 ⟨sum_oldLen_eq_zero hinsert, hnewSum⟩)
    obtain ⟨op, hop, hpos⟩ := exists_of_sum_ne_zero hnewSum
    rw [← h.oldIndex_eq hinsert op hop, hlocated.1 hinsert op hop hpos]
    rfl

/-- The hunks of a script make the one text of the other, also from a place in front of its start
up to which the texts have the same lines. -/
theorem patch_groupHunks {a b : List (List Char)} {i j : ℕ} {groups : List (List DiffOp)}
    (h : Grouped a b i j groups) (hlocated : ∀ group ∈ groups, Located group)
    (hlines : ∀ hunk ∈ groupHunks originalLines modifiedLines groups, ∀ line ∈ hunk.lines,
      line.lineType ≠ .delete → ∃ n, line.newLineNumber = some (n + 1) ∧
        (b.map Text.stripLineEnd)[n]? = some line.content)
    {i0 j0 len : ℕ} (hi : i = i0 + len) (hj : j = j0 + len)
    (hsame : ∀ k < len, a[i0 + k]? = b[j0 + k]?) :
    patch (a.map Text.stripLineEnd) i0 (groupHunks originalLines modifiedLines groups) =
      (b.map Text.stripLineEnd).drop j0 := by
  induction h generalizing i0 j0 len with
  | @nil i j hdrop =>
    have htake := take_eq hsame
    rw [groupHunks, patch, ← map_drop, ← map_drop, ← take_append_drop len
      (a.drop i0), ← take_append_drop len (b.drop j0), drop_drop, drop_drop, ← hi,
      ← hj, htake, hdrop]
  | @cons i j gap i' j' group groups _ hgap hscript _ ih =>
    have hsame' : ∀ k < len + gap, a[i0 + k]? = b[j0 + k]? := by
      intro k hk
      by_cases hlt : k < len
      · exact hsame k hlt
      · have heq := hgap (k - len) (by omega)
        rwa [hi, hj, Nat.add_assoc, Nat.add_assoc, Nat.add_sub_cancel' (Nat.not_lt.1 hlt)] at heq
    obtain ⟨hhere, hthere⟩ := forall_mem_cons.1 hlocated
    have hold := hscript.old_eq
    have hnew := hscript.new_eq
    rw [groupHunks] at hlines ⊢
    split at hlines
    · rename_i hempty
      obtain ⟨holdSum, hnewSum⟩ := (groupLines_eq_nil hscript).1 (isEmpty_iff.1 hempty)
      rw [if_pos hempty]
      exact ih hthere hlines (by omega) (by omega) hsame'
    · rename_i hempty
      have hne := mt List.isEmpty_iff.2 hempty
      obtain ⟨hfirst, hrest⟩ := forall_mem_cons.1 hlines
      have hstart := oldStart_eq hscript hne hhere
      have hcontents : (groupHunk originalLines modifiedLines group).newContents =
          ((b.map Text.stripLineEnd).drop (j + gap)).take (group.map DiffOp.newLen).sum := by
        apply contents_eq (newNumbers_groupLines hscript)
        intro line hline
        obtain ⟨hline, htype⟩ := mem_filter.1 hline
        exact hfirst line hline (by simpa using htype)
      have hnext := ih hthere hrest (Nat.add_zero i').symm (Nat.add_zero j').symm nofun
      have holdLines : (groupHunk originalLines modifiedLines group).oldLines =
          (group.map DiffOp.oldLen).sum := rfl
      have htake := take_eq (a := a.map Text.stripLineEnd) (b := b.map Text.stripLineEnd)
        fun k hk => getElem?_stripLineEnd (hsame' k hk)
      have hwidth : i0 + len + gap - i0 = len + gap := by omega
      have hplace : j + gap = j0 + (len + gap) := by omega
      rw [if_neg hempty, patch, hstart, hcontents, holdLines, ← hold, hnext, hi, hwidth, htake,
        hnew, hplace]
      exact drop_split _ _ _ _

end lines

theorem computeDiffWithOptions_eq {groupedOps : List Char → List Char → ℕ → List (List DiffOp)}
    {config : DiffConfig} {original modified : List Char} {options : DiffOptions}
    {a b : List (List Char)} {i j : ℕ}
    (h : Grouped a b i j (groupedOps original modified (contextLines config options))) :
    let hunks := groupHunks (Text.lines original) (Text.lines modified)
      (groupedOps original modified (contextLines config options))
    computeDiffWithOptions groupedOps config original modified options =
      { hunks, additions := countLines .add hunks, deletions := countLines .delete hunks,
        changes := countLines .add hunks + countLines .delete hunks } := by
  rw [computeDiffWithOptions, foldl_pushGroup h, nil_append, Nat.zero_add, Nat.zero_add]

/-- The hunks describe the edit just if `str::lines` has the lines of the script where the hunks
show them, and hunks that only insert or only delete are at the start of the other text. -/
theorem describes_iff (groupedOps : List Char → List Char → ℕ → List (List DiffOp))
    (config : DiffConfig) (original modified : List Char) (options : DiffOptions)
    (h : Grouped (tokenizeLines original) (tokenizeLines modified) 0 0
      (groupedOps original modified (contextLines config options))) :
    Describes (lineContents original) (lineContents modified)
        (computeDiffWithOptions groupedOps config original modified options) ↔
      Aligned original modified (groupedOps original modified (contextLines config options)) := by
  rw [computeDiffWithOptions_eq h]
  generalize groupedOps original modified (contextLines config options) = groups at h ⊢
  refine ⟨fun hdescribes => ?_, fun haligned => ?_⟩
  · have hadded : ∀ hunk ∈ groupHunks (Text.lines original) (Text.lines modified) groups,
        ∀ line ∈ hunk.lines, line.lineType = .add → ∃ n,
          line.newLineNumber = some (n + 1) ∧
            (lineContents modified)[n]? = some line.content :=
      fun hunk hhunk line hline hadd =>
        hdescribes.newLine hunk hhunk line hline (by rw [hadd]; simp)
    exact ⟨(@oldLine_iff _ (Text.lines modified) _ _).1 hdescribes.oldLine,
      (@addedLine_iff (Text.lines original) _ _ _).1 hadded,
      (inPlace_iff h rfl).1 hdescribes.places⟩
  · have hold := (@oldLine_iff _ (Text.lines modified) _ _).2 haligned.old
    have hadded := (@addedLine_iff (Text.lines original) _ _ _).2 haligned.new
    have hnew : ∀ hunk ∈ groupHunks (Text.lines original) (Text.lines modified) groups,
        ∀ line ∈ hunk.lines, line.lineType ≠ .delete → ∃ n,
          line.newLineNumber = some (n + 1) ∧
            (lineContents modified)[n]? = some line.content := by
      intro hunk hhunk line hline hne
      cases htype : line.lineType with
      | delete => exact absurd htype hne
      | add => exact hadded hunk hhunk line hline htype
      | context =>
        obtain ⟨group, hgroup, -, rfl⟩ := mem_groupHunks.1 hhunk
        obtain ⟨_, _, _, _, hscript⟩ := h.script group hgroup
        obtain ⟨n, m, hn, hm, hsame⟩ := context_groupLines hscript line hline htype
        obtain ⟨n', hn', hcontent⟩ := hold _ hhunk line hline (by rw [htype]; simp)
        rw [hn, Option.some.injEq, Nat.add_right_cancel_iff] at hn'
        obtain rfl := hn'
        exact ⟨m, hm, (getElem?_stripLineEnd hsame).symm.trans hcontent⟩
    have hpatched := patch_groupHunks h haligned.located hnew (Nat.add_zero 0).symm
      (Nat.add_zero 0).symm (by simp)
    refine ⟨hold, hnew, fun hunk hhunk => ?_, fun hunk hhunk => ?_,
      (inPlace_iff h rfl).2 haligned.located, hpatched, rfl, rfl, rfl⟩
    · obtain ⟨group, hgroup, hne, rfl⟩ := mem_groupHunks.1 hhunk
      obtain ⟨i, _, _, _, hscript⟩ := h.script group hgroup
      rw [(groupHunk_starts hscript hne).1]
      refine (oldNumbers_groupLines hscript).trans ?_
      cases hinsert : group.all DiffOp.isInsert with
      | false => rfl
      | true =>
        have hzero : (groupHunk (Text.lines original) (Text.lines modified) group).oldLines = 0 :=
          sum_oldLen_eq_zero hinsert
        rw [hzero, sum_oldLen_eq_zero hinsert]
        rfl
    · obtain ⟨group, hgroup, hne, rfl⟩ := mem_groupHunks.1 hhunk
      obtain ⟨_, j, _, _, hscript⟩ := h.script group hgroup
      rw [(groupHunk_starts hscript hne).2]
      refine (newNumbers_groupLines hscript).trans ?_
      cases hdelete : group.all DiffOp.isDelete with
      | false => rfl
      | true =>
        have hzero : (groupHunk (Text.lines original) (Text.lines modified) group).newLines = 0 :=
          sum_newLen_eq_zero hdelete
        rw [hzero, sum_newLen_eq_zero hdelete]
        rfl

/-- A script for two texts of two lines, the first of which ends with a lone carriage return. -/
def returnScript : List (List DiffOp) := [[.equal 0 0 1, .replace 1 1 1 1]]

/-- The first hunk then shows the whole text as its first line, and nothing as the second. -/
theorem loneReturn_misread :
    Grouped (tokenizeLines "a\rb\n".toList) (tokenizeLines "a\rc\n".toList) 0 0 returnScript ∧
      ¬ Describes (lineContents "a\rb\n".toList) (lineContents "a\rc\n".toList)
        (computeDiffWithOptions (fun _ _ _ => returnScript) .new "a\rb\n".toList "a\rc\n".toList
          ⟨3⟩) ∧
      ¬ Describes (Text.lines "a\rb\n".toList) (Text.lines "a\rc\n".toList)
        (computeDiffWithOptions (fun _ _ _ => returnScript) .new "a\rb\n".toList "a\rc\n".toList
          ⟨3⟩) := by
  have hresult : computeDiffWithOptions (fun _ _ _ => returnScript) .new "a\rb\n".toList
      "a\rc\n".toList ⟨3⟩ =
      { hunks := [{ oldStart := 1, oldLines := 2, newStart := 1, newLines := 2
                    lines := [⟨.context, "a\rb".toList, some 1, some 1⟩,
                      ⟨.delete, [], some 2, none⟩, ⟨.add, [], none, some 2⟩] }]
        additions := 1, deletions := 1, changes := 2 } := by rfl
  rw [hresult]
  refine ⟨?_, fun h => ?_, fun h => ?_⟩
  · exact @Grouped.cons _ _ _ 0 0 0 2 2 _ _ (by decide) nofun
      (.equal (by decide) (by decide) (.replace (by decide) (by decide) (.nil 2 2)))
      (.nil (by decide))
  · obtain ⟨n, hn, hline⟩ := h.oldLine _ (mem_cons_self ..) _ (mem_cons_self ..)
      (by decide)
    obtain rfl : n = 0 := by simpa using hn
    revert hline
    decide
  · obtain ⟨n, hn, hline⟩ := h.oldLine _ (mem_cons_self ..) _
      (mem_cons_of_mem _ (mem_cons_self ..)) (by decide)
    obtain rfl : n = 1 := by simpa using hn
    revert hline
    decide

/-- One line is replaced, in texts without carriage returns. -/
theorem describes_feeds :
    Describes (lineContents "a\nb\n".toList) (lineContents "a\nc\n".toList)
        (computeDiffWithOptions (fun _ _ _ => returnScript) .new "a\nb\n".toList "a\nc\n".toList
          ⟨0⟩) ↔
      Aligned "a\nb\n".toList "a\nc\n".toList returnScript :=
  describes_iff (fun _ _ _ => returnScript) .new _ _ ⟨0⟩ <|
    @Grouped.cons _ _ _ 0 0 0 2 2 _ _ (by decide) nofun
      (.equal (by decide) (by decide) (.replace (by decide) (by decide) (.nil 2 2)))
      (.nil (by decide))

/-! ## Where the lines agree -/

/-- A text that is not empty starts with a line, and its only line feed is at the end. -/
theorem tokenizeLines_cons {text : List Char} (h : text ≠ []) : ∃ line rest,
    text = line ++ rest ∧ tokenizeLines text = line :: tokenizeLines rest ∧ line ≠ [] ∧
      '\n' ∉ line.dropLast := by
  induction text with
  | nil => exact absurd rfl h
  | cons c text ih =>
    rw [tokenizeLines]
    split
    · exact ⟨[c], text, rfl, rfl, by simp, by simp⟩
    · rename_i hc
      cases htext : text with
      | nil => exact ⟨[c], [], rfl, rfl, by simp, by simp⟩
      | cons d text' =>
        obtain ⟨line, rest, hsplit, hlines, hne, hfeed⟩ := ih (by rw [htext]; simp)
        rw [← htext, hlines]
        refine ⟨c :: line, rest, by rw [hsplit, cons_append], rfl, by simp, ?_⟩
        rw [dropLast_cons_of_ne_nil hne, mem_cons, not_or]
        exact ⟨fun heq => hc (.inl heq.symm), hfeed⟩

/-- Both splitters end the lines of a text alike up to a line: each ends with a line feed, or is the
last one. That is to say, a carriage return up to there is in front of a line feed, or is at the end
of the text. -/
def EndsAlike (text : List Char) (n : ℕ) : Prop :=
  ∀ k ≤ n, ∀ line, (tokenizeLines text)[k]? = some line →
    line.getLast? = some '\n' ∨ k + 1 = (tokenizeLines text).length

/-- The first line, where it ends with a line feed. -/
theorem lines_cons {line rest : List Char} (hfeed : '\n' ∉ line.dropLast)
    (hlast : line.getLast? = some '\n') :
    Text.lines (line ++ rest) = Text.stripLineEnd line :: Text.lines rest := by
  obtain ⟨w, rfl⟩ : ∃ w, line = w ++ ['\n'] := getLast?_eq_some_iff.1 hlast
  rw [dropLast_concat] at hfeed
  rw [Text.lines, append_assoc, singleton_append, Text.splitInclusive_append hfeed,
    map_cons, Text.lines]

/-- The first line of a text where the lines end alike, by both splitters. -/
theorem EndsAlike.cons {text : List Char} {n : ℕ} (h : EndsAlike text n) (hne : text ≠ []) :
    ∃ line rest, lineContents text = line :: lineContents rest ∧
      Text.lines text = line :: Text.lines rest ∧ ∀ m, n = m + 1 → EndsAlike rest m := by
  obtain ⟨line, rest, rfl, hlines, hline, hfeed⟩ := tokenizeLines_cons hne
  refine ⟨Text.stripLineEnd line, rest, ?_, ?_, ?_⟩
  · rw [lineContents, hlines, map_cons, lineContents]
  · rcases h 0 (Nat.zero_le n) line (by rw [hlines]; rfl) with hlast | hlen
    · exact lines_cons hfeed hlast
    · rw [hlines, length_cons, Nat.zero_add] at hlen
      -- the last line, with a line feed or without
      obtain rfl : rest = [] := by
        by_cases hrest : rest = []
        · exact hrest
        · obtain ⟨_, _, _, htokens, _⟩ := tokenizeLines_cons hrest
          rw [htokens, length_cons] at hlen
          omega
      by_cases hlast : line.getLast? = some '\n'
      · exact lines_cons hfeed hlast
      · have hmem : '\n' ∉ line := by
          intro hmem
          rw [← dropLast_append_getLast hline, mem_append,
            mem_singleton] at hmem
          rcases hmem with hmem | hmem
          · exact hfeed hmem
          · exact hlast (by rw [getLast?_eq_some_getLast hline, ← hmem])
        rw [append_nil, Text.lines, Text.splitInclusive_of_not_mem hmem hline]
        rfl
  · rintro m rfl k hk line' hline'
    have hnext := h (k + 1) (by omega) line' (by rw [hlines]; exact hline')
    rw [hlines, length_cons] at hnext
    exact hnext.imp_right Nat.succ.inj

/-- Where the lines end alike `str::lines` has the lines of the script. -/
theorem lines_eq {text : List Char} {n : ℕ} (h : EndsAlike text n) :
    (Text.lines text)[n]? = (lineContents text)[n]? := by
  by_cases hne : text = []
  · rw [hne]
    rfl
  · induction n generalizing text with
    | zero =>
      obtain ⟨line, rest, hcontents, hlines, -⟩ := h.cons hne
      rw [hcontents, hlines]
      rfl
    | succ n ih =>
      obtain ⟨line, rest, hcontents, hlines, hrest⟩ := h.cons hne
      rw [hcontents, hlines, getElem?_cons_succ, getElem?_cons_succ]
      by_cases hnil : rest = []
      · rw [hnil]
        rfl
      · exact ih (hrest n rfl) hnil

/-- An operation of a script is in range. -/
theorem mem_items_lt {a b : List (List Char)} {i j i' j' : ℕ} {group : List DiffOp}
    (h : Script a b i j group i' j') :
    ∀ op ∈ group, (∀ n ∈ op.oldItems, n < a.length) ∧ ∀ n ∈ op.newItems, n < b.length := by
  induction h with
  | nil => simp
  | equal hold _ _ ih =>
    refine forall_mem_cons.2 ⟨⟨fun n hn => ?_, by simp [DiffOp.newItems]⟩, ih⟩
    obtain ⟨k, hk, rfl⟩ := mem_range_iff.1 hn
    simp only [DiffOp.oldIndex, DiffOp.oldLen] at hk ⊢
    omega
  | delete hold _ ih =>
    refine forall_mem_cons.2 ⟨⟨fun n hn => ?_, by simp [DiffOp.newItems]⟩, ih⟩
    obtain ⟨k, hk, rfl⟩ := mem_range_iff.1 hn
    simp only [DiffOp.oldIndex, DiffOp.oldLen] at hk ⊢
    omega
  | insert hnew _ ih =>
    refine forall_mem_cons.2 ⟨⟨by simp [DiffOp.oldItems, DiffOp.oldLen], fun n hn => ?_⟩, ih⟩
    obtain ⟨k, hk, rfl⟩ := mem_range_iff.1 hn
    omega
  | replace hold hnew _ ih =>
    refine forall_mem_cons.2 ⟨⟨fun n hn => ?_, fun n hn => ?_⟩, ih⟩
    · obtain ⟨k, hk, rfl⟩ := mem_range_iff.1 hn
      simp only [DiffOp.oldIndex, DiffOp.oldLen] at hk ⊢
      omega
    · obtain ⟨k, hk, rfl⟩ := mem_range_iff.1 hn
      omega

end DiffService

end OpenBitFun
