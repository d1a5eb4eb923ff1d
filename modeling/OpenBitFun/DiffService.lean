import OpenBitFun.EditScript
import OpenBitFun.Text

/-!
# The diff service

`DiffService` (`diff/service.rs`) turns the grouped operations of `similar` into hunks. The
operations index the lines of `similar`, which end after a line feed, both, or a lone carriage
return; the contents are taken from the lines of `str::lines`.
-/

namespace OpenBitFun

namespace DiffService

/-- `DiffConfig`, as far as hunks depend on it. -/
structure DiffConfig where
  defaultContextLines : ℕ
  deriving DecidableEq, Repr

/-- `DiffConfig::new`. -/
def DiffConfig.new : DiffConfig := { defaultContextLines := 3 }

/-- `DiffOptions`, as far as hunks depend on them. -/
structure DiffOptions where
  contextLines : ℕ
  deriving DecidableEq, Repr

/-- `DiffLineType`. -/
inductive DiffLineType where
  | context
  | add
  | delete
  deriving DecidableEq, Repr

/-- `DiffLine`. -/
structure DiffLine where
  lineType : DiffLineType
  content : List Char
  oldLineNumber : Option ℕ
  newLineNumber : Option ℕ
  deriving DecidableEq, Repr

/-- `DiffHunk`. -/
structure DiffHunk where
  oldStart : ℕ
  oldLines : ℕ
  newStart : ℕ
  newLines : ℕ
  lines : List DiffLine
  deriving DecidableEq, Repr

/-- `DiffResult`. -/
structure DiffResult where
  hunks : List DiffHunk
  additions : ℕ
  deletions : ℕ
  changes : ℕ
  deriving DecidableEq, Repr

section hunks

variable (originalLines modifiedLines : List (List Char))

/-- The loop over a range of equal lines. -/
def contextRange (oldIndex newIndex len : ℕ) : List DiffLine :=
  (List.range len).map fun i =>
    { lineType := .context
      content := originalLines.getD (oldIndex + i) []
      oldLineNumber := some (oldIndex + i + 1)
      newLineNumber := some (newIndex + i + 1) }

/-- The loop over a range of deleted lines. -/
def deletedRange (oldIndex oldLen : ℕ) : List DiffLine :=
  (List.range oldLen).map fun i =>
    { lineType := .delete
      content := originalLines.getD (oldIndex + i) []
      oldLineNumber := some (oldIndex + i + 1)
      newLineNumber := none }

/-- The loop over a range of inserted lines. -/
def addedRange (newIndex newLen : ℕ) : List DiffLine :=
  (List.range newLen).map fun i =>
    { lineType := .add
      content := modifiedLines.getD (newIndex + i) []
      oldLineNumber := none
      newLineNumber := some (newIndex + i + 1) }

/-- The locals of the loop over a group, with the counters of all groups. -/
structure GroupState where
  hunkLines : List DiffLine := []
  oldStart : ℕ := 0
  newStart : ℕ := 0
  oldCount : ℕ := 0
  newCount : ℕ := 0
  additions : ℕ
  deletions : ℕ
  deriving DecidableEq, Repr

/-- A start is set by the first operation that has lines on its side. -/
def startAt (start index : ℕ) : ℕ := if start = 0 then index + 1 else start

/-- One operation of a group. -/
def pushOp (s : GroupState) : DiffOp → GroupState
  | .equal oldIndex newIndex len =>
    { s with
      oldStart := startAt s.oldStart oldIndex
      newStart := startAt s.newStart newIndex
      hunkLines := s.hunkLines ++ contextRange originalLines oldIndex newIndex len
      oldCount := s.oldCount + len
      newCount := s.newCount + len }
  | .delete oldIndex oldLen _ =>
    { s with
      oldStart := startAt s.oldStart oldIndex
      hunkLines := s.hunkLines ++ deletedRange originalLines oldIndex oldLen
      oldCount := s.oldCount + oldLen
      deletions := s.deletions + oldLen }
  | .insert _ newIndex newLen =>
    { s with
      newStart := startAt s.newStart newIndex
      hunkLines := s.hunkLines ++ addedRange modifiedLines newIndex newLen
      newCount := s.newCount + newLen
      additions := s.additions + newLen }
  | .replace oldIndex oldLen newIndex newLen =>
    { s with
      oldStart := startAt s.oldStart oldIndex
      newStart := startAt s.newStart newIndex
      hunkLines := s.hunkLines ++ deletedRange originalLines oldIndex oldLen ++
        addedRange modifiedLines newIndex newLen
      oldCount := s.oldCount + oldLen
      newCount := s.newCount + newLen
      additions := s.additions + newLen
      deletions := s.deletions + oldLen }

/-- One group; it gives no hunk if it has no lines. -/
def pushGroup (result : List DiffHunk × ℕ × ℕ) (group : List DiffOp) : List DiffHunk × ℕ × ℕ :=
  let s := group.foldl (pushOp originalLines modifiedLines)
    { additions := result.2.1, deletions := result.2.2 }
  if s.hunkLines.isEmpty then (result.1, s.additions, s.deletions)
  else
    (result.1 ++ [{ oldStart := s.oldStart, oldLines := s.oldCount, newStart := s.newStart,
                    newLines := s.newCount, lines := s.hunkLines }], s.additions, s.deletions)

end hunks

/-- The lines of context: those of the options, or else those of the configuration. -/
def contextLines (config : DiffConfig) (options : DiffOptions) : ℕ :=
  if options.contextLines > 0 then options.contextLines else config.defaultContextLines

/-- `DiffService::compute_diff_with_options`, with the grouped operations of `similar` as a
parameter: they depend on the two texts and on the number of lines of context. -/
def computeDiffWithOptions (groupedOps : List Char → List Char → ℕ → List (List DiffOp))
    (config : DiffConfig) (original modified : List Char) (options : DiffOptions) : DiffResult :=
  let groups := groupedOps original modified (contextLines config options)
  let result := groups.foldl (pushGroup (Text.lines original) (Text.lines modified)) ([], 0, 0)
  { hunks := result.1
    additions := result.2.1
    deletions := result.2.2
    changes := result.2.1 + result.2.2 }

end DiffService

end OpenBitFun
