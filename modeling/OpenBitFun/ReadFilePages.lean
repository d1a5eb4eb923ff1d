import Mathlib
import OpenBitFun.ReadFileDecoder

/-!
# Page after page

A page is a stretch of the lines of the text, each rendered with its number. The selection has the
stretch in hand, and counts what is behind it as if it were rendered; so what one page says of the
next call is what the next call finds. Calls that go on from page to page cover the lines in order.
-/

namespace OpenBitFun

open List

namespace ReadFile

/-! ## Rendered lines -/

/-- What is put behind a line that is cut. -/
def marker (truncated : Bool) : List Char := if truncated then " [truncated]".toList else []

/-- A line as a page shows it: its number, its first characters, and a marker if it has more. -/
def renderLine (maxLineChars number : ℕ) (line : List Char) : List Char :=
  ReadLineSelection.render number
    ((clip maxLineChars line).1 ++ marker (clip maxLineChars line).2)

/-- The lines of a text as pages show them. -/
def renderLines (maxLineChars : ℕ) (lines : List (List Char)) : List (List Char) :=
  lines.mapIdx fun index line => renderLine maxLineChars (index + 1) line

/-- The characters of a page with these lines. -/
def pageChars (rendered : List (List Char)) : ℕ :=
  (rendered.map List.length).sum + (rendered.length - 1)

/-- A decimal number is as long as the logarithm says. -/
theorem length_toDigits (n : ℕ) :
    (Nat.toDigits 10 n).length = if n = 0 then 1 else Nat.log 10 n + 1 := by
  by_cases hn : n = 0
  · subst hn
    rfl
  · rw [if_neg hn]
    have hle : ∀ k, 0 < k → ((Nat.toDigits 10 n).length ≤ k ↔ Nat.log 10 n < k) := fun k hk => by
      rw [Nat.length_toDigits_le_iff (by omega) hk, Nat.log_lt_iff_lt_pow (by omega) hn]
    refine Nat.le_antisymm ?_ ?_
    · exact (hle _ (Nat.succ_pos _)).2 (Nat.lt_succ_self _)
    · exact (hle _ Nat.length_toDigits_pos).1 (Nat.le_refl _)

/-- What is measured without rendering is what is rendered. -/
theorem length_renderLine (maxLineChars number : ℕ) (line : List Char) :
    (renderLine maxLineChars number line).length =
      ReadLineSelection.renderedLineChars number (clip maxLineChars line).1.length
        (clip maxLineChars line).2 := by
  rw [renderLine, ReadLineSelection.render, ReadLineSelection.renderedLineChars]
  have hdigits := length_toDigits number
  have hmarker : (marker (clip maxLineChars line).2).length =
      if (clip maxLineChars line).2 then " [truncated]".toList.length else 0 := by
    rw [marker]
    split
    · rfl
    · rfl
  simp only [length_append, length_cons, length_replicate, hdigits, hmarker]
  omega

theorem length_renderLine_pos (maxLineChars number : ℕ) (line : List Char) :
    0 < (renderLine maxLineChars number line).length := by
  rw [length_renderLine, ReadLineSelection.renderedLineChars]
  omega

@[simp] theorem length_renderLines (maxLineChars : ℕ) (lines : List (List Char)) :
    (renderLines maxLineChars lines).length = lines.length := by
  rw [renderLines, length_mapIdx]

theorem renderLines_concat (maxLineChars : ℕ) (lines : List (List Char)) (line : List Char) :
    renderLines maxLineChars (lines ++ [line]) =
      renderLines maxLineChars lines ++ [renderLine maxLineChars (lines.length + 1) line] := by
  rw [renderLines, mapIdx_concat, renderLines]

theorem length_pos_of_mem_renderLines {maxLineChars : ℕ} {lines : List (List Char)}
    {rendered : List Char} (h : rendered ∈ renderLines maxLineChars lines) :
    0 < rendered.length := by
  obtain ⟨index, hindex, rfl⟩ := mem_mapIdx.1 h
  exact length_renderLine_pos maxLineChars (index + 1) _

/-! ## Characters of a page -/

/-- The lines of a page are separated by line feeds. -/
theorem length_intercalate (rendered : List (List Char)) :
    (List.intercalate ['\n'] rendered).length = pageChars rendered := by
  induction rendered with
  | nil => rfl
  | cons line rendered ih =>
    cases rendered with
    | nil => simp [pageChars]
    | cons next rendered =>
      rw [intercalate_cons_cons, length_append, length_append, ih]
      simp only [pageChars, map_cons, sum_cons, length_cons, length_nil]
      omega

/-- One more line, and what separates it from the last one. -/
theorem pageChars_concat (rendered : List (List Char)) (line : List Char) :
    pageChars (rendered ++ [line]) =
      pageChars rendered + (if rendered.isEmpty then 0 else 1) + line.length := by
  cases rendered with
  | nil => simp [pageChars]
  | cons first rendered =>
    simp only [pageChars, map_append, map_cons, map_nil, sum_append,
      sum_cons, sum_nil, length_append, length_cons, length_nil,
      cons_append, isEmpty_cons, Bool.false_eq_true, if_false]
    omega

/-- A page has no more characters than one that goes on. -/
theorem pageChars_le_append (rendered more : List (List Char)) :
    pageChars rendered ≤ pageChars (rendered ++ more) := by
  simp only [pageChars, map_append, sum_append, length_append]
  omega

/-- Lines that are not empty make a page that is not empty. -/
theorem pageChars_pos_iff {rendered : List (List Char)}
    (hpos : ∀ line ∈ rendered, 0 < line.length) : 0 < pageChars rendered ↔ rendered ≠ [] := by
  cases rendered with
  | nil => simp [pageChars]
  | cons line rendered =>
    have hline := hpos line mem_cons_self
    simp only [pageChars, map_cons, sum_cons]
    exact ⟨fun _ => cons_ne_nil _ _, fun _ => by omega⟩

/-! ## One page -/

/-- What a call asks for, if it is not refused. -/
structure PageRequest where
  startLine : ℕ
  limit : ℕ
  maxLineChars : ℕ
  maxTotalChars : ℕ
  startLine_pos : 0 < startLine
  limit_pos : 0 < limit
  maxTotalChars_pos : 0 < maxTotalChars
  endLine_le : startLine + (limit - 1) ≤ usizeMax

/-- The selection before the first line. -/
def PageRequest.selection (r : PageRequest) : ReadLineSelection :=
  { startLine := r.startLine, endLine := r.startLine + (r.limit - 1), limit := r.limit,
    maxLineChars := r.maxLineChars, maxTotalChars := r.maxTotalChars, tailLines := none }

theorem PageRequest.new_eq (r : PageRequest) :
    ReadLineSelection.new r.startLine r.limit r.maxLineChars r.maxTotalChars false =
      .ok r.selection := by
  rw [ReadLineSelection.new, if_neg (Nat.ne_of_gt r.startLine_pos),
    if_neg (Nat.ne_of_gt r.limit_pos), if_neg (Nat.ne_of_gt r.maxTotalChars_pos),
    if_neg (Nat.not_lt.2 r.endLine_le)]
  rfl

/-- Whether the line with a number has more characters than are shown. -/
def isCut (maxLineChars : ℕ) (lines : List (List Char)) (number : ℕ) : Bool :=
  lines[number - 1]?.any fun line => maxLineChars < line.length

/-- The numbers of the lines that are cut, of some lines from a number on. -/
def cutLines (maxLineChars : ℕ) (lines : List (List Char)) (start count : ℕ) : List ℕ :=
  (List.range' start count).filter (isCut maxLineChars lines)

/-- Lines behind a stretch do not matter to it. -/
theorem cutLines_append {maxLineChars start count : ℕ} {lines : List (List Char)}
    (hstart : 0 < start) (h : start + count ≤ lines.length + 1) (more : List (List Char)) :
    cutLines maxLineChars (lines ++ more) start count =
      cutLines maxLineChars lines start count := by
  rw [cutLines, cutLines]
  refine filter_congr fun number hnumber => ?_
  obtain ⟨hle, hlt⟩ := mem_range'_1.1 hnumber
  rw [isCut, isCut, getElem?_append_left (by omega)]

theorem cutLines_succ {maxLineChars start count : ℕ} {lines : List (List Char)}
    (hstart : 0 < start) (h : start + count = lines.length + 1) (line : List Char) :
    cutLines maxLineChars (lines ++ [line]) start (count + 1) =
      cutLines maxLineChars lines start count ++
        if maxLineChars < line.length then [lines.length + 1] else [] := by
  have hlast : isCut maxLineChars (lines ++ [line]) (start + count) =
      decide (maxLineChars < line.length) := by
    rw [isCut, h, Nat.add_sub_cancel, getElem?_concat_length, Option.any_some]
  have hold := @cutLines_append maxLineChars _ _ _ hstart (Nat.le_of_eq h) [line]
  rw [cutLines] at hold
  rw [cutLines, range'_1_concat, filter_append, hold, filter_singleton, hlast, h]
  by_cases hcut : maxLineChars < line.length
  · simp [hcut]
  · simp [hcut]

namespace ReadLineSelection

/-- The selection serves a request. -/
structure Serves (s : ReadLineSelection) (r : PageRequest) : Prop where
  startLine : s.startLine = r.startLine
  endLine : s.endLine = r.startLine + (r.limit - 1)
  limit : s.limit = r.limit
  maxLineChars : s.maxLineChars = r.maxLineChars
  maxTotalChars : s.maxTotalChars = r.maxTotalChars
  tailLines : s.tailLines = none

/-- The selection of some lines: it has a stretch of them, and some are left behind it. -/
structure Stretch (s : ReadLineSelection) (r : PageRequest) (lines rest : List (List Char)) :
    Prop where
  serves : s.Serves r
  totalLines : s.totalLines = lines.length
  /-- From the first line on there is the stretch, and what is left. -/
  split : (renderLines r.maxLineChars lines).drop (r.startLine - 1) = s.selectedLines ++ rest
  limit_le : s.selectedLines.length ≤ r.limit
  selectedChars : s.selectedChars = pageChars s.selectedLines
  selectedChars_le : s.selectedChars ≤ r.maxTotalChars
  remainingChars : s.remainingChars = pageChars rest
  /-- The characters end the page at a line that is too long for it. -/
  hit : s.hitTotalCharLimit = true → ∃ next more, rest = next :: more ∧
    r.maxTotalChars < pageChars (s.selectedLines ++ [next])
  /-- Else only the number of lines ends it. -/
  full : s.hitTotalCharLimit = false → rest = [] ∨ s.selectedLines.length = r.limit
  truncatedLines : s.truncatedLines =
    cutLines r.maxLineChars lines r.startLine s.selectedLines.length

/-- Before the first line there is nothing. -/
theorem stretch_selection (r : PageRequest) : r.selection.Stretch r [] [] where
  serves := ⟨rfl, rfl, rfl, rfl, rfl, rfl⟩
  totalLines := rfl
  split := drop_nil
  limit_le := Nat.zero_le _
  selectedChars := rfl
  selectedChars_le := Nat.zero_le _
  remainingChars := rfl
  hit := fun h => Bool.noConfusion h
  full := fun _ => .inl rfl
  truncatedLines := rfl

section Push

variable {s : ReadLineSelection} {r : PageRequest} {lines rest : List (List Char)}

/-- How many lines there are from the first one on. -/
theorem Stretch.length_eq (h : s.Stretch r lines rest) :
    lines.length - (r.startLine - 1) = s.selectedLines.length + rest.length := by
  have hsplit := congrArg List.length h.split
  rwa [length_drop, length_renderLines, length_append] at hsplit

/-- The stretch is one of lines that there are. -/
theorem Stretch.le_length (h : s.Stretch r lines rest) (hstart : r.startLine ≤ lines.length + 1) :
    r.startLine + s.selectedLines.length ≤ lines.length + 1 := by
  have hlength := h.length_eq
  have hpos := r.startLine_pos
  omega

/-- One more line, from the first one on. -/
theorem Stretch.split_concat (h : s.Stretch r lines rest) (hstart : r.startLine ≤ lines.length + 1)
    (line : List Char) :
    (renderLines r.maxLineChars (lines ++ [line])).drop (r.startLine - 1) =
      s.selectedLines ++ (rest ++ [renderLine r.maxLineChars (lines.length + 1) line]) := by
  rw [renderLines_concat, drop_append_of_le_length (by rw [length_renderLines]; omega),
    h.split, append_assoc]

theorem Stretch.rest_pos (h : s.Stretch r lines rest) : ∀ line ∈ rest, 0 < line.length := by
  intro line hline
  apply @length_pos_of_mem_renderLines r.maxLineChars lines
  apply mem_of_mem_drop
  rw [h.split]
  exact mem_append_right _ hline

/-- A line in front of the first one is counted. -/
theorem Stretch.push_before (h : s.Stretch r lines rest) (hbefore : lines.length + 1 < r.startLine)
    (line : List Char) :
    { s with totalLines := s.totalLines + 1 }.Stretch r (lines ++ [line]) rest := by
  have hlength := h.length_eq
  have hselected : s.selectedLines = [] := eq_nil_of_length_eq_zero (by omega)
  have hrest : rest = [] := eq_nil_of_length_eq_zero (by omega)
  refine ⟨⟨h.serves.1, h.serves.2, h.serves.3, h.serves.4, h.serves.5, h.serves.6⟩, ?_, ?_,
    h.limit_le, h.selectedChars, h.selectedChars_le, h.remainingChars, h.hit, h.full, ?_⟩
  · rw [length_append, length_singleton, ← h.totalLines]
  · dsimp only
    rw [hselected, hrest, drop_of_length_le]
    · rfl
    · rw [length_renderLines, length_append, length_singleton]
      omega
  · have htruncated := h.truncatedLines
    rw [hselected, cutLines] at htruncated
    dsimp only
    rw [htruncated, hselected, cutLines]
    rfl

/-- A line behind the stretch is measured. -/
theorem Stretch.push_behind (h : s.Stretch r lines rest) (hstart : r.startLine ≤ lines.length + 1)
    (hbehind : s.selectedLines.length = r.limit ∨ s.hitTotalCharLimit = true) (line : List Char) :
    ({ s with totalLines := s.totalLines + 1 }.addRemaining
      (renderLine r.maxLineChars (lines.length + 1) line).length).Stretch r (lines ++ [line])
        (rest ++ [renderLine r.maxLineChars (lines.length + 1) line]) := by
  have hpos := pageChars_pos_iff h.rest_pos
  refine ⟨⟨h.serves.1, h.serves.2, h.serves.3, h.serves.4, h.serves.5, h.serves.6⟩, ?_,
    h.split_concat hstart line, h.limit_le, h.selectedChars, h.selectedChars_le, ?_, ?_, ?_, ?_⟩
  · rw [length_append, length_singleton, ← h.totalLines]
    rfl
  · rw [pageChars_concat, addRemaining]
    dsimp only
    rw [h.remainingChars]
    cases rest with
    | nil => rfl
    | cons next more =>
      rw [if_pos (hpos.2 (cons_ne_nil _ _)), isEmpty_cons]
      rfl
  · intro hhit
    obtain ⟨next, more, rfl, hlong⟩ := h.hit hhit
    exact ⟨next, more ++ [_], rfl, hlong⟩
  · intro hhit
    refine .inr (hbehind.resolve_right fun htrue => ?_)
    exact Bool.noConfusion (htrue.symm.trans hhit)
  · exact h.truncatedLines.trans
      (cutLines_append r.startLine_pos (h.le_length hstart) [line]).symm

/-- A line that ends the page as it is too long for it. -/
theorem Stretch.push_long (h : s.Stretch r lines []) (hstart : r.startLine ≤ lines.length + 1)
    (line : List Char)
    (hlong : r.maxTotalChars <
      pageChars (s.selectedLines ++ [renderLine r.maxLineChars (lines.length + 1) line])) :
    ({ s with totalLines := s.totalLines + 1, hitTotalCharLimit := true,
              contentTruncated := true }.addRemaining
      (renderLine r.maxLineChars (lines.length + 1) line).length).Stretch r (lines ++ [line])
        [renderLine r.maxLineChars (lines.length + 1) line] := by
  refine ⟨⟨h.serves.1, h.serves.2, h.serves.3, h.serves.4, h.serves.5, h.serves.6⟩, ?_,
    h.split_concat hstart line, h.limit_le, h.selectedChars, h.selectedChars_le, ?_,
    fun _ => ⟨_, _, rfl, hlong⟩, fun hhit => Bool.noConfusion hhit, ?_⟩
  · rw [length_append, length_singleton, ← h.totalLines]
    rfl
  · have hnone : s.remainingChars = 0 := h.remainingChars
    rw [addRemaining]
    dsimp only
    rw [hnone]
    simp [pageChars]
  · exact h.truncatedLines.trans
      (cutLines_append r.startLine_pos (h.le_length hstart) [line]).symm

theorem Stretch.push_shown (h : s.Stretch r lines []) (hstart : r.startLine ≤ lines.length + 1)
    (hroom : s.selectedLines.length < r.limit) (hhit : s.hitTotalCharLimit = false)
    (line : List Char) (contentTruncated : Bool)
    (hshort : pageChars (s.selectedLines ++ [renderLine r.maxLineChars (lines.length + 1) line]) ≤
      r.maxTotalChars) :
    { s with
      totalLines := s.totalLines + 1
      contentTruncated
      truncatedLines :=
        if (clip r.maxLineChars line).2 then s.truncatedLines ++ [lines.length + 1]
        else s.truncatedLines
      selectedChars :=
        pageChars (s.selectedLines ++ [renderLine r.maxLineChars (lines.length + 1) line])
      selectedLines :=
        s.selectedLines ++ [renderLine r.maxLineChars (lines.length + 1) line] }.Stretch r
          (lines ++ [line]) [] := by
  have hlength := h.length_eq
  have hpos := r.startLine_pos
  rw [length_nil, Nat.add_zero] at hlength
  refine ⟨⟨h.serves.1, h.serves.2, h.serves.3, h.serves.4, h.serves.5, h.serves.6⟩, ?_, ?_, ?_,
    rfl, hshort, h.remainingChars, fun htrue => ?_, fun _ => .inl rfl, ?_⟩
  · rw [length_append, length_singleton, ← h.totalLines]
  · rw [h.split_concat hstart line, nil_append, append_nil]
  · rw [length_append, length_singleton]
    exact hroom
  · exact Bool.noConfusion (htrue.symm.trans hhit)
  · dsimp only
    rw [length_append, length_singleton,
      cutLines_succ r.startLine_pos (by omega) line, ← h.truncatedLines, clip]
    by_cases hcut : r.maxLineChars < line.length
    · simp [hcut]
    · simp [hcut]

/-- What a line does to a selection that is no tail. -/
theorem push_of_not_tail (htail : s.tailLines = none) (line : List Char) (truncated : Bool) :
    s.push line truncated =
      if s.totalLines + 1 < s.startLine then { s with totalLines := s.totalLines + 1 }
      else if s.totalLines + 1 > s.endLine ∨ s.hitTotalCharLimit = true then
        { s with totalLines := s.totalLines + 1 }.addRemaining
          (renderedLineChars (s.totalLines + 1) line.length truncated)
      else { s with totalLines := s.totalLines + 1 }.select (s.totalLines + 1)
        (line ++ marker truncated) truncated := by
  have hmarker : (if truncated then line ++ " [truncated]".toList else line) =
      line ++ marker truncated := by
    rw [marker]
    split
    · rfl
    · rw [append_nil]
  rw [push]
  dsimp only
  rw [hmarker]
  split
  · rename_i hsome
    cases htail.symm.trans hsome
  · rfl

/-- What becomes of a line in the window, as long as there is room. -/
theorem select_of_not_hit (hhit : s.hitTotalCharLimit = false) (number : ℕ) (line : List Char)
    (truncated : Bool) :
    { s with totalLines := number }.select number line truncated =
      if s.nextChars (render number line) > s.maxTotalChars then
        { s with totalLines := number, hitTotalCharLimit := true,
                 contentTruncated := true }.addRemaining (render number line).length
      else
        { s with
          totalLines := number
          contentTruncated := s.contentTruncated || truncated
          truncatedLines := if truncated then s.truncatedLines ++ [number] else s.truncatedLines
          selectedChars := s.nextChars (render number line)
          selectedLines := s.selectedLines ++ [render number line] } := by
  rw [select]
  dsimp only
  rw [if_neg (by rw [hhit]; exact Bool.false_ne_true)]
  rfl

theorem Stretch.push (h : s.Stretch r lines rest) (line : List Char) :
    ∃ rest', (s.push (clip r.maxLineChars line).1 (clip r.maxLineChars line).2).Stretch r
      (lines ++ [line]) rest' := by
  have hserves := h.serves
  have hlength := h.length_eq
  have hlimit := r.limit_pos
  have hpos := r.startLine_pos
  have hfirst : s.totalLines + 1 < s.startLine ↔ lines.length + 1 < r.startLine := by
    rw [h.totalLines, hserves.startLine]
  have hlast : s.totalLines + 1 > s.endLine ↔ lines.length + 1 > r.startLine + (r.limit - 1) := by
    rw [h.totalLines, hserves.endLine]
  rw [push_of_not_tail hserves.tailLines]
  by_cases hbefore : lines.length + 1 < r.startLine
  · rw [if_pos (hfirst.2 hbefore)]
    exact ⟨rest, h.push_before hbefore line⟩
  rw [if_neg (mt hfirst.1 hbefore)]
  have hstart : r.startLine ≤ lines.length + 1 := Nat.not_lt.1 hbefore
  by_cases hend : lines.length + 1 > r.startLine + (r.limit - 1) ∨ s.hitTotalCharLimit = true
  · rw [if_pos (hend.imp_left hlast.2), h.totalLines, ← length_renderLine]
    refine ⟨_, h.totalLines ▸ h.push_behind hstart ?_ line⟩
    refine hend.symm.elim .inr fun hbehind => ?_
    -- behind the last line of the request, or else the stretch would have gone on
    cases hhit : s.hitTotalCharLimit with
    | true => exact .inr rfl
    | false =>
      refine .inl ((h.full hhit).elim (fun hnone => ?_) id)
      have hle := h.limit_le
      rw [hnone, length_nil] at hlength
      omega
  · rw [if_neg (mt (Or.imp_left hlast.1) hend), h.totalLines]
    obtain ⟨hinside, hhit⟩ := not_or.1 hend
    have hhit : s.hitTotalCharLimit = false := Bool.eq_false_iff.2 hhit
    have hrest : rest = [] := (h.full hhit).resolve_right fun hfull => by omega
    subst hrest
    rw [length_nil] at hlength
    have hnext : s.nextChars (renderLine r.maxLineChars (lines.length + 1) line) =
        pageChars (s.selectedLines ++ [renderLine r.maxLineChars (lines.length + 1) line]) := by
      rw [nextChars, pageChars_concat, h.selectedChars]
    rw [select_of_not_hit hhit, ← renderLine, hnext]
    by_cases hlong : r.maxTotalChars <
        pageChars (s.selectedLines ++ [renderLine r.maxLineChars (lines.length + 1) line])
    · rw [if_pos (hserves.maxTotalChars ▸ hlong)]
      exact ⟨_, h.totalLines ▸ h.push_long hstart line hlong⟩
    · rw [if_neg (hserves.maxTotalChars ▸ hlong)]
      exact ⟨[], h.totalLines ▸ h.push_shown hstart (by omega) hhit line _ (Nat.not_lt.1 hlong)⟩

end Push

/-- The lines of a text leave a stretch of them. -/
theorem Stretch.pushLines {s : ReadLineSelection} {r : PageRequest}
    {lines rest : List (List Char)} (h : s.Stretch r lines rest) (more : List (List Char)) :
    ∃ rest', (s.pushLines more).Stretch r (lines ++ more) rest' := by
  induction more generalizing s lines rest with
  | nil => exact ⟨rest, by rw [append_nil]; exact h⟩
  | cons line more ih =>
    rw [pushLines_cons, h.serves.maxLineChars]
    obtain ⟨rest', hpush⟩ := h.push line
    obtain ⟨rest'', hmore⟩ := ih hpush
    rw [append_assoc, singleton_append] at hmore
    exact ⟨rest'', hmore⟩

end ReadLineSelection

/-- A page that shows some lines and leaves others behind. -/
structure IsPage (r : PageRequest) (lines : List (List Char)) (page : ReadFileResult)
    (shown rest : List (List Char)) : Prop where
  split : (renderLines r.maxLineChars lines).drop (r.startLine - 1) = shown ++ rest
  startLine : page.startLine = r.startLine
  endLine : page.endLine = r.startLine + shown.length - 1
  totalLines : page.totalLines = r.startLine - 1 + shown.length + rest.length
  content : page.content = List.intercalate ['\n'] shown
  limit_le : shown.length ≤ r.limit
  chars_le : pageChars shown ≤ r.maxTotalChars
  remainingChars : page.remainingChars = pageChars rest
  truncatedLines : page.truncatedLines =
    cutLines r.maxLineChars lines r.startLine shown.length
  /-- Why the page ends where it does. -/
  ends : rest = [] ∨ shown.length = r.limit ∨
    ∃ next more, rest = next :: more ∧ r.maxTotalChars < pageChars (shown ++ [next])

theorem ReadLineSelection.Stretch.finish {s : ReadLineSelection} {r : PageRequest}
    {lines rest : List (List Char)} (h : s.Stretch r lines rest)
    (hstart : r.startLine ≤ lines.length) :
    ∃ page, s.finish = .ok page ∧ IsPage r lines page s.selectedLines rest := by
  have hpos := r.startLine_pos
  have hlength := h.length_eq
  have hsome : s.totalLines ≠ 0 := by
    rw [h.totalLines]
    omega
  have hinside : ¬ s.startLine > s.totalLines := by
    rw [h.totalLines, h.serves.startLine]
    omega
  rw [ReadLineSelection.finish, if_neg hsome, h.serves.tailLines]
  dsimp only
  rw [if_neg hinside]
  refine ⟨_, rfl, ?_⟩
  refine ⟨h.split, h.serves.startLine, ?_, ?_, rfl, h.limit_le, ?_, h.remainingChars,
    h.truncatedLines, ?_⟩
  · dsimp only
    rw [h.serves.startLine]
    cases s.selectedLines with
    | nil => rfl
    | cons line lines => rfl
  · dsimp only
    rw [h.totalLines]
    omega
  · rw [← h.selectedChars]
    exact h.selectedChars_le
  · cases hhit : s.hitTotalCharLimit with
    | true => exact .inr (.inr (h.hit hhit))
    | false => exact (h.full hhit).imp_right .inl

/-- The reads of a buffer give what is in it. -/
theorem flatten_reads {size : ℕ} (hsize : 0 < size) {count : ℕ} {bytes : List UInt8}
    (h : bytes.length ≤ count) : (reads size count bytes).flatten = bytes := by
  induction count generalizing bytes with
  | zero =>
    rw [eq_nil_of_length_eq_zero (Nat.le_zero.1 h)]
    rfl
  | succ count ih =>
    cases bytes with
    | nil => rfl
    | cons byte bytes =>
      have hless : ((byte :: bytes).drop size).length ≤ count := by
        rw [length_drop, length_cons]
        rw [length_cons] at h
        omega
      rw [reads, isEmpty_cons, if_neg Bool.false_ne_true, flatten_cons, ih hless,
        take_append_drop]

theorem readText_eq (r : PageRequest) (text : List Char) :
    readText text r.startLine r.limit r.maxLineChars r.maxTotalChars =
      (r.selection.pushLines (Text.lines text)).finish := by
  have hflatten := @flatten_reads 8192 (by omega) _ _ (Nat.le_refl (Utf8.encode text).length)
  have hholds : ReadTextDecoder.Holds { selection := r.selection } [] :=
    ⟨by simp, ⟨by simp [withoutReturn], by simp [withoutReturn], by simp [withoutReturn]⟩, rfl,
      rfl⟩
  have hdecode := (ReadTextDecoder.decode_spec { selection := r.selection }
    (reads 8192 (Utf8.encode text).length (Utf8.encode text)) rfl).1 text hflatten
  rw [hholds.finish_pushText rfl, nil_append] at hdecode
  rw [readText, readBufferedText, r.new_eq]
  dsimp only
  rw [hdecode]

/-- A request from a line of the text gives a page. -/
theorem exists_page (r : PageRequest) {text : List Char}
    (hstart : r.startLine ≤ (Text.lines text).length) :
    ∃ page shown rest,
      readText text r.startLine r.limit r.maxLineChars r.maxTotalChars = .ok page ∧
      IsPage r (Text.lines text) page shown rest := by
  obtain ⟨rest, hstretch⟩ :=
    (ReadLineSelection.stretch_selection r).pushLines (Text.lines text)
  rw [nil_append] at hstretch
  obtain ⟨page, hpage, hspec⟩ := hstretch.finish hstart
  exact ⟨page, _, rest, (readText_eq r text).trans hpage, hspec⟩

namespace IsPage

variable {r : PageRequest} {lines shown rest : List (List Char)} {page : ReadFileResult}

theorem linesRead (h : IsPage r lines page shown rest) : readFileLinesRead page = shown.length := by
  have hpos := r.startLine_pos
  rw [readFileLinesRead, h.startLine, h.endLine, h.totalLines]
  split
  · omega
  · omega

/-- A page says where to go on if it shows a line and leaves one behind. -/
theorem nextStartLine (h : IsPage r lines page shown rest) :
    nextStartLine page =
      if shown ≠ [] ∧ rest ≠ [] then some (r.startLine + shown.length) else none := by
  have hpos := r.startLine_pos
  have hshown : 0 < shown.length ↔ shown ≠ [] := length_pos_iff
  have hrest : 0 < rest.length ↔ rest ≠ [] := length_pos_iff
  have hmore : (shown.length > 0 ∧ r.startLine + shown.length - 1 <
      r.startLine - 1 + shown.length + rest.length) ↔ shown ≠ [] ∧ rest ≠ [] := by
    rw [← hshown, ← hrest]
    omega
  rw [ReadFile.nextStartLine, h.linesRead, h.endLine, h.totalLines]
  by_cases hboth : shown ≠ [] ∧ rest ≠ []
  · rw [if_pos hboth, if_pos (hmore.2 hboth), Nat.sub_add_cancel (by omega)]
  · rw [if_neg hboth, if_neg (mt hmore.1 hboth)]

/-- What a page says of the next call is about the lines that it leaves behind. -/
theorem fitsInOneCall_iff (h : IsPage r lines page shown rest) (budget : ReadCallBudget) :
    fitsInOneCall page budget = true ↔
      rest.length ≤ budget.maxLines ∧ pageChars rest ≤ budget.maxTotalChars := by
  have hpos := r.startLine_pos
  have hleft : r.startLine - 1 + shown.length + rest.length - (r.startLine + shown.length - 1) =
      rest.length := by omega
  rw [fitsInOneCall, h.endLine, h.totalLines, h.remainingChars, hleft, Bool.and_eq_true,
    decide_eq_true_iff, decide_eq_true_iff]

/-- Lines that fit into the budgets of a page are all on it. -/
theorem rest_eq_nil (h : IsPage r lines page shown rest)
    (hlines : (shown ++ rest).length ≤ r.limit)
    (hchars : pageChars (shown ++ rest) ≤ r.maxTotalChars) : rest = [] := by
  rcases h.ends with hnone | hfull | ⟨next, more, rfl, hlong⟩
  · exact hnone
  · rw [length_append, hfull] at hlines
    exact eq_nil_of_length_eq_zero (by omega)
  · have hle := pageChars_le_append (shown ++ [next]) more
    rw [append_assoc, singleton_append] at hle
    omega

/-- A page that shows nothing is one before a line that no page can show. -/
theorem too_long (h : IsPage r lines page [] rest) (hne : rest ≠ []) :
    ∃ next more, rest = next :: more ∧ r.maxTotalChars < next.length := by
  rcases h.ends with hnone | hfull | ⟨next, more, hrest, hlong⟩
  · exact absurd hnone hne
  · exact absurd hfull (Nat.ne_of_lt r.limit_pos)
  · refine ⟨next, more, hrest, ?_⟩
    simpa [pageChars] using hlong

end IsPage

/-! ## All pages -/

/-- The error of a call whose last line would not be a number of the machine. -/
def tooLarge : ReadError := .message "Requested line range is too large"

/-- Calls from a line on, each where the page before says to go on: the pages that they give, and
the error that ends them, if there is one. -/
inductive Reading (path : String) (text : List Char) (maxLineChars : ℕ) (budget : ReadCallBudget) :
    ℕ → List ReadFileResult → Option ReadError → Prop
  | last {start : ℕ} {page : ReadFileResult}
      (hread : readText text start budget.maxLines maxLineChars budget.maxTotalChars = .ok page)
      (hlast : (buildReadFilePresentationWithBudget path page budget).nextOffset = none) :
      Reading path text maxLineChars budget start [page] none
  | next {start offset : ℕ} {page : ReadFileResult} {pages : List ReadFileResult}
      {stop : Option ReadError}
      (hread : readText text start budget.maxLines maxLineChars budget.maxTotalChars = .ok page)
      (hnext : (buildReadFilePresentationWithBudget path page budget).nextOffset = some offset)
      (hmore : Reading path text maxLineChars budget offset pages stop) :
      Reading path text maxLineChars budget start (page :: pages) stop
  | refused {start : ℕ} {error : ReadError}
      (hread : readText text start budget.maxLines maxLineChars budget.maxTotalChars =
        .error error) :
      Reading path text maxLineChars budget start [] (some error)

/-- Pages that show some lines, page by page, within the budgets, and list the numbers of those that
are cut. -/
def Shown (maxLineChars : ℕ) (budget : ReadCallBudget) (lines : List (List Char)) :
    ℕ → List ReadFileResult → List (List (List Char)) → Prop
  | _, [], [] => True
  | start, page :: pages, shown :: more =>
    page.content = List.intercalate ['\n'] shown ∧
    readFileLinesRead page = shown.length ∧ shown.length ≤ budget.maxLines ∧
    page.content.length ≤ budget.maxTotalChars ∧
    page.truncatedLines = cutLines maxLineChars lines start shown.length ∧
    Shown maxLineChars budget lines (start + shown.length) pages more
  | _, _, _ => False

/-- How the calls end: there are no lines left, or one that no page can show, or lines that a call
cannot ask for. -/
inductive Ends (budget : ReadCallBudget) (start : ℕ) (shown : List (List (List Char))) :
    List (List Char) → Option ReadError → Prop
  | all : Ends budget start shown [] none
  | tooLong {next : List Char} {more : List (List Char)} (hempty : shown.getLast? = some [])
      (hlong : budget.maxTotalChars < next.length) : Ends budget start shown (next :: more) none
  | tooLarge {rest : List (List Char)} (hne : rest ≠ [])
      (hlarge : usizeMax < start + shown.flatten.length + (budget.maxLines - 1)) :
      Ends budget start shown rest (some tooLarge)

/-- A page says that all that is left fits into one call. -/
def Promises (budget : ReadCallBudget) (page : ReadFileResult) : Prop :=
  (nextStartLine page).isSome = true ∧ fitsInOneCall page budget = true

/-- What the pages from a line on are, with the lines that they show and those that are left. -/
structure Covers (path : String) (text : List Char) (maxLineChars : ℕ) (budget : ReadCallBudget)
    (start : ℕ) (pages : List ReadFileResult) (stop : Option ReadError)
    (shown : List (List (List Char))) (rest : List (List Char)) : Prop where
  reading : Reading path text maxLineChars budget start pages stop
  /-- Each line is shown once, in order. -/
  split : (renderLines maxLineChars (Text.lines text)).drop (start - 1) = shown.flatten ++ rest
  each : Shown maxLineChars budget (Text.lines text) start pages shown
  ends : Ends budget start shown rest stop
  /-- Behind a page that promises it there is one more page, the last one, unless the call for it is
  refused. -/
  promised : ∀ index page, pages[index]? = some page → Promises budget page →
    pages.length ≤ index + 2 ∧ (stop = none → pages.length = index + 2 ∧ rest = [])

/-- If the lines that are left fit into one call, one page shows them, unless it is refused. -/
def Once (budget : ReadCallBudget) (left : List (List Char)) (pages : List ReadFileResult)
    (stop : Option ReadError) (rest : List (List Char)) : Prop :=
  left.length ≤ budget.maxLines → pageChars left ≤ budget.maxTotalChars →
    pages.length ≤ 1 ∧ (stop = none → pages.length = 1 ∧ rest = [])

section Covers

variable {path : String} {text : List Char} {maxLineChars : ℕ} {budget : ReadCallBudget}

theorem covers_refused (hlines : 0 < budget.maxLines) (hchars : 0 < budget.maxTotalChars)
    {start : ℕ} (hpos : 0 < start) (hstart : start ≤ (Text.lines text).length)
    (hlarge : usizeMax < start + (budget.maxLines - 1)) :
    Covers path text maxLineChars budget start [] (some tooLarge) []
      ((renderLines maxLineChars (Text.lines text)).drop (start - 1)) where
  reading := by
    apply Reading.refused
    rw [readText, readBufferedText, ReadLineSelection.new, if_neg (Nat.ne_of_gt hpos),
      if_neg (Nat.ne_of_gt hlines), if_neg (Nat.ne_of_gt hchars), if_pos hlarge]
    rfl
  split := rfl
  each := trivial
  ends := by
    refine .tooLarge (fun hnone => ?_) hlarge
    have hlength := congrArg List.length hnone
    rw [length_drop, length_renderLines, length_nil] at hlength
    omega
  promised := by
    intro index page hpage
    cases hpage

theorem covers_last (r : PageRequest) (hlines : r.limit = budget.maxLines)
    (hchars : r.maxTotalChars = budget.maxTotalChars) {page : ReadFileResult}
    {shown rest : List (List Char)}
    (hread : readText text r.startLine r.limit r.maxLineChars r.maxTotalChars = .ok page)
    (h : IsPage r (Text.lines text) page shown rest) (hlast : ¬ (shown ≠ [] ∧ rest ≠ [])) :
    Covers path text r.maxLineChars budget r.startLine [page] none [shown] rest := by
  have hnext : nextStartLine page = none := by rw [h.nextStartLine, if_neg hlast]
  refine ⟨.last (hlines ▸ hchars ▸ hread) hnext, ?_, ?_, ?_, ?_⟩
  · rw [flatten_singleton]
    exact h.split
  · refine ⟨h.content, h.linesRead, hlines ▸ h.limit_le, ?_, h.truncatedLines, trivial⟩
    rw [h.content, length_intercalate, ← hchars]
    exact h.chars_le
  · by_cases hrest : rest = []
    · subst hrest
      exact .all
    · have hshown : shown = [] := by_contra fun hne => hlast ⟨hne, hrest⟩
      subst hshown
      obtain ⟨next, more, rfl, hlong⟩ := h.too_long hrest
      exact .tooLong rfl (hchars ▸ hlong)
  · intro index page' hpage hpromise
    cases index with
    | zero =>
      cases hpage
      rw [Promises, hnext] at hpromise
      exact absurd hpromise.1 Bool.false_ne_true
    | succ index => cases hpage

theorem covers_next (r : PageRequest) (hlines : r.limit = budget.maxLines)
    (hchars : r.maxTotalChars = budget.maxTotalChars) {page : ReadFileResult}
    {shown rest : List (List Char)}
    (hread : readText text r.startLine r.limit r.maxLineChars r.maxTotalChars = .ok page)
    (h : IsPage r (Text.lines text) page shown rest) (hnext : shown ≠ [] ∧ rest ≠ [])
    {pages : List ReadFileResult} {stop : Option ReadError} {more : List (List (List Char))}
    {rest' : List (List Char)}
    (hcovers : Covers path text r.maxLineChars budget (r.startLine + shown.length) pages stop more
      rest') (honce : Once budget rest pages stop rest') :
    Covers path text r.maxLineChars budget r.startLine (page :: pages) stop (shown :: more)
      rest' := by
  have hpos := r.startLine_pos
  have hoffset : nextStartLine page = some (r.startLine + shown.length) := by
    rw [h.nextStartLine, if_pos hnext]
  refine ⟨.next (hlines ▸ hchars ▸ hread) hoffset hcovers.reading, ?_, ?_, ?_, ?_⟩
  · have hrest : rest = more.flatten ++ rest' := by
      have hdrop := congrArg (List.drop shown.length) h.split
      rw [drop_drop, drop_left] at hdrop
      rw [← hdrop, ← hcovers.split]
      congr 1
      omega
    rw [h.split, hrest, flatten_cons, append_assoc]
  · refine ⟨h.content, h.linesRead, hlines ▸ h.limit_le, ?_, h.truncatedLines, hcovers.each⟩
    rw [h.content, length_intercalate, ← hchars]
    exact h.chars_le
  · cases hcovers.ends with
    | all => exact .all
    | tooLong hempty hlong =>
      refine .tooLong ?_ hlong
      rw [getLast?_cons, hempty]
      rfl
    | tooLarge hne hlarge =>
      refine .tooLarge hne ?_
      rw [flatten_cons, length_append]
      omega
  · intro index page' hpage hpromise
    cases index with
    | zero =>
      cases hpage
      obtain ⟨hfew, hshort⟩ := (h.fitsInOneCall_iff budget).1 hpromise.2
      obtain ⟨hle, hone⟩ := honce hfew hshort
      refine ⟨Nat.succ_le_succ hle, fun hstop => ?_⟩
      obtain ⟨hlength, hnone⟩ := hone hstop
      exact ⟨congrArg Nat.succ hlength, hnone⟩
    | succ index =>
      obtain ⟨hle, hone⟩ := hcovers.promised index page' hpage hpromise
      refine ⟨Nat.succ_le_succ hle, fun hstop => ?_⟩
      obtain ⟨hlength, hnone⟩ := hone hstop
      exact ⟨congrArg Nat.succ hlength, hnone⟩

/-- From any line on the pages cover the lines. The induction is on how many lines are left. -/
theorem exists_covers (path : String) (text : List Char) (maxLineChars : ℕ)
    {budget : ReadCallBudget} (hlines : 0 < budget.maxLines) (hchars : 0 < budget.maxTotalChars)
    {start : ℕ} (hpos : 0 < start) (hstart : start ≤ (Text.lines text).length) :
    ∃ pages stop shown rest,
      Covers path text maxLineChars budget start pages stop shown rest ∧
      Once budget ((renderLines maxLineChars (Text.lines text)).drop (start - 1)) pages stop
        rest := by
  induction hleft : (Text.lines text).length - start using Nat.strong_induction_on
    generalizing start with
  | _ left ih =>
    by_cases hlarge : usizeMax < start + (budget.maxLines - 1)
    · refine ⟨[], _, [], _, covers_refused hlines hchars hpos hstart hlarge, fun _ _ => ?_⟩
      exact ⟨Nat.zero_le _, fun hstop => nomatch hstop⟩
    let r : PageRequest := ⟨start, budget.maxLines, maxLineChars, budget.maxTotalChars, hpos,
      hlines, hchars, Nat.not_lt.1 hlarge⟩
    obtain ⟨page, shown, rest, hread, hpage⟩ := exists_page r hstart
    by_cases hnext : shown ≠ [] ∧ rest ≠ []
    · have hshown := length_pos_iff.2 hnext.1
      have hrest := length_pos_iff.2 hnext.2
      have hlength := congrArg List.length hpage.split
      rw [length_drop, length_renderLines, length_append] at hlength
      change (Text.lines text).length - (start - 1) = _ at hlength
      have hdrop := congrArg (List.drop shown.length) hpage.split
      rw [drop_drop, drop_left] at hdrop
      change List.drop (start - 1 + shown.length) (renderLines maxLineChars (Text.lines text)) =
        rest at hdrop
      obtain ⟨pages, stop, more, rest', hcovers, honce⟩ :=
        ih ((Text.lines text).length - (start + shown.length)) (by omega) (by omega) (by omega) rfl
      rw [show start + shown.length - 1 = start - 1 + shown.length by omega, hdrop] at honce
      refine ⟨page :: pages, stop, shown :: more, rest',
        covers_next r rfl rfl hread hpage hnext hcovers honce, fun hfew hshort => ?_⟩
      change List.length (List.drop (r.startLine - 1) _) ≤ r.limit at hfew
      change pageChars (List.drop (r.startLine - 1) _) ≤ r.maxTotalChars at hshort
      refine absurd (hpage.rest_eq_nil ?_ ?_) hnext.2
      · rw [← hpage.split]
        exact hfew
      · rw [← hpage.split]
        exact hshort
    · refine ⟨[page], none, [shown], rest, covers_last r rfl rfl hread hpage hnext,
        fun hfew hshort => ⟨Nat.le_refl _, fun _ => ⟨rfl, ?_⟩⟩⟩
      apply hpage.rest_eq_nil
      · rw [← hpage.split]
        exact hfew
      · rw [← hpage.split]
        exact hshort

end Covers

/-- An empty text is one page without lines. -/
theorem readText_of_lines_eq_nil (r : PageRequest) {text : List Char} (h : Text.lines text = []) :
    readText text r.startLine r.limit r.maxLineChars r.maxTotalChars =
      .ok ⟨0, 0, 0, [], false, false, [], 0⟩ := by
  rw [readText_eq, h]
  rfl

/-- Reading a text page after page from the first line on ends, and shows each line once and in
order, within the budgets; unless the next line is too long for any page, or a call for it would ask
for more lines than there are numbers. -/
theorem pages_cover (path : String) (text : List Char) (maxLineChars : ℕ) (budget : ReadCallBudget)
    (hlines : 0 < budget.maxLines) (hchars : 0 < budget.maxTotalChars)
    (hmachine : budget.maxLines ≤ usizeMax) :
    ∃ pages stop shown rest, Covers path text maxLineChars budget 1 pages stop shown rest := by
  by_cases hempty : Text.lines text = []
  · let r : PageRequest := ⟨1, budget.maxLines, maxLineChars, budget.maxTotalChars,
      Nat.one_pos, hlines, hchars, by omega⟩
    refine ⟨[⟨0, 0, 0, [], false, false, [], 0⟩], none, [[]], [],
      .last (readText_of_lines_eq_nil r hempty) rfl, ?_, ?_, .all, ?_⟩
    · rw [hempty]
      rfl
    · exact ⟨rfl, rfl, Nat.zero_le _, Nat.zero_le _, rfl, trivial⟩
    · intro index page hpage hpromise
      cases index with
      | zero =>
        cases hpage
        exact absurd hpromise.1 Bool.false_ne_true
      | succ index => cases hpage
  · have hsome := length_pos_iff.2 hempty
    obtain ⟨pages, stop, shown, rest, hcovers, -⟩ :=
      exists_covers path text maxLineChars hlines hchars Nat.one_pos hsome
    exact ⟨pages, stop, shown, rest, hcovers⟩

/-- Two lines of which a page shows one. -/
theorem pages_cover_two_lines :
    0 < 2000 ∧ 0 < 8 ∧ 2000 ≤ usizeMax ∧ ∃ pages stop shown rest,
      Covers "a.txt" "a\nb".toList 8 ⟨2000, 8⟩ 1 pages stop shown rest :=
  ⟨by decide, by decide, by decide,
    pages_cover "a.txt" "a\nb".toList 8 ⟨2000, 8⟩ (by decide) (by decide) (by decide)⟩

/-- With the largest number of lines the first call shows the first of two lines and says to go on
at the second, and the call from there is refused; so no calls end without an error. -/
theorem second_page_refused :
    (∃ page, readText "a\nb".toList 1 usizeMax 8 8 = .ok page ∧ readFileLinesRead page = 1 ∧
      (buildReadFilePresentationWithBudget "a.txt" page ⟨usizeMax, 8⟩).nextOffset = some 2) ∧
    ¬ ∃ pages, Reading "a.txt" "a\nb".toList 8 ⟨usizeMax, 8⟩ 1 pages none := by
  have hfirst : readText "a\nb".toList 1 usizeMax 8 8 =
      .ok ⟨1, 1, 2, "     1\ta".toList, true, true, [], 8⟩ := by decide
  have hsecond : readText "a\nb".toList 2 usizeMax 8 8 = .error tooLarge := by decide
  refine ⟨⟨_, hfirst, by decide, by decide⟩, ?_⟩
  rintro ⟨pages, hreading⟩
  cases hreading with
  | last hread hlast =>
    cases hfirst.symm.trans hread
    exact absurd hlast (by decide)
  | next hread hnext hmore =>
    cases hfirst.symm.trans hread
    cases hnext
    cases hmore with
    | last hread hlast => cases hsecond.symm.trans hread
    | next hread hnext hmore => cases hsecond.symm.trans hread

end ReadFile

end OpenBitFun
