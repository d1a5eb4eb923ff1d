import OpenBitFun.EditFile

/-!
# What an edit leaves alone

The content of a file is read as units: a carriage return with its line feed is one, every other
character another. `Framed` says that an edit replaces the occurrences of the old string and keeps
every other unit. It does so exactly if a file with carriage returns before line feeds has no bare
line feed outside the occurrences, and the string occurs once where one occurrence is replaced.
-/

namespace OpenBitFun

namespace EditFile

variable {content s o n : List Char} {g : List (List Char)} {replaceAll : Bool}
  {r : ApplyEditResult}

/-! ## Units -/

/-- The units of a text. -/
def units : List Char → List (List Char)
  | '\r' :: '\n' :: s => crlf :: units s
  | c :: s => [c] :: units s
  | [] => []

/-- The character that a unit is compared as. -/
def unitChar : List Char → Char
  | [c] => c
  | _ => '\n'

/-- Writes every line feed with a carriage return. -/
def toCrlf (s : List Char) : List Char := s.flatMap fun c => if c = '\n' then crlf else [c]

/-- A unit is a line end of two characters or a single character. -/
theorem mem_units {u : List Char} (h : u ∈ units s) : u = crlf ∨ ∃ c, u = [c] := by
  fun_induction units s with
  | case1 s ih =>
    obtain rfl | h := List.mem_cons.1 h
    · exact .inl rfl
    · exact ih h
  | case2 c s hne ih =>
    obtain rfl | h := List.mem_cons.1 h
    · exact .inr ⟨c, rfl⟩
    · exact ih h
  | case3 => cases h

@[simp] theorem flatten_units (s : List Char) : (units s).flatten = s := by
  fun_induction units s with
  | case1 s ih => simp [ih, crlf]
  | case2 c s hne ih => simp [ih]
  | case3 => rfl

theorem gaps_crlf_cons (s : List Char) :
    gaps id crlf ('\r' :: '\n' :: s) = [] :: gaps id crlf s := by
  simp [gaps, gapsFrom, crlf]

theorem gaps_crlf_other {c : Char} {s : List Char} (h : ∀ t, c = '\r' → s = '\n' :: t → False) :
    gaps id crlf (c :: s) = (gaps id crlf s).modifyHead (c :: ·) := by
  rw [gaps, gapsFrom, if_neg, ← gaps]
  rw [map_take_eq_iff]
  rintro ⟨b, t, heq, hb⟩
  rw [List.map_id] at hb
  subst hb
  obtain ⟨rfl, rfl⟩ : c = '\r' ∧ s = '\n' :: t := by simpa [crlf] using heq
  exact h t rfl rfl

/-- Joining gaps of which the first is longer. -/
theorem intercalate_modifyHead {α : Type} (m : List α) (c : α) {gs : List (List α)}
    (h : gs ≠ []) : m.intercalate (gs.modifyHead (c :: ·)) = c :: m.intercalate gs := by
  obtain ⟨g, rest, rfl⟩ := List.exists_cons_of_ne_nil h
  by_cases hrest : rest = []
  · subst hrest
    rfl
  · rw [List.modifyHead_cons, intercalate_cons_gaps _ _ hrest, intercalate_cons_gaps _ _ hrest]
    rfl

theorem replace_crlf (s : List Char) : Text.replace s crlf ['\n'] = (units s).map unitChar := by
  rw [Text.replace]
  fun_induction units s with
  | case1 s ih =>
    rw [gaps_crlf_cons, intercalate_cons_gaps _ _ (gaps_ne_nil _ _ s), ih]
    rfl
  | case2 c s hne ih =>
    rw [gaps_crlf_other fun t hc hs => hne t hc hs, intercalate_modifyHead _ _ (gaps_ne_nil _ _ s), ih]
    rfl
  | case3 => rfl

/-- The normalized text: one character for each unit. -/
theorem normalizeString_eq (s : List Char) : normalizeString s = (units s).map unitChar := by
  rw [normalizeString]
  split
  · exact replace_crlf s
  · next h =>
    rw [← replace_crlf, Text.replace, gaps_of_not_occurs]
    · simp [List.intercalate]
    · rintro ⟨a, b, c, heq, hb⟩
      rw [List.map_id] at hb
      exact h (decide_eq_true ⟨a, c, by rw [heq, hb]⟩)

theorem replace_newline (s : List Char) : Text.replace s ['\n'] crlf = toCrlf s := by
  rw [Text.replace]
  induction s with
  | nil => rfl
  | cons c s ih =>
    by_cases hc : c = '\n'
    · have hgaps : gaps id ['\n'] (c :: s) = [] :: gaps id ['\n'] s := by
        simp [gaps, gapsFrom, hc]
      rw [hgaps, intercalate_cons_gaps _ _ (gaps_ne_nil _ _ s), ih]
      simp [toCrlf, hc]
    · have hgaps : gaps id ['\n'] (c :: s) = (gaps id ['\n'] s).modifyHead (c :: ·) := by
        simp [gaps, gapsFrom, hc]
      rw [hgaps, intercalate_modifyHead _ _ (gaps_ne_nil _ _ s), ih]
      simp [toCrlf, hc]

/-! ## Line ends of a list of units -/

@[simp] theorem toCrlf_append (s t : List Char) : toCrlf (s ++ t) = toCrlf s ++ toCrlf t := by
  simp [toCrlf]

theorem toCrlf_cons (c : Char) (s : List Char) : toCrlf (c :: s) = toCrlf [c] ++ toCrlf s :=
  toCrlf_append [c] s

theorem toCrlf_intercalate (m : List Char) (gs : List (List Char)) :
    toCrlf (m.intercalate gs) = (toCrlf m).intercalate (gs.map toCrlf) := by
  induction gs with
  | nil => rfl
  | cons g gs ih =>
    by_cases hnil : gs = []
    · subst hnil
      simp [List.intercalate]
    · rw [intercalate_cons_gaps _ _ hnil, List.map_cons, intercalate_cons_gaps _ _ (by simpa),
        ← ih, toCrlf_append, toCrlf_append]

@[simp] theorem countNewlines_append (s t : List Char) :
    countNewlines (s ++ t) = countNewlines s + countNewlines t := List.count_append

theorem countNewlines_toCrlf (s : List Char) : countNewlines (toCrlf s) = countNewlines s := by
  induction s with
  | nil => rfl
  | cons c s ih =>
    have hcons : countNewlines (c :: s) = countNewlines [c] + countNewlines s :=
      countNewlines_append [c] s
    rw [toCrlf_cons, countNewlines_append, ih, hcons]
    by_cases hc : c = '\n'
    · subst hc
      rfl
    · simp [toCrlf, hc]

/-- Units of a text. -/
def AreUnits (g : List (List Char)) : Prop := ∀ u ∈ g, u = crlf ∨ ∃ c, u = [c]

theorem AreUnits.tail {u : List Char} (h : AreUnits (u :: g)) : AreUnits g :=
  fun v hv => h v (List.mem_cons_of_mem u hv)

theorem AreUnits.of_units {a b c : List (List Char)} (h : units content = a ++ b ++ c) :
    AreUnits a ∧ AreUnits b := by
  refine ⟨fun u hu => mem_units (?_ : u ∈ units content), fun u hu => mem_units (?_ : u ∈ units content)⟩
  · rw [h]
    simp [hu]
  · rw [h]
    simp [hu]

/-- A unit has as many line feeds as its character. -/
theorem countNewlines_flatten (h : AreUnits g) :
    countNewlines g.flatten = countNewlines (g.map unitChar) := by
  induction g with
  | nil => rfl
  | cons u g ih =>
    rw [List.flatten_cons, countNewlines_append, ih h.tail, List.map_cons, ← List.singleton_append,
      countNewlines_append]
    obtain rfl | ⟨c, rfl⟩ := h u List.mem_cons_self
    · rfl
    · rfl

/-- Without line ends of two characters the units are the characters. -/
theorem map_unitChar_eq_flatten (h : AreUnits g) (hcrlf : crlf ∉ g) :
    g.map unitChar = g.flatten := by
  induction g with
  | nil => rfl
  | cons u g ih =>
    obtain ⟨hu, hg⟩ := not_or.1 (mt List.mem_cons.2 hcrlf)
    obtain rfl | ⟨c, rfl⟩ := h u List.mem_cons_self
    · exact absurd rfl hu
    · simpa [unitChar] using ih h.tail hg

/-- Writing carriage returns never shortens units. -/
theorem length_flatten_le (h : AreUnits g) :
    g.flatten.length ≤ (toCrlf (g.map unitChar)).length := by
  induction g with
  | nil => exact Nat.le_refl _
  | cons u g ih =>
    rw [List.map_cons, toCrlf_cons, List.flatten_cons, List.length_append, List.length_append]
    refine Nat.add_le_add ?_ (ih h.tail)
    obtain rfl | ⟨c, rfl⟩ := h u List.mem_cons_self
    · exact Nat.le_refl _
    · by_cases hc : c = '\n'
      · simp [toCrlf, unitChar, hc, crlf]
      · simp [toCrlf, unitChar, hc]

/-- Writing carriage returns keeps exactly the units without a bare line feed. -/
theorem flatten_eq_toCrlf_iff (h : AreUnits g) :
    g.flatten = toCrlf (g.map unitChar) ↔ ['\n'] ∉ g := by
  induction g with
  | nil => simp [toCrlf]
  | cons u g ih =>
    rw [List.map_cons, toCrlf_cons, List.flatten_cons, List.mem_cons, not_or, ← ih h.tail]
    have hlen := length_flatten_le h.tail
    obtain rfl | ⟨c, rfl⟩ := h u List.mem_cons_self
    · have hhead : toCrlf [unitChar crlf] = crlf := rfl
      rw [hhead, List.append_cancel_left_eq]
      simp [crlf]
    · by_cases hc : c = '\n'
      · subst hc
        refine iff_of_false (fun heq => ?_) (by simp)
        have hlength := congrArg List.length heq
        have hhead : (toCrlf [unitChar ['\n']]).length = 2 := rfl
        rw [List.length_append, List.length_append, hhead, List.length_singleton] at hlength
        omega
      · have hhead : toCrlf [unitChar [c]] = [c] := by simp [toCrlf, unitChar, hc]
        rw [hhead, List.append_cancel_left_eq]
        simp [Ne.symm hc]

/-! ## The frame -/

/-- The new string with the line ends of the file. -/
def inserted (content n : List Char) : List Char :=
  if Text.contains content crlf then toCrlf (normalizeString n) else normalizeString n

/-- The string occurs once, also among occurrences that overlap. -/
def OccursOnce (content o : List Char) : Prop :=
  ∀ a b c a' b' c', units content = a ++ b ++ c → units content = a' ++ b' ++ c' →
    b.map unitChar = normalizeString o → b'.map unitChar = normalizeString o → a = a'

/-- An edit of a content, with an old and a new string: the occurrences of the old string that do
not overlap, from the left, are replaced and every other unit is kept; one occurrence is replaced
only if it is the only one. -/
structure Framed (content o n : List Char) (replaceAll : Bool) (r : ApplyEditResult) : Prop where
  /-- The new content and the number of replaced occurrences. -/
  replaced : Replaced unitChar (normalizeString o) List.flatten (inserted content n)
    (units content) r.newContent r.matchCount
  /-- There is one to replace. -/
  found : 0 < r.matchCount
  /-- Without `replace_all` it is the only one, also among occurrences that overlap. -/
  only : replaceAll = false → r.matchCount = 1 ∧ OccursOnce content o
  /-- The lines of the first occurrence before and after the edit. -/
  lines : ∃ g w rest, units content = g ++ w ++ rest ∧ w.map unitChar = normalizeString o ∧
    Leftmost unitChar (normalizeString o) g w rest ∧
    r.editResult.startLine = countNewlines g.flatten + 1 ∧
    r.editResult.oldEndLine = countNewlines (g ++ w).flatten + 1 ∧
    r.editResult.newEndLine = countNewlines (g.flatten ++ inserted content n) + 1

/-- In a file with carriage returns before line feeds no bare line feed stands outside the
occurrences. -/
def KeepsLineEnds (content o : List Char) : Prop :=
  Text.contains content crlf = true →
    ∀ g ∈ gaps unitChar (normalizeString o) (units content), ['\n'] ∉ g

/-- The units of a gap are units of the content. -/
theorem areUnits_of_mem_gaps {pattern : List Char} (hg : g ∈ gaps unitChar pattern (units content)) :
    AreUnits g :=
  fun _ hu => mem_units (mem_of_mem_gaps hg hu)

/-- Without a carriage return before a line feed the units are single characters. -/
theorem crlf_not_mem_units (h : ¬Text.contains content crlf = true) : crlf ∉ units content := by
  intro hmem
  obtain ⟨a, b, hab⟩ := List.append_of_mem hmem
  refine h (decide_eq_true ⟨a.flatten, b.flatten, ?_⟩)
  rw [← flatten_units content, hab]
  simp

/-- **The new content** is made of the gaps as they are written. -/
theorem newContent_eq (content m pattern : List Char) :
    (if Text.contains content crlf then
        toCrlf (m.intercalate (gaps id pattern (normalizeString content)))
      else m.intercalate (gaps id pattern (normalizeString content))) =
    (if Text.contains content crlf then toCrlf m else m).intercalate
      ((gaps unitChar pattern (units content)).map fun g =>
        if Text.contains content crlf then toCrlf (g.map unitChar) else g.map unitChar) := by
  rw [normalizeString_eq, gaps_map]
  split
  · rw [toCrlf_intercalate, List.map_map]
    rfl
  · rfl

/-- **The gaps are kept** exactly if the file has no bare line feed in them, or no line end of two
characters at all. -/
theorem replaced_iff_keepsLineEnds {m out : List Char} {count : ℕ} (ho : normalizeString o ≠ [])
    (hout : out = m.intercalate
      ((gaps unitChar (normalizeString o) (units content)).map fun g =>
        if Text.contains content crlf then toCrlf (g.map unitChar) else g.map unitChar))
    (hcount : count + 1 = (gaps unitChar (normalizeString o) (units content)).length) :
    Replaced unitChar (normalizeString o) List.flatten m (units content) out count ↔
      KeepsLineEnds content o := by
  rw [replaced_iff ho, hout, KeepsLineEnds]
  by_cases hcrlf : Text.contains content crlf = true
  · simp only [hcrlf, if_true, forall_const]
    rw [and_iff_left hcount, eq_comm, intercalate_map_eq_iff fun g hg =>
      length_flatten_le (areUnits_of_mem_gaps hg)]
    exact forall₂_congr fun g hg => flatten_eq_toCrlf_iff (areUnits_of_mem_gaps hg)
  · refine iff_of_true ⟨?_, hcount⟩ fun h => absurd h hcrlf
    simp only [hcrlf]
    refine congrArg _ (List.map_congr_left fun g hg => ?_)
    exact map_unitChar_eq_flatten (areUnits_of_mem_gaps hg)
      fun hmem => crlf_not_mem_units hcrlf (mem_of_mem_gaps hg hmem)

/-! ## Matching -/

theorem length_offsets (pattern : List Char) (position : ℕ) (gs : List (List Char)) :
    (Text.offsets pattern position gs).length = gs.length - 1 := by
  induction gs generalizing position with
  | nil => rfl
  | cons g gs ih =>
    cases gs with
    | nil => rfl
    | cons g' gs => simp [Text.offsets, ih]

theorem takeBytes_byteLength (s t : List Char) : Text.takeBytes (Text.byteLength s) (s ++ t) = s := by
  induction s with
  | nil =>
    cases t with
    | nil => rfl
    | cons c t =>
      have := c.utf8Size_pos
      rw [List.nil_append, Text.takeBytes, if_neg]
      simp only [Text.byteLength_nil]
      omega
  | cons c s ih =>
    rw [List.cons_append, Text.takeBytes, if_pos (by simp), Text.byteLength_cons,
      Nat.add_sub_cancel_left, ih]

/-- A string that is not found does not occur. -/
theorem not_occurs_of_matchIndices {pattern : List Char} (hpattern : pattern ≠ [])
    (h : Text.matchIndices (normalizeString content) pattern = []) :
    ¬Occurs unitChar pattern (units content) := by
  intro hocc
  obtain ⟨g, w, rest, heq, hw, hleft⟩ := exists_leftmost hocc
  have hlen := congrArg List.length h
  have hpos := List.length_pos_of_ne_nil (gaps_ne_nil unitChar pattern rest)
  rw [Text.matchIndices, length_offsets, normalizeString_eq, gaps_map, List.length_map, heq,
    gaps_of_leftmost hpattern hw hleft, List.length_cons, List.length_nil] at hlen
  omega

/-- Where one occurrence is replaced there are two gaps, and both ways to replace agree. -/
theorem replacen_eq_replace {s pattern m : List Char}
    (h : (Text.matchIndices s pattern).length = 1) :
    Text.replacen s pattern m 1 = Text.replace s pattern m := by
  rw [Text.matchIndices, length_offsets] at h
  rw [Text.replacen, Text.replace]
  match hgaps : gaps id pattern s with
  | [] => simp [hgaps] at h
  | [_] => simp [hgaps] at h
  | [a, b] => simp [Text.joinFirst, List.intercalate]
  | _ :: _ :: _ :: _ => simp [hgaps] at h

/-- A successful match in the units of the content. -/
structure Matched (content o n : List Char) (replaceAll : Bool) (r : ApplyEditResult)
    (g w rest : List (List Char)) : Prop where
  /-- The old string is not empty. -/
  old : normalizeString o ≠ []
  /-- The first occurrence. -/
  split : units content = g ++ w ++ rest
  /-- It is the old string. -/
  occurrence : w.map unitChar = normalizeString o
  /-- It is the first. -/
  leftmost : Leftmost unitChar (normalizeString o) g w rest
  /-- The occurrences are counted. -/
  count : r.matchCount + 1 = (gaps unitChar (normalizeString o) (units content)).length
  /-- Only one is replaced where there may be one only. -/
  one : replaceAll = false → r.matchCount = 1
  /-- The new content. -/
  newContent : r.newContent = (inserted content n).intercalate
    ((gaps unitChar (normalizeString o) (units content)).map fun g =>
      if Text.contains content crlf then toCrlf (g.map unitChar) else g.map unitChar)
  /-- The first line. -/
  startLine : r.editResult.startLine = countNewlines g.flatten + 1
  /-- The last line before the edit. -/
  oldEndLine : r.editResult.oldEndLine = r.editResult.startLine + countNewlines (normalizeString o)
  /-- The last line after the edit. -/
  newEndLine : r.editResult.newEndLine = r.editResult.startLine + countNewlines (normalizeString n)

/-- **`applyMatchAndReplace` succeeds** only with a match. -/
theorem applyMatchAndReplace_matched (h : applyMatchAndReplace (normalizeString content)
    (Text.contains content crlf) o n replaceAll = .ok r) :
    ∃ g w rest, Matched content o n replaceAll r g w rest := by
  simp only [applyMatchAndReplace] at h
  split at h
  · cases h
  next hold =>
  have ho : normalizeString o ≠ [] := by simpa using hold
  split at h
  · cases h
  next first others hmatch =>
  split at h
  · cases h
  next hone =>
  have hlength := congrArg List.length hmatch
  rw [Text.matchIndices, length_offsets, normalizeString_eq content, gaps_map, List.length_map,
    List.length_cons] at hlength
  -- the string occurs, so there is a first occurrence
  have hocc : Occurs unitChar (normalizeString o) (units content) := by
    by_contra hnot
    rw [gaps_of_not_occurs hnot] at hlength
    simp at hlength
  obtain ⟨g, w, rest, hsplit, hw, hleft⟩ := exists_leftmost hocc
  have hgaps := gaps_of_leftmost ho hw hleft
  rw [← hsplit] at hgaps
  have hfirst : first = Text.byteLength (g.map unitChar) := by
    obtain ⟨g', gs, hrest⟩ := List.exists_cons_of_ne_nil
      (gaps_ne_nil unitChar (normalizeString o) rest)
    rw [Text.matchIndices, normalizeString_eq content, gaps_map, hgaps, hrest, List.map_cons,
      List.map_cons, Text.offsets, Nat.zero_add] at hmatch
    exact (List.cons_eq_cons.1 hmatch).1.symm
  have hstart : countLinesBefore (normalizeString content) first = countNewlines g.flatten + 1 := by
    rw [countLinesBefore, hfirst, normalizeString_eq content, hsplit, List.append_assoc,
      List.map_append, takeBytes_byteLength, countNewlines_flatten]
    exact (AreUnits.of_units hsplit).1
  have hreplace : (if replaceAll = true then
        Text.replace (normalizeString content) (normalizeString o) (normalizeString n)
      else Text.replacen (normalizeString content) (normalizeString o) (normalizeString n) 1) =
      (normalizeString n).intercalate (gaps id (normalizeString o) (normalizeString content)) := by
    split
    · rfl
    · next hall =>
      obtain rfl : others = [] := by
        by_contra hne
        exact hone ⟨hne, by simpa using hall⟩
      exact replacen_eq_replace (by rw [hmatch]; rfl)
  have hnew := newContent_eq content (normalizeString n) (normalizeString o)
  cases h
  refine ⟨g, w, rest, ho, hsplit, hw, hleft, ?_, fun hall => ?_, ?_, hstart, rfl, rfl⟩
  · have := List.length_pos_of_ne_nil
      (gaps_ne_nil unitChar (normalizeString o) (units content))
    dsimp only
    omega
  · obtain rfl : others = [] := by
      by_contra hne
      exact hone ⟨hne, by simp [hall]⟩
    rfl
  · dsimp only
    rw [hreplace, replace_newline]
    exact hnew

/-- **A successful match** is framed exactly if the line ends are kept and, where one occurrence is
replaced, the string occurs once. -/
theorem Matched.framed_iff {w rest : List (List Char)}
    (h : Matched content o n replaceAll r g w rest) :
    Framed content o n replaceAll r ↔
      KeepsLineEnds content o ∧ (replaceAll = false → OccursOnce content o) := by
  have hreplaced := replaced_iff_keepsLineEnds h.old h.newContent h.count
  refine ⟨fun hframed => ⟨hreplaced.1 hframed.replaced, fun hall => (hframed.only hall).2⟩, ?_⟩
  rintro ⟨hkeeps, honce⟩
  refine ⟨hreplaced.2 hkeeps, ?_, fun hall => ⟨h.one hall, honce hall⟩,
    g, w, rest, h.split, h.occurrence, h.leftmost, h.startLine, ?_, ?_⟩
  · have hlength := h.count
    rw [h.split, gaps_of_leftmost h.old h.occurrence h.leftmost, List.length_cons] at hlength
    have := List.length_pos_of_ne_nil
      (gaps_ne_nil unitChar (normalizeString o) rest)
    omega
  · rw [h.oldEndLine, h.startLine, List.flatten_append, countNewlines_append,
      countNewlines_flatten (AreUnits.of_units h.split).2, h.occurrence]
    omega
  · have hinserted : countNewlines (inserted content n) = countNewlines (normalizeString n) := by
      rw [inserted]
      split
      · exact countNewlines_toCrlf _
      · rfl
    rw [h.newEndLine, h.startLine, countNewlines_append, hinserted]
    omega

/-! ## The candidates -/

/-- The result of the loop is a match of the first candidate that occurs. -/
theorem tryCandidates_ok {usesCrlf : Bool} {lastError : List Char} {candidates : List Candidate}
    (h : tryCandidates (normalizeString content) usesCrlf replaceAll lastError candidates =
      .ok (.inl r)) :
    ∃ before o n after, candidates = before ++ (o, n) :: after ∧
      (∀ p ∈ before, ¬Occurs unitChar (normalizeString p.1) (units content)) ∧
      applyMatchAndReplace (normalizeString content) usesCrlf o n replaceAll = .ok r := by
  induction candidates generalizing lastError with
  | nil => cases h
  | cons candidate candidates ih =>
    obtain ⟨o, n⟩ := candidate
    rw [tryCandidates] at h
    split at h
    · next result hmatch =>
      cases h
      exact ⟨[], o, n, candidates, rfl, by simp, hmatch⟩
    · next error hmatch =>
      split at h
      · next hkind =>
        obtain ⟨before, o', n', after, rfl, hbefore, happly⟩ := ih h
        refine ⟨(o, n) :: before, o', n', after, rfl, List.forall_mem_cons.2 ⟨?_, hbefore⟩, happly⟩
        -- a candidate is passed over only if it is not found
        simp only [applyMatchAndReplace] at hmatch
        split at hmatch
        · cases hmatch
          cases hkind
        next hold =>
        split at hmatch
        · next hnone => exact not_occurs_of_matchIndices (by simpa using hold) hnone
        split at hmatch
        · cases hmatch
          cases hkind
        · cases hmatch
      · cases h

/-- **What an edit leaves alone.** Every successful edit is a match of the first candidate that
occurs in the content. It replaces the occurrences and keeps the rest, with the count and the lines
of its result, exactly if no bare line feed stands outside the occurrences of a file with carriage
returns before line feeds, and, without `replace_all`, no second occurrence overlaps the first. -/
theorem applyEditToContent_framed {content oldString newString : List Char} {replaceAll : Bool}
    {r : ApplyEditResult} (h : applyEditToContent content oldString newString replaceAll = .ok r) :
    ∃ before o n after,
      editStringCandidates content oldString newString = before ++ (o, n) :: after ∧
      (∀ p ∈ before, ¬Occurs unitChar (normalizeString p.1) (units content)) ∧
      Occurs unitChar (normalizeString o) (units content) ∧
      (Framed content o n replaceAll r ↔
        KeepsLineEnds content o ∧ (replaceAll = false → OccursOnce content o)) := by
  simp only [applyEditToContent] at h
  split at h
  · cases h
  split at h
  · cases h
  · next result hloop =>
    cases h
    obtain ⟨before, o, n, after, heq, hbefore, happly⟩ := tryCandidates_ok hloop
    obtain ⟨g, w, rest, hmatched⟩ := applyMatchAndReplace_matched happly
    exact ⟨before, o, n, after, heq, hbefore, ⟨g, w, rest, hmatched.split, hmatched.occurrence⟩,
      hmatched.framed_iff⟩
  · cases h

/-- An edit of a file with carriage returns. -/
theorem applyEditToContent_framed_crlf :
    ∃ r, applyEditToContent "alpha\r\nbeta\r\n".toList "beta".toList "gamma".toList true = .ok r ∧
      Framed "alpha\r\nbeta\r\n".toList "beta".toList "gamma".toList true r := by
  have hok : applyEditToContent "alpha\r\nbeta\r\n".toList "beta".toList "gamma".toList true =
      .ok ⟨"alpha\r\ngamma\r\n".toList, 1, 2, 2, 2⟩ := by decide +kernel
  obtain ⟨before, o, n, after, heq, -, -, hframed⟩ := applyEditToContent_framed hok
  have hcandidates : editStringCandidates "alpha\r\nbeta\r\n".toList "beta".toList "gamma".toList =
      [("beta".toList, "gamma".toList)] := by decide +kernel
  rw [hcandidates] at heq
  obtain ⟨rfl, hpair, rfl⟩ : before = [] ∧ ("beta".toList, "gamma".toList) = (o, n) ∧ after = [] := by
    cases before with
    | nil => simpa using heq
    | cons p before => simp at heq
  cases hpair
  refine ⟨_, hok, hframed.2 ⟨fun _ => ?_, nofun⟩⟩
  decide +kernel

/-- **The line end of an untouched line changes.** -/
theorem applyEditToContent_mixed :
    ∃ r, applyEditToContent "b\r\na\n".toList "b".toList "X".toList false = .ok r ∧
      r.newContent = "X\r\na\r\n".toList ∧
      ¬∃ p ∈ editStringCandidates "b\r\na\n".toList "b".toList "X".toList,
        Framed "b\r\na\n".toList p.1 p.2 false r := by
  have hok : applyEditToContent "b\r\na\n".toList "b".toList "X".toList false =
      .ok ⟨"X\r\na\r\n".toList, 1, 1, 1, 1⟩ := by decide +kernel
  have hcandidates : editStringCandidates "b\r\na\n".toList "b".toList "X".toList =
      [("b".toList, "X".toList)] := by decide +kernel
  have happly : applyMatchAndReplace (normalizeString "b\r\na\n".toList)
      (Text.contains "b\r\na\n".toList crlf) "b".toList "X".toList false =
      .ok ⟨"X\r\na\r\n".toList, 1, 1, 1, 1⟩ := by decide +kernel
  refine ⟨_, hok, rfl, ?_⟩
  rw [hcandidates]
  rintro ⟨p, hp, hframed⟩
  obtain rfl : p = ("b".toList, "X".toList) := by simpa using hp
  obtain ⟨g, w, rest, hmatched⟩ := applyMatchAndReplace_matched happly
  have hkeeps := (hmatched.framed_iff.1 hframed).1 (by decide +kernel)
  revert hkeeps
  decide +kernel

end EditFile

end OpenBitFun
