import OpenBitFun.DocxReplaceRuns

/-!
# The matches of a replacement

With the case as it is a match is an occurrence of the pattern. Folded, a match is an occurrence of
the lowered pattern in the folded text that is made of whole characters. The text is folded
character by character and the pattern as a string, and occurrences that are not whole are taken
before they are dropped: so a pattern that stands in the text may be missed, and what is matched
may be lowered otherwise than the pattern. `FoldsWhole` says when neither happens.
-/

namespace OpenBitFun

open List

namespace DocxReplace

open Text (byteLength slice? Boundary matchIndices)

variable {t : CaseTables} {text find s x y z w : List Char}

/-! ## Folding -/

namespace CaseTables

theorem fold_append (x y : List Char) : t.fold (x ++ y) = t.fold x ++ t.fold y := by
  simp [fold]

theorem fold_ne_nil (h : s ≠ []) : t.fold s ≠ [] := by
  obtain ⟨c, s, rfl⟩ := exists_cons_of_ne_nil h
  simp [fold, t.lower_ne_nil c]

theorem toLowercase_ne_nil (h : s ≠ []) : t.toLowercase s ≠ [] := by
  obtain ⟨c, s, rfl⟩ := exists_cons_of_ne_nil h
  rw [toLowercase, toLowercaseAfter]
  split
  · simp
  · simp [t.lower_ne_nil c]

/-- Of two starts of a text the one that folds shorter is shorter. -/
theorem exists_append_of_fold_le (h : x ++ z = y ++ w)
    (hle : byteLength (t.fold x) ≤ byteLength (t.fold y)) : ∃ m, y = x ++ m ∧ z = m ++ w := by
  rcases append_eq_append_iff.1 h with ⟨m, hy, hz⟩ | ⟨m, hx, hw⟩
  · exact ⟨m, hy, hz⟩
  · have hm : m = [] := by
      by_contra hne
      have hpos := Text.byteLength_pos (t.fold_ne_nil hne)
      rw [hx, fold_append, Text.byteLength_append] at hle
      omega
    subst hm
    exact ⟨[], by simpa using hx.symm, by simpa using hw.symm⟩

/-- The boundaries that are found are those where a start of the text is folded. -/
theorem searchBoundary_eq_some {n b : ℕ} (s : List Char) : ∀ folded offset : ℕ,
    searchBoundary (t.boundaries folded offset s) n = some b ↔
      ∃ x z, s = x ++ z ∧ folded + byteLength (t.fold x) = n ∧ offset + byteLength x = b := by
  induction s with
  | nil =>
    intro folded offset
    have hiff : searchBoundary (t.boundaries folded offset []) n = some b ↔
        folded = n ∧ offset = b := by
      by_cases hn : folded = n
      · simp [searchBoundary, boundaries, hn]
      · simp [searchBoundary, boundaries, hn]
    rw [hiff]
    refine ⟨fun h => ⟨[], [], rfl, by simpa [fold] using h.1, by simpa using h.2⟩, ?_⟩
    rintro ⟨x, z, heq, hn, hb⟩
    obtain ⟨rfl, rfl⟩ := append_eq_nil_iff.1 heq.symm
    exact ⟨by simpa [fold] using hn, by simpa using hb⟩
  | cons c s ih =>
    intro folded offset
    have hpos := Text.byteLength_pos (t.lower_ne_nil c)
    have hcons : ∀ x, byteLength (t.fold (c :: x)) =
        byteLength (t.lower c) + byteLength (t.fold x) := by
      intro x
      simp [fold]
    by_cases hn : folded = n
    · have hfind : searchBoundary (t.boundaries folded offset (c :: s)) n = some offset := by
        simp [searchBoundary, boundaries, hn]
      rw [hfind, Option.some.injEq]
      refine ⟨fun h => ⟨[], c :: s, rfl, by simpa [fold] using hn, by simpa using h⟩, ?_⟩
      rintro ⟨x, z, heq, hx, hb⟩
      cases x with
      | nil => simpa using hb
      | cons c' x =>
        cases heq
        have := hcons x
        omega
    · have hfind : searchBoundary (t.boundaries folded offset (c :: s)) n =
          searchBoundary (t.boundaries (folded + byteLength (t.lower c)) (offset + c.utf8Size) s)
            n := by
        simp [searchBoundary, boundaries, hn]
      rw [hfind, ih]
      refine ⟨?_, ?_⟩
      · rintro ⟨x, z, rfl, hx, hb⟩
        refine ⟨c :: x, z, rfl, ?_, ?_⟩
        · rw [hcons]
          omega
        · rw [Text.byteLength_cons]
          omega
      · rintro ⟨x, z, heq, hx, hb⟩
        cases x with
        | nil => exact absurd (by simpa [fold] using hx) hn
        | cons c' x =>
          cases heq
          rw [hcons] at hx
          rw [Text.byteLength_cons] at hb
          exact ⟨x, z, rfl, by omega, by omega⟩

end CaseTables

/-! ## Whole matches -/

/-- A part of a text, of whole characters, that is taken as a match: it folds to the lowered
pattern, where `match_indices` finds it. -/
structure Whole (t : CaseTables) (text find x s z : List Char) : Prop where
  append : text = x ++ (s ++ z)
  found : byteLength (t.fold x) ∈ matchIndices (t.fold text) (t.toLowercase find)
  fold : t.fold s = t.toLowercase find

variable {m : ℕ × ℕ}

/-- The ranges with folded case are the whole matches. -/
theorem mem_matchingRanges_folded (hfind : find ≠ []) :
    m ∈ matchingRanges t text find false ↔
      ∃ x s z, Whole t text find x s z ∧ byteLength x = m.1 ∧ byteLength x + byteLength s = m.2 := by
  rw [matchingRanges, if_neg hfind]
  simp only [Bool.false_eq_true, if_false, mem_filterMap, Option.bind_eq_some_iff,
    Option.map_eq_some_iff, CaseTables.searchBoundary_eq_some, Nat.zero_add]
  have hneedle : t.toLowercase find ≠ [] := t.toLowercase_ne_nil hfind
  refine ⟨?_, ?_⟩
  · rintro ⟨start, hstart, first, ⟨x, z, rfl, hx, rfl⟩, last, ⟨y, w, heq, hy, rfl⟩, rfl⟩
    obtain ⟨u, v, hfold, hu⟩ := (Text.matchesAt_matchIndices hneedle _).exists_append hstart
    obtain ⟨s, rfl, rfl⟩ := t.exists_append_of_fold_le heq (by omega)
    rw [CaseTables.fold_append] at hfold
    obtain ⟨-, hrest⟩ := Text.append_inj_of_byteLength hfold (by omega)
    rw [CaseTables.fold_append] at hrest hy
    rw [Text.byteLength_append] at hy
    obtain ⟨hs, -⟩ := Text.append_inj_of_byteLength hrest (by omega)
    exact ⟨x, s, w, ⟨rfl, hx ▸ hstart, hs⟩, rfl, by simp⟩
  · rintro ⟨x, s, z, ⟨rfl, hfound, hfold⟩, hx, hs⟩
    refine ⟨_, hfound, _, ⟨x, s ++ z, rfl, rfl, rfl⟩, _, ⟨x ++ s, z, by simp, ?_, rfl⟩, ?_⟩
    · rw [CaseTables.fold_append, Text.byteLength_append, hfold]
    · refine Prod.ext hx ?_
      rw [Text.byteLength_append]
      exact hs

theorem Whole.slice? (h : Whole t text find x s z) :
    slice? text (byteLength x) (byteLength x + byteLength s) = some s := by
  rw [h.append, Text.slice?_append]

/-- The ranges with the case as it is are the occurrences. -/
theorem mem_matchingRanges_exact (hfind : find ≠ []) (hm : m ∈ matchingRanges t text find true) :
    ∃ x z, text = x ++ (find ++ z) ∧ byteLength x = m.1 ∧ byteLength x + byteLength find = m.2 := by
  rw [matchingRanges, if_neg hfind, if_pos rfl] at hm
  obtain ⟨start, hstart, rfl⟩ := mem_map.1 hm
  obtain ⟨x, z, htext, hx⟩ := (Text.matchesAt_matchIndices hfind text).exists_append hstart
  rw [Nat.zero_add] at hx
  exact ⟨x, z, htext, hx, by rw [hx]⟩

/-- **The ranges** are apart from each other. -/
theorem apart_matchingRanges (t : CaseTables) (text : List Char) (hfind : find ≠ [])
    (matchCase : Bool) : Apart text (matchingRanges t text find matchCase) := by
  cases matchCase with
  | true =>
    refine ⟨?_, fun m hm => ?_, fun m hm => ?_, fun m hm => ?_⟩
    · rw [matchingRanges, if_neg hfind, if_pos rfl, pairwise_map]
      exact (Text.matchesAt_matchIndices hfind text).pairwise
    · obtain ⟨x, z, -, hx, hs⟩ := mem_matchingRanges_exact hfind hm
      have := Text.byteLength_pos hfind
      omega
    · obtain ⟨x, z, htext, hx, hs⟩ := mem_matchingRanges_exact hfind hm
      exact ⟨x, _, htext, hx⟩
    · obtain ⟨x, z, htext, hx, hs⟩ := mem_matchingRanges_exact hfind hm
      exact ⟨x ++ find, z, by simp [htext], by simpa using hs⟩
  | false =>
    have hneedle : t.toLowercase find ≠ [] := t.toLowercase_ne_nil hfind
    refine ⟨?_, fun m hm => ?_, fun m hm => ?_, fun m hm => ?_⟩
    · rw [matchingRanges, if_neg hfind]
      simp only [Bool.false_eq_true, if_false]
      refine pairwise_filterMap.2
        ((Text.matchesAt_matchIndices hneedle _).pairwise.imp fun {p q} hpq m hm m' hm' => ?_)
      simp only [Option.bind_eq_some_iff, Option.map_eq_some_iff,
        CaseTables.searchBoundary_eq_some, Nat.zero_add] at hm hm'
      obtain ⟨-, -, -, ⟨x, z, hx, hlen, rfl⟩, rfl⟩ := hm
      obtain ⟨-, ⟨y, w, hy, hlen', rfl⟩, -, -, rfl⟩ := hm'
      -- the end of the first comes before the start of the second, folded and so in the text
      obtain ⟨m, hm, -⟩ := t.exists_append_of_fold_le (hx.symm.trans hy) (by omega)
      simp [hm]
    · obtain ⟨x, s, z, hwhole, hx, hs⟩ := (mem_matchingRanges_folded hfind).1 hm
      have hne : s ≠ [] := by
        rintro rfl
        exact hneedle hwhole.fold.symm
      have := Text.byteLength_pos hne
      omega
    · obtain ⟨x, s, z, hwhole, hx, hs⟩ := (mem_matchingRanges_folded hfind).1 hm
      exact ⟨x, _, hwhole.append, hx⟩
    · obtain ⟨x, s, z, hwhole, hx, hs⟩ := (mem_matchingRanges_folded hfind).1 hm
      exact ⟨x ++ s, z, by simp [hwhole.append], by simpa using hs⟩

/-! ## Replacing well -/

/-- What replacing in runs promises. -/
structure ReplacesWell {φ : Type} (t : CaseTables) (runs : List (Run φ)) (find replace : List Char)
    (matchCase : Bool) : Prop where
  /-- the text is that of `replace_all`; what stays is in its run, and the replacement in the run
  where its match starts -/
  replaced : ∃ runs', replaceRuns t runs find replace matchCase =
      some (runs', (matchingRanges t (runsText runs) find matchCase).length) ∧
    replaceAll t (runsText runs) find replace matchCase =
      some (runsText runs', (matchingRanges t (runsText runs) find matchCase).length) ∧
    runs' = spread replace (matchingRanges t (runsText runs) find matchCase) 0 runs
  apart : Apart (runsText runs) (matchingRanges t (runsText runs) find matchCase)
  matched : ∀ m ∈ matchingRanges t (runsText runs) find matchCase,
    ∃ s, slice? (runsText runs) m.1 m.2 = some s ∧
      if matchCase then s = find else t.toLowercase s = t.toLowercase find
  occurs : matchCase = false → find <:+: runsText runs →
    matchingRanges t (runsText runs) find matchCase ≠ []

/-- Folding the case is harmless: a pattern that stands in the text has a whole match, and whole
matches are lowered as strings the way their characters are. -/
def FoldsWhole (t : CaseTables) (text find : List Char) : Prop :=
  (find <:+: text → ∃ x s z, Whole t text find x s z) ∧
    ∀ x s z, Whole t text find x s z → t.toLowercase s = t.fold s

theorem CaseTables.toLowercase_eq_fold (h : 'Σ' ∉ s) : t.toLowercase s = t.fold s := by
  have hafter : ∀ before, t.toLowercaseAfter before s = t.fold s := by
    induction s with
    | nil => exact fun _ => rfl
    | cons c s ih =>
      intro before
      rw [mem_cons, not_or] at h
      rw [toLowercaseAfter, if_neg (Ne.symm h.1), ih h.2]
      rfl
  exact hafter []

/-- Where every character folds to one character, the starts of the folded text are the folded
starts of the text. -/
theorem CaseTables.fold_take (h : ∀ c ∈ s, (t.lower c).length = 1) : ∀ n : ℕ,
    t.fold (s.take n) = (t.fold s).take n ∧ t.fold (s.drop n) = (t.fold s).drop n := by
  induction s with
  | nil => simp [fold]
  | cons c s ih =>
    obtain ⟨c', hc⟩ := length_eq_one_iff.1 (h c (by simp))
    have ih := ih fun c hc => h c (by simp [hc])
    intro n
    cases n with
    | zero => simp [fold]
    | succ n =>
      have hcons : t.fold (c :: s) = c' :: t.fold s := by simp [fold, hc]
      refine ⟨?_, ?_⟩
      · have htake : t.fold (c :: s.take n) = c' :: t.fold (s.take n) := by simp [fold, hc]
        rw [take_succ_cons, htake, (ih n).1, hcons, take_succ_cons]
      · rw [drop_succ_cons, (ih n).2, hcons, drop_succ_cons]

/-- The tables for two letters. -/
def greekTables : CaseTables where
  lower c := if c = 'Α' then ['α'] else if c = 'Σ' then ['σ'] else [c]
  lower_ne_nil := by
    intro c
    split_ifs <;> simp
  isCased c := c = 'Α' || c = 'Σ' || c = 'α' || c = 'σ' || c = 'ς'
  isCaseIgnorable _ := false

end DocxReplace

end OpenBitFun
