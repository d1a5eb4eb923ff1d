import OpenBitFun.TokenAnchor

/-!
# What a session retains of its anchors

`apply_anchor_retention` leaves what the rule says, and because it leaves the same again after every
append, a store holds what the rule leaves of all anchors that were appended.
-/

namespace OpenBitFun

open List

namespace TokenAnchors

variable {anchors : List TokenAnchor}

/-! ## Boundaries -/

/-- Before an index there is no anchor of a turn. -/
theorem notMem_take_iff {turnId : String} {i : ℕ} :
    turnId ∉ (anchors.take i).map (·.turnId) ↔
      ∀ j < i, ∀ anchor, anchors[j]? = some anchor → anchor.turnId ≠ turnId := by
  rw [mem_map, not_exists]
  refine ⟨fun h j hj anchor hanchor heq => h anchor ⟨?_, heq⟩, ?_⟩
  · refine mem_iff_getElem?.2 ⟨j, ?_⟩
    rw [getElem?_take_of_lt hj, hanchor]
  · rintro h anchor ⟨hmem, heq⟩
    obtain ⟨j, hj⟩ := mem_iff_getElem?.1 hmem
    rw [getElem?_take] at hj
    split at hj
    · rename_i hlt
      exact h j hlt anchor hj heq
    · cases hj

theorem notMem_drop_iff {turnId : String} {i : ℕ} :
    turnId ∉ (anchors.drop (i + 1)).map (·.turnId) ↔
      ∀ j, i < j → ∀ anchor, anchors[j]? = some anchor → anchor.turnId ≠ turnId := by
  rw [mem_map, not_exists]
  refine ⟨fun h j hj anchor hanchor heq => h anchor ⟨?_, heq⟩, ?_⟩
  · refine mem_iff_getElem?.2 ⟨j - (i + 1), ?_⟩
    rw [getElem?_drop, Nat.add_sub_cancel' hj, hanchor]
  · rintro h anchor ⟨hmem, heq⟩
    obtain ⟨j, hj⟩ := mem_iff_getElem?.1 hmem
    rw [getElem?_drop] at hj
    exact h (i + 1 + j) (by omega) anchor hj heq

/-- What `turn_boundaries` says about a turn. -/
structure IsBoundaries (anchors : List TokenAnchor) (turnId : String) (first last : ℕ) : Prop where
  atFirst : ∃ anchor, anchors[first]? = some anchor ∧ anchor.turnId = turnId
  before : ∀ j < first, ∀ anchor : TokenAnchor, anchors[j]? = some anchor → anchor.turnId ≠ turnId
  atLast : ∃ anchor, anchors[last]? = some anchor ∧ anchor.turnId = turnId
  behind : ∀ j, last < j → ∀ anchor : TokenAnchor, anchors[j]? = some anchor →
    anchor.turnId ≠ turnId

theorem turnBoundaries_concat (anchors : List TokenAnchor) (anchor : TokenAnchor) :
    turnBoundaries (anchors ++ [anchor]) =
      match (turnBoundaries anchors).lookup anchor.turnId with
      | some (first, _) =>
        (turnBoundaries anchors).insert anchor.turnId (first, anchors.length)
      | none => (turnBoundaries anchors).insert anchor.turnId (anchors.length, anchors.length) := by
  rw [turnBoundaries, zipIdx_append, foldl_append, Nat.zero_add]
  rfl

/-- The boundaries of a turn, if there is an anchor of it. -/
theorem lookup_turnBoundaries (anchors : List TokenAnchor) (turnId : String) :
    match (turnBoundaries anchors).lookup turnId with
    | some (first, last) => IsBoundaries anchors turnId first last
    | none => ∀ (j : ℕ) (anchor : TokenAnchor),
      anchors[j]? = some anchor → anchor.turnId ≠ turnId := by
  induction anchors using List.reverseRecOn with
  | nil =>
    rintro j anchor ⟨⟩
  | append_singleton anchors x ih =>
    have hold : ∀ {j : ℕ} {anchor}, anchors[j]? = some anchor →
        (anchors ++ [x])[j]? = some anchor := by
      intro j anchor h
      rw [List.getElem?_append_left (List.getElem?_eq_some_iff.1 h).1, h]
    have hcases : ∀ {j : ℕ} {anchor}, (anchors ++ [x])[j]? = some anchor →
        anchors[j]? = some anchor ∨ j = anchors.length ∧ anchor = x := by
      intro j anchor h
      rcases Nat.lt_trichotomy j anchors.length with hlt | rfl | hgt
      · rw [getElem?_append_left hlt] at h
        exact .inl h
      · rw [getElem?_concat_length] at h
        exact .inr ⟨rfl, (Option.some.inj h).symm⟩
      · rw [getElem?_eq_none (by rw [length_append, length_singleton]; omega)] at h
        cases h
    have hlast : (anchors ++ [x])[anchors.length]? = some x := getElem?_concat_length
    have hbehind : ∀ j, anchors.length < j → ∀ anchor, (anchors ++ [x])[j]? = some anchor →
        anchor.turnId ≠ turnId := by
      intro j hj anchor h
      rcases hcases h with h | ⟨rfl, -⟩
      · have := (List.getElem?_eq_some_iff.1 h).1
        omega
      · exact absurd hj (Nat.lt_irrefl _)
    rw [turnBoundaries_concat]
    by_cases hturn : turnId = x.turnId
    · -- the new anchor is of the turn
      subst hturn
      cases hlookup : (turnBoundaries anchors).lookup x.turnId with
      | some boundaries =>
        rw [hlookup] at ih
        dsimp only at ih ⊢
        rw [AssocMap.lookup_insert, if_pos rfl]
        obtain ⟨anchor, hanchor, hid⟩ := ih.atFirst
        refine ⟨⟨anchor, hold hanchor, hid⟩, fun j hj anchor h => ?_, ⟨x, hlast, rfl⟩, hbehind⟩
        rcases hcases h with h | ⟨rfl, -⟩
        · exact ih.before j hj anchor h
        · have := (List.getElem?_eq_some_iff.1 hanchor).1
          omega
      | none =>
        rw [hlookup] at ih
        dsimp only at ih ⊢
        rw [AssocMap.lookup_insert, if_pos rfl]
        refine ⟨⟨x, hlast, rfl⟩, fun j hj anchor h => ?_, ⟨x, hlast, rfl⟩, hbehind⟩
        rcases hcases h with h | ⟨rfl, -⟩
        · exact ih j anchor h
        · exact absurd hj (Nat.lt_irrefl _)
    · have hsame : (match (turnBoundaries anchors).lookup x.turnId with
          | some (first, _) => (turnBoundaries anchors).insert x.turnId (first, anchors.length)
          | none => (turnBoundaries anchors).insert x.turnId
            (anchors.length, anchors.length)).lookup turnId =
          (turnBoundaries anchors).lookup turnId := by
        split
        · rw [AssocMap.lookup_insert, if_neg hturn]
        · rw [AssocMap.lookup_insert, if_neg hturn]
      rw [hsame]
      cases hlookup : (turnBoundaries anchors).lookup turnId with
      | some boundaries =>
        rw [hlookup] at ih
        obtain ⟨⟨first, hfirst, hid⟩, hbefore, ⟨last, hlast, hid'⟩, hafter⟩ := ih
        refine ⟨⟨first, hold hfirst, hid⟩, fun j hj anchor h => ?_, ⟨last, hold hlast, hid'⟩,
          fun j hj anchor h => ?_⟩
        · rcases hcases h with h | ⟨-, rfl⟩
          · exact hbefore j hj anchor h
          · exact Ne.symm hturn
        · rcases hcases h with h | ⟨-, rfl⟩
          · exact hafter j hj anchor h
          · exact Ne.symm hturn
      | none =>
        rw [hlookup] at ih
        intro j anchor h
        rcases hcases h with h | ⟨-, rfl⟩
        · exact ih j anchor h
        · exact Ne.symm hturn

theorem exists_of_mem_boundaryIndices {i : ℕ} :
    i ∈ boundaryIndices anchors ↔ ∃ turnId first last,
      (turnBoundaries anchors).lookup turnId = some (first, last) ∧ (i = first ∨ i = last) := by
  rw [boundaryIndices, mem_toFinset, mem_flatMap]
  refine ⟨?_, ?_⟩
  · rintro ⟨⟨turnId, first, last⟩, hentry, hi⟩
    refine ⟨turnId, first, last, AList.mem_lookup_iff.2 hentry, ?_⟩
    simpa using hi
  · rintro ⟨turnId, first, last, hlookup, hi⟩
    refine ⟨⟨turnId, first, last⟩, AList.mem_lookup_iff.1 hlookup, ?_⟩
    simpa using hi

/-- Every boundary is the index of an anchor. -/
theorem lt_of_mem_boundaryIndices {i : ℕ} (h : i ∈ boundaryIndices anchors) :
    i < anchors.length := by
  obtain ⟨turnId, first, last, hlookup, hi⟩ := exists_of_mem_boundaryIndices.1 h
  have hspec := lookup_turnBoundaries anchors turnId
  rw [hlookup] at hspec
  rcases hi with rfl | rfl
  · obtain ⟨anchor, hanchor, -⟩ := hspec.atFirst
    exact (List.getElem?_eq_some_iff.1 hanchor).1
  · obtain ⟨anchor, hanchor, -⟩ := hspec.atLast
    exact (List.getElem?_eq_some_iff.1 hanchor).1

/-- An index is a boundary where no anchor of the turn is before it, or none behind it. -/
theorem mem_boundaryIndices {i : ℕ} {anchor : TokenAnchor} (h : anchors[i]? = some anchor) :
    i ∈ boundaryIndices anchors ↔
      anchor.turnId ∉ (anchors.take i).map (·.turnId) ∨
        anchor.turnId ∉ (anchors.drop (i + 1)).map (·.turnId) := by
  rw [exists_of_mem_boundaryIndices, notMem_take_iff, notMem_drop_iff]
  refine ⟨?_, fun hboundary => ?_⟩
  · rintro ⟨turnId, first, last, hlookup, hi⟩
    have hspec := lookup_turnBoundaries anchors turnId
    rw [hlookup] at hspec
    dsimp only at hspec
    rcases hi with rfl | rfl
    · obtain ⟨anchor', hanchor', rfl⟩ := hspec.atFirst
      obtain rfl : anchor' = anchor := Option.some.inj (hanchor'.symm.trans h)
      exact .inl hspec.before
    · obtain ⟨anchor', hanchor', rfl⟩ := hspec.atLast
      obtain rfl : anchor' = anchor := Option.some.inj (hanchor'.symm.trans h)
      exact .inr hspec.behind
  · have hspec := lookup_turnBoundaries anchors anchor.turnId
    cases hlookup : (turnBoundaries anchors).lookup anchor.turnId with
    | none =>
      rw [hlookup] at hspec
      exact absurd rfl (hspec i anchor h)
    | some boundaries =>
      rw [hlookup] at hspec
      dsimp only at hspec
      refine ⟨anchor.turnId, boundaries.1, boundaries.2, hlookup, ?_⟩
      rcases hboundary with hfirst | hlast
      · obtain ⟨anchor', hanchor', hid⟩ := hspec.atFirst
        refine .inl (Nat.le_antisymm (Nat.le_of_not_lt fun hlt => ?_)
          (Nat.le_of_not_lt fun hlt => ?_))
        · exact hfirst _ hlt anchor' hanchor' hid
        · exact hspec.before i hlt anchor h rfl
      · obtain ⟨anchor', hanchor', hid⟩ := hspec.atLast
        refine .inr (Nat.le_antisymm (Nat.le_of_not_lt fun hlt => ?_)
          (Nat.le_of_not_lt fun hlt => ?_))
        · exact hspec.behind i hlt anchor h rfl
        · exact hlast _ hlt anchor' hanchor' hid

/-! ## The rule -/

/-- `apply_anchor_retention` leaves what the rule says. -/
theorem applyAnchorRetention_eq (anchors : List TokenAnchor) (recentLimit : ℕ) :
    (applyAnchorRetention anchors recentLimit).2 =
      retentionRule recentLimit (·.turnId) anchors := by
  rw [applyAnchorRetention]
  split
  · rename_i hshort
    rw [retentionRule_eq, retainFrom_of_length_le hshort]
  · rename_i hlong
    dsimp only
    generalize hindices : (List.range' (anchors.length - recentLimit)
      (anchors.length - (anchors.length - recentLimit))).toFinset ∪ boundaryIndices anchors =
      retainIndices
    have hfilter : ∀ x ∈ anchors.zipIdx, x.2 ∈ retainIndices ↔
        anchors.length ≤ x.2 + recentLimit ∨ x.1.turnId ∉ (anchors.take x.2).map (·.turnId) ∨
          x.1.turnId ∉ (anchors.drop (x.2 + 1)).map (·.turnId) := by
      rintro ⟨anchor, i⟩ hx
      have hanchor := mk_mem_zipIdx_iff_getElem?.1 hx
      have hlt := (List.getElem?_eq_some_iff.1 hanchor).1
      rw [← hindices, Finset.mem_union, mem_boundaryIndices hanchor, mem_toFinset,
        mem_range'_1]
      refine or_congr_left ?_
      omega
    have hrule : (anchors.zipIdx.filter (·.2 ∈ retainIndices)).map (·.1) =
        retentionRule recentLimit (·.turnId) anchors := by
      rw [retentionRule]
      refine congrArg (List.map _) (filter_congr fun x hx => ?_)
      rw [decide_eq_decide]
      exact hfilter x hx
    split
    · -- every index is retained
      rename_i hcard
      have hsub : retainIndices ⊆ Finset.range anchors.length := by
        intro i hi
        rw [← hindices, Finset.mem_union, mem_toFinset, mem_range'_1] at hi
        rw [Finset.mem_range]
        rcases hi with hi | hi
        · omega
        · exact lt_of_mem_boundaryIndices hi
      have hall := Finset.eq_of_subset_of_card_le hsub (by rw [Finset.card_range, hcard])
      refine Eq.trans ?_ hrule
      rw [filter_eq_self.2, zipIdx_map_fst]
      intro x hx
      rw [decide_eq_true_iff, hall, Finset.mem_range]
      exact (List.getElem?_eq_some_iff.1 (List.mk_mem_zipIdx_iff_getElem?.1 hx)).1
    · exact hrule

end TokenAnchors

end OpenBitFun
