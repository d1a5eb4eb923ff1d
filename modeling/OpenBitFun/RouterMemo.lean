import Mathlib
import OpenBitFun.AssocMap
import OpenBitFun.RouterTokenBudget

/-!
# The Router's memo table

`RouterMemo` remembers values under a text and a budget, in one map per budget, and forgets the
oldest ones when what they cost passes its limits. It counts bytes and entries along with what it
stores; a sum or a difference of them that leaves `usize` is `none` here. A table whose byte limit is
not the largest `usize` never meets one, and its counts are right (`insert_valid`).
-/

namespace OpenBitFun

open List

namespace Router

/-! ## Arithmetic on `usize` -/

/-- A sum on `usize`. -/
def addUsize (a b : ℕ) : Option ℕ := if a + b ≤ usizeMax then some (a + b) else none

/-- A difference on `usize`. -/
def subUsize (a b : ℕ) : Option ℕ := if b ≤ a then some (a - b) else none

/-! ## The table -/

/-- `RouterMemo`. The order is the oldest key first, with the budget and the cost it was stored at. -/
structure RouterMemo (T : Type) where
  values : AssocMap ℕ (AssocMap String T)
  order : List (String × ℕ × ℕ)
  bytes : ℕ
  entries : ℕ
  maxBytes : ℕ
  maxEntries : ℕ

variable {T : Type}

/-- The value stored for a text and a budget. -/
def storedValue (values : AssocMap ℕ (AssocMap String T)) (text : String) (budget : ℕ) :
    Option T :=
  (values.lookup budget).bind fun stored => stored.lookup text

/-- Removes a value, and the map of its budget with the last one. -/
def removeValue (values : AssocMap ℕ (AssocMap String T)) (text : String) (budget : ℕ) :
    AssocMap ℕ (AssocMap String T) :=
  match values.lookup budget with
  | none => values
  | some stored =>
    if AssocMap.size (stored.erase text) = 0 then values.erase budget
    else values.insert budget (stored.erase text)

/-- Stores a value. -/
def storeValue (values : AssocMap ℕ (AssocMap String T)) (text : String) (budget : ℕ)
    (value : T) : AssocMap ℕ (AssocMap String T) :=
  values.insert budget (((values.lookup budget).getD ∅).insert text value)

/-- The keys of all stored values. -/
def storedKeys (values : AssocMap ℕ (AssocMap String T)) : List (String × ℕ) :=
  values.entries.flatMap fun stored => stored.2.keys.map fun text => (text, stored.1)

namespace RouterMemo

/-- `new`. -/
def new (T : Type) (maxBytes maxEntries : ℕ) : RouterMemo T where
  values := ∅
  order := []
  bytes := 0
  entries := 0
  maxBytes := maxBytes
  maxEntries := maxEntries

/-- `get`. -/
def get (memo : RouterMemo T) (text : String) (budget : ℕ) : Option T :=
  storedValue memo.values text budget

/-- Whether there is no room for something of a cost. -/
def full (memo : RouterMemo T) (cost : ℕ) : Bool :=
  memo.maxBytes < Saturating.add usizeMax memo.bytes cost || memo.maxEntries ≤ memo.entries

/-- The loop of `insert` that evicts the oldest values while there is no room, over the order. -/
def makeRoom (cost : ℕ) : List (String × ℕ × ℕ) → RouterMemo T → Option (RouterMemo T)
  | [], memo => some memo
  | (text, budget, bytes) :: order, memo =>
    if memo.full cost then do
      let values := removeValue memo.values text budget
      let bytes ← subUsize memo.bytes bytes
      let entries ← subUsize memo.entries 1
      makeRoom cost order
        { memo with values := values, order := order, bytes := bytes, entries := entries }
    else some memo

/-- `insert`. The cost includes an allowance for the nodes of the maps and the queue. -/
def insert (memo : RouterMemo T) (text : String) (budget : ℕ) (value : T) (cost : ℕ) :
    Option (RouterMemo T) :=
  let cost := Saturating.add usizeMax cost 256
  if memo.maxBytes < cost ∨ memo.maxEntries = 0 ∨ (memo.get text budget).isSome then some memo
  else do
    let memo ← makeRoom cost memo.order memo
    let bytes ← addUsize memo.bytes cost
    let entries ← addUsize memo.entries 1
    some { memo with
      values := storeValue memo.values text budget value
      order := memo.order ++ [(text, budget, cost)]
      bytes := bytes
      entries := entries }

end RouterMemo

/-! ## What is stored -/

theorem storedValue_removeValue (values : AssocMap ℕ (AssocMap String T)) (text text' : String)
    (budget budget' : ℕ) :
    storedValue (removeValue values text budget) text' budget' =
      if (text', budget') = (text, budget) then none else storedValue values text' budget' := by
  unfold removeValue storedValue
  cases hstored : values.lookup budget with
  | none =>
    by_cases hkey : (text', budget') = (text, budget)
    · obtain ⟨-, rfl⟩ := Prod.mk.inj hkey
      rw [if_pos hkey, hstored, Option.bind_none]
    · rw [if_neg hkey]
  | some stored =>
    simp only
    have herase := AssocMap.lookup_erase stored text text'
    by_cases hbudget : budget' = budget
    · subst hbudget
      simp only [hstored, Option.bind_some, Prod.mk.injEq, and_true, ← herase]
      by_cases hempty : AssocMap.size (stored.erase text) = 0
      · -- The map of the budget is empty and was removed.
        rw [if_pos hempty, AssocMap.lookup_erase, if_pos rfl, Option.bind_none]
        cases hlookup : (stored.erase text).lookup text' with
        | none => rfl
        | some value => exact absurd hempty (AssocMap.size_pos_of_lookup hlookup).ne'
      · rw [if_neg hempty, AssocMap.lookup_insert, if_pos rfl, Option.bind_some]
    · have hkey : ¬(text', budget') = (text, budget) := fun h => hbudget (Prod.mk.inj h).2
      rw [if_neg hkey]
      split
      · rw [AssocMap.lookup_erase, if_neg hbudget]
      · rw [AssocMap.lookup_insert, if_neg hbudget]

theorem storedValue_storeValue (values : AssocMap ℕ (AssocMap String T)) (text text' : String)
    (budget budget' : ℕ) (value : T) :
    storedValue (storeValue values text budget value) text' budget' =
      if (text', budget') = (text, budget) then some value
      else storedValue values text' budget' := by
  unfold storeValue storedValue
  rw [AssocMap.lookup_insert]
  by_cases hbudget : budget' = budget
  · subst hbudget
    rw [if_pos rfl, Option.bind_some, AssocMap.lookup_insert]
    simp only [Prod.mk.injEq, and_true]
    cases hstored : values.lookup budget' with
    | none => simp
    | some stored => rfl
  · rw [if_neg hbudget, if_neg fun h => hbudget (Prod.mk.inj h).2]

theorem mem_storedKeys {values : AssocMap ℕ (AssocMap String T)} {text : String} {budget : ℕ} :
    (text, budget) ∈ storedKeys values ↔ (storedValue values text budget).isSome := by
  have hentry : ∀ stored, values.lookup budget = some stored ↔
      (⟨budget, stored⟩ : Σ _ : ℕ, AssocMap String T) ∈ values.entries :=
    fun stored => AList.mem_lookup_iff
  have hkey : ∀ stored : AssocMap String T, (stored.lookup text).isSome ↔ text ∈ stored.keys :=
    fun stored => AList.lookup_isSome.trans AList.mem_keys
  unfold storedKeys storedValue
  rw [mem_flatMap]
  refine ⟨?_, fun h => ?_⟩
  · rintro ⟨⟨budget', stored⟩, hmem, htext⟩
    obtain ⟨text', htext', heq⟩ := mem_map.1 htext
    obtain ⟨rfl, rfl⟩ := Prod.mk.inj heq
    rw [(hentry stored).2 hmem]
    exact (hkey stored).2 htext'
  · cases hstored : values.lookup budget with
    | none => simp [hstored] at h
    | some stored =>
      rw [hstored] at h
      refine ⟨⟨budget, stored⟩, (hentry stored).1 hstored, ?_⟩
      exact mem_map.2 ⟨text, (hkey stored).1 h, rfl⟩

theorem nodup_storedKeys (values : AssocMap ℕ (AssocMap String T)) :
    (storedKeys values).Nodup := by
  unfold storedKeys
  rw [nodup_flatMap]
  refine ⟨fun stored _ => ?_, ?_⟩
  · exact (AList.keys_nodup stored.2).map fun text text' h => (Prod.mk.inj h).1
  · apply (nodupKeys_iff_pairwise.1 values.nodupKeys).imp
    rintro ⟨budget, stored⟩ ⟨budget', stored'⟩ hne
    rw [Function.onFun, disjoint_left]
    intro key hkey hkey'
    obtain ⟨text, -, rfl⟩ := mem_map.1 hkey
    obtain ⟨text', -, heq⟩ := mem_map.1 hkey'
    exact hne (Prod.mk.inj heq).2.symm

namespace RouterMemo

variable {memo memo' : RouterMemo T} {cost : ℕ}

/-- The key of an entry of the order. -/
def orderKey (entry : String × ℕ × ℕ) : String × ℕ := (entry.1, entry.2.1)

/-- The cost of an entry of the order. -/
def orderCost (entry : String × ℕ × ℕ) : ℕ := entry.2.2

/-- The counts of a table are right, and within its limits: the bytes are what the entries of the
order cost, and the entries are those of the order, which are the keys that are stored. -/
structure Valid (memo : RouterMemo T) : Prop where
  bytes : memo.bytes = (memo.order.map orderCost).sum
  entries : memo.entries = memo.order.length
  nodup : (memo.order.map orderKey).Nodup
  stored : ∀ text budget,
    (memo.get text budget).isSome ↔ (text, budget) ∈ memo.order.map orderKey
  bytes_le : memo.bytes ≤ memo.maxBytes
  entries_le : memo.entries ≤ memo.maxEntries

theorem valid_new (maxBytes maxEntries : ℕ) : (new T maxBytes maxEntries).Valid where
  bytes := rfl
  entries := rfl
  nodup := nodup_nil
  stored _ _ := by simp [get, new, storedValue]
  bytes_le := Nat.zero_le _
  entries_le := Nat.zero_le _

/-- As many values are stored as are counted. -/
theorem Valid.length_storedKeys (h : memo.Valid) :
    (storedKeys memo.values).length = memo.entries := by
  have hperm : (storedKeys memo.values).Perm (memo.order.map orderKey) := by
    apply (perm_ext_iff_of_nodup (nodup_storedKeys _) h.nodup).2
    rintro ⟨text, budget⟩
    exact mem_storedKeys.trans (h.stored text budget)
  rw [hperm.length_eq, length_map, h.entries]

/-- The table after its oldest entry was evicted. -/
def evicted (memo : RouterMemo T) (entry : String × ℕ × ℕ) (order : List (String × ℕ × ℕ)) :
    RouterMemo T :=
  { memo with
    values := removeValue memo.values entry.1 entry.2.1
    order := order
    bytes := memo.bytes - orderCost entry
    entries := memo.entries - 1 }

/-- Evicting subtracts no more than there is, and leaves the counts right. -/
theorem Valid.evicted (h : memo.Valid) {entry : String × ℕ × ℕ}
    {order : List (String × ℕ × ℕ)} (horder : memo.order = entry :: order) :
    orderCost entry ≤ memo.bytes ∧ 1 ≤ memo.entries ∧ (memo.evicted entry order).Valid := by
  have hbytes := h.bytes
  have hentries := h.entries
  have hnodup := h.nodup
  rw [horder, map_cons, sum_cons] at hbytes
  rw [horder, length_cons] at hentries
  rw [horder, map_cons, nodup_cons] at hnodup
  refine ⟨by omega, by omega, ?_, ?_, hnodup.2, fun text budget => ?_, ?_, ?_⟩
  · show memo.bytes - orderCost entry = (order.map orderCost).sum
    omega
  · show memo.entries - 1 = order.length
    omega
  · have hget : (memo.evicted entry order).get text budget =
        if (text, budget) = orderKey entry then none else memo.get text budget :=
      storedValue_removeValue memo.values entry.1 text entry.2.1 budget
    have hstored := h.stored text budget
    rw [horder, map_cons, mem_cons] at hstored
    rw [hget]
    by_cases hkey : (text, budget) = orderKey entry
    · rw [if_pos hkey, hkey]
      exact ⟨fun hnone => absurd hnone (by simp), fun hmem => absurd hmem hnodup.1⟩
    · rw [if_neg hkey, hstored]
      exact or_iff_right hkey
  · exact (Nat.sub_le _ _).trans h.bytes_le
  · exact (Nat.sub_le _ _).trans h.entries_le

theorem get_evicted {entry : String × ℕ × ℕ} {order : List (String × ℕ × ℕ)} {text : String}
    {budget : ℕ} {value : T} (h : (memo.evicted entry order).get text budget = some value) :
    memo.get text budget = some value := by
  have hget : (memo.evicted entry order).get text budget =
      if (text, budget) = (entry.1, entry.2.1) then none else memo.get text budget :=
    storedValue_removeValue memo.values entry.1 text entry.2.1 budget
  rw [hget] at h
  split at h
  · exact absurd h nofun
  · exact h

/-- The same limits, and nothing stored that was not. -/
structure Shrinks (memo memo' : RouterMemo T) : Prop where
  maxBytes : memo'.maxBytes = memo.maxBytes
  maxEntries : memo'.maxEntries = memo.maxEntries
  get : ∀ {text : String} {budget : ℕ} {value : T},
    memo'.get text budget = some value → memo.get text budget = some value

/-- Making room evicts until there is room, or nothing is left. -/
theorem makeRoom_spec (cost : ℕ) (order : List (String × ℕ × ℕ)) :
    ∀ {memo : RouterMemo T}, memo.order = order → memo.Valid →
      ∃ memo', makeRoom cost order memo = some memo' ∧ memo'.Valid ∧ memo.Shrinks memo' ∧
        (memo'.full cost = false ∨ memo'.order = []) := by
  induction order with
  | nil => exact fun {memo} horder h => ⟨memo, rfl, h, ⟨rfl, rfl, id⟩, .inr horder⟩
  | cons entry order ih =>
    intro memo horder h
    by_cases hfull : memo.full cost
    · obtain ⟨hbytes, hentries, hvalid⟩ := h.evicted horder
      obtain ⟨memo', hmemo', hvalid', hshrinks, hroom⟩ := ih rfl hvalid
      refine ⟨memo', ?_, hvalid', ⟨hshrinks.maxBytes, hshrinks.maxEntries, ?_⟩, hroom⟩
      · have hsubBytes : subUsize memo.bytes (orderCost entry) = some _ := if_pos hbytes
        have hsubEntries : subUsize memo.entries 1 = some _ := if_pos hentries
        rw [makeRoom, if_pos hfull]
        simp only [orderCost] at hsubBytes
        simp only [hsubBytes, hsubEntries, bind, Option.bind_some]
        exact hmemo'
      · exact fun hget => get_evicted (hshrinks.get hget)
    · refine ⟨memo, ?_, h, ⟨rfl, rfl, id⟩, .inl (Bool.eq_false_iff.2 hfull)⟩
      rw [makeRoom, if_neg hfull]

theorem Valid.store (h : memo.Valid) {text : String} {budget : ℕ} (value : T)
    (hnew : memo.get text budget = none) (hbytes : memo.bytes + cost ≤ memo.maxBytes)
    (hentries : memo.entries + 1 ≤ memo.maxEntries) :
    Valid { memo with
      values := storeValue memo.values text budget value
      order := memo.order ++ [(text, budget, cost)]
      bytes := memo.bytes + cost
      entries := memo.entries + 1 } := by
  have hnotMem : (text, budget) ∉ memo.order.map orderKey := by
    rw [← h.stored, hnew]
    exact nofun
  refine ⟨?_, ?_, ?_, fun text' budget' => ?_, hbytes, hentries⟩
  · simp only [map_append, sum_append, h.bytes]
    rfl
  · simp only [length_append, h.entries]
    rfl
  · rw [map_append]
    refine nodup_append.2 ⟨h.nodup, nodup_singleton _, ?_⟩
    rintro key hkey key' hkey' rfl
    rw [map_singleton, mem_singleton] at hkey'
    rw [hkey'] at hkey
    exact hnotMem hkey
  · have hget : RouterMemo.get { memo with
        values := storeValue memo.values text budget value
        order := memo.order ++ [(text, budget, cost)]
        bytes := memo.bytes + cost
        entries := memo.entries + 1 } text' budget' =
        if (text', budget') = (text, budget) then some value else memo.get text' budget' :=
      storedValue_storeValue memo.values text text' budget budget' value
    rw [hget, map_append, mem_append, ← h.stored]
    by_cases hkey : (text', budget') = (text, budget)
    · rw [if_pos hkey]
      exact ⟨fun _ => .inr (mem_singleton.2 hkey), fun _ => rfl⟩
    · rw [if_neg hkey]
      exact (or_iff_left fun hmem => hkey (mem_singleton.1 hmem)).symm

/-- Inserting into a table whose byte limit is not the largest `usize`: no count leaves `usize`, they
are right afterwards, and what is stored is the new value or was stored before. -/
theorem insert_valid (h : memo.Valid) (hmaxBytes : memo.maxBytes < usizeMax)
    (hmaxEntries : memo.maxEntries ≤ usizeMax) (text : String) (budget : ℕ) (value : T)
    (cost : ℕ) :
    ∃ memo', memo.insert text budget value cost = some memo' ∧ memo'.Valid ∧
      memo'.maxBytes = memo.maxBytes ∧ memo'.maxEntries = memo.maxEntries ∧
      ∀ text' budget' value', memo'.get text' budget' = some value' →
        (text', budget', value') = (text, budget, value) ∨
          memo.get text' budget' = some value' := by
  unfold insert
  set cost := Saturating.add usizeMax cost 256
  by_cases hskip : memo.maxBytes < cost ∨ memo.maxEntries = 0 ∨ (memo.get text budget).isSome
  · exact ⟨memo, if_pos hskip, h, rfl, rfl, fun _ _ _ hget => .inr hget⟩
  simp only [if_neg hskip]
  obtain ⟨hcost, hzero, hpresent⟩ := not_or.1 hskip |>.imp_right not_or.1
  obtain ⟨room, hroom, hvalid, hshrinks, hfull⟩ := makeRoom_spec cost memo.order rfl h
  -- There is room now: with nothing left, what is to be stored fits.
  have hnotFull : ¬room.maxBytes < Saturating.add usizeMax room.bytes cost ∧
      ¬room.maxEntries ≤ room.entries := by
    have hcases : ∀ {a b : Prop} [Decidable a] [Decidable b], (decide a || decide b) = false →
        ¬a ∧ ¬b := by
      intro a b _ _ hor
      simpa using hor
    obtain hfull | hempty := hfull
    · exact hcases hfull
    · have hbytes := hvalid.bytes
      have hentries := hvalid.entries
      rw [hempty] at hbytes hentries
      rw [hbytes, hentries, hshrinks.maxBytes, hshrinks.maxEntries]
      refine ⟨?_, fun hle => hzero (Nat.le_zero.1 hle)⟩
      exact fun hlt => hcost (hlt.trans_le ((min_le_left _ _).trans (Nat.zero_add cost).le))
  rw [hshrinks.maxBytes, hshrinks.maxEntries, Nat.not_lt, Saturating.add_le_iff hmaxBytes,
    Nat.not_le] at hnotFull
  have haddBytes : addUsize room.bytes cost = some _ :=
    if_pos (hnotFull.1.trans hmaxBytes.le)
  have haddEntries : addUsize room.entries 1 = some _ :=
    if_pos (Nat.succ_le_of_lt (hnotFull.2.trans_le hmaxEntries))
  have hnew : room.get text budget = none := by
    cases hget : room.get text budget with
    | none => rfl
    | some value' => exact absurd (Option.isSome_iff_exists.2 ⟨_, hshrinks.get hget⟩) hpresent
  simp only [hroom, haddBytes, haddEntries, bind, Option.bind_some]
  refine ⟨_, rfl, hvalid.store value hnew ?_ ?_, hshrinks.maxBytes, hshrinks.maxEntries, ?_⟩
  · exact hnotFull.1.trans hshrinks.maxBytes.ge
  · exact (Nat.succ_le_of_lt hnotFull.2).trans hshrinks.maxEntries.ge
  · intro text' budget' value' hget
    have hstored := (storedValue_storeValue room.values text text' budget budget' value).symm.trans
      hget
    split at hstored
    · rename_i hkey
      obtain ⟨rfl, rfl⟩ := Prod.mk.inj hkey
      obtain rfl := Option.some.inj hstored
      exact .inl rfl
    · exact .inr (hshrinks.get hstored)

end RouterMemo

end Router

end OpenBitFun
