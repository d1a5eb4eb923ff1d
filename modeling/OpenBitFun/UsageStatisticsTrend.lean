import Mathlib
import OpenBitFun.UsageStatistics

/-!
# What the usage trend accounts for

The trend has a bucket for every step from the first key, and a record whose key is not on a step is
in none of them. So the trend sums up to the totals just if such records have no tokens
(`accounts_iff`). Local days are stepped over by the local calendar, but hours by 3600 seconds, which
a shift of half an hour is no multiple of (`not_accounts_apart`).
-/

namespace OpenBitFun

open List

namespace TokenUsage

variable {ρ : Type} {zone : TimeZone} {granularity : UsageGranularity}
  {records : List (TokenUsageRecord ρ)}

/-! ## Sums over parts of a list -/

section

variable {α κ : Type} {g : α → ℕ}

theorem sum_filter_or {p q r : α → Bool} (hor : ∀ a, r a = (p a || q a))
    (hdisjoint : ∀ a, p a → ¬q a) (l : List α) :
    ((l.filter r).map g).sum = ((l.filter p).map g).sum + ((l.filter q).map g).sum := by
  induction l with
  | nil => rfl
  | cons a l ih =>
    have ha := hdisjoint a
    simp only [filter_cons, hor]
    cases hp : p a <;> cases hq : q a <;> simp_all <;> omega

/-- Summing by keys sums up what has one of the keys. -/
theorem sum_by_keys [DecidableEq κ] {keys : List κ} (hnodup : keys.Nodup) (key : α → κ)
    (l : List α) :
    (keys.map fun k => ((l.filter fun a => key a = k).map g).sum).sum =
      ((l.filter fun a => key a ∈ keys).map g).sum := by
  induction keys with
  | nil => simp
  | cons k keys ih =>
    obtain ⟨hk, hkeys⟩ := nodup_cons.1 hnodup
    rw [map_cons, sum_cons, ih hkeys]
    symm
    apply sum_filter_or
    · intro a
      simp
    · intro a ha hmem
      obtain rfl : key a = k := of_decide_eq_true ha
      exact hk (of_decide_eq_true hmem)

end

/-! ## Buckets -/

/-- A measure of buckets adds up a measure of records. -/
structure Adds (f : TrendBucket → ℕ) (g : TokenUsageRecord ρ → ℕ) : Prop where
  empty : f .empty = 0
  add : ∀ bucket record, f (bucket.add record) = f bucket + g record

/-- The key of a record's bucket. -/
abbrev recordKey (zone : TimeZone) (granularity : UsageGranularity) (record : TokenUsageRecord ρ) :
    ℤ :=
  bucketKey zone granularity record.instant

/-- A bucket adds up the known records with its key. -/
theorem bucket_adds {f : TrendBucket → ℕ} {g : TokenUsageRecord ρ → ℕ} (h : Adds f g) (key : ℤ) :
    f (((bucketRecords zone granularity records).lookup key).getD .empty) =
      (((records.filter TokenUsageRecord.usageIsKnown).filter fun record =>
        recordKey zone granularity record = key).map g).sum := by
  induction records using List.reverseRecOn with
  | nil => exact h.empty
  | append_singleton records record ih =>
    rw [bucketRecords, foldl_concat, ← bucketRecords]
    rw [filter_append, filter_append, map_append, sum_append, ← ih]
    by_cases hknown : record.usageIsKnown
    · rw [if_pos hknown, AssocMap.lookup_insert]
      by_cases hkey : key = recordKey zone granularity record
      · subst hkey
        simp [hknown, h.add, recordKey]
      · rw [if_neg hkey]
        simp [hknown, Ne.symm hkey]
    · simp [hknown]

/-- There is a bucket for every key of a known record. -/
theorem mem_keys {key : ℤ} :
    key ∈ (bucketRecords zone granularity records).keys ↔
      ∃ record ∈ records, record.usageIsKnown ∧ recordKey zone granularity record = key := by
  induction records using List.reverseRecOn with
  | nil => exact ⟨nofun, nofun⟩
  | append_singleton records record ih =>
    rw [bucketRecords, foldl_concat, ← bucketRecords]
    by_cases hknown : record.usageIsKnown
    · rw [if_pos hknown, ← AList.mem_keys, AList.mem_insert, AList.mem_keys, ih]
      simp only [mem_append, mem_singleton, or_and_right, exists_or, exists_eq_left,
        hknown, true_and]
      exact or_comm.trans (or_congr_right eq_comm)
    · simp [ih, hknown, or_and_right, exists_or]

/-- The key of a known record is between the first and the last. -/
theorem firstKey_le {record : TokenUsageRecord ρ} (hmem : record ∈ records)
    (hknown : record.usageIsKnown) :
    firstKey (bucketRecords zone granularity records) ≤ recordKey zone granularity record ∧
      recordKey zone granularity record ≤ lastKey (bucketRecords zone granularity records) := by
  have hkey : recordKey zone granularity record ∈
      (bucketRecords zone granularity records).keys := mem_keys.2 ⟨record, hmem, hknown, rfl⟩
  unfold firstKey lastKey
  refine ⟨?_, ?_⟩
  · cases hmin : (bucketRecords zone granularity records).keys.min? with
    | none => exact absurd hkey (min?_eq_none_iff.1 hmin ▸ not_mem_nil)
    | some first => exact (min?_eq_some_iff.1 hmin).2 _ hkey
  · cases hmax : (bucketRecords zone granularity records).keys.max? with
    | none => exact absurd hkey (max?_eq_none_iff.1 hmax ▸ not_mem_nil)
    | some last => exact (max?_eq_some_iff.1 hmax).2 _ hkey

/-! ## Steps -/

/-- A key is met by stepping on from a cursor, from bucket to later bucket. -/
inductive Reaches (zone : TimeZone) (granularity : UsageGranularity) : ℤ → ℤ → Prop
  | here (cursor : ℤ) : Reaches zone granularity cursor cursor
  | step {cursor next key : ℤ} (hnext : nextBucket zone granularity cursor = some next)
      (hlt : cursor < next) (h : Reaches zone granularity next key) :
      Reaches zone granularity cursor key

theorem Reaches.le {cursor key : ℤ} (h : Reaches zone granularity cursor key) : cursor ≤ key := by
  induction h with
  | here cursor => exact le_rfl
  | step hnext hlt h ih => exact hlt.le.trans ih

/-- The keys of the trend are those that are reached. -/
theorem mem_bucketKeysBetween {last cursor key : ℤ} :
    key ∈ bucketKeysBetween zone granularity last cursor ↔
      Reaches zone granularity cursor key ∧ key ≤ last := by
  refine ⟨fun hmem => ?_, ?_⟩
  · fun_induction bucketKeysBetween zone granularity last cursor with
    | case1 cursor hcursor next hnext hlt ih =>
      obtain rfl | hmem := mem_cons.1 hmem
      · exact ⟨.here _, hcursor⟩
      · exact (ih hmem).imp_left (.step hnext hlt)
    | case2 cursor hcursor | case3 cursor hcursor =>
      obtain rfl := mem_singleton.1 hmem
      exact ⟨.here _, hcursor⟩
    | case4 => exact absurd hmem not_mem_nil
  · rintro ⟨hreaches, hlast⟩
    induction hreaches with
    | here cursor =>
      rw [bucketKeysBetween, if_pos hlast]
      grind
    | step hnext hlt hreaches ih =>
      rw [bucketKeysBetween, if_pos (hlt.le.trans (hreaches.le.trans hlast)), hnext]
      grind

/-- Hours are stepped over by 3600 seconds. -/
theorem reaches_hour {cursor key : ℤ} :
    Reaches zone .hour cursor key ↔ cursor ≤ key ∧ (key - cursor) % 3600 = 0 := by
  refine ⟨fun h => ⟨h.le, ?_⟩, ?_⟩
  · induction h with
    | here cursor => rw [Int.sub_self, Int.zero_emod]
    | step hnext hlt h ih =>
      have hnext' := Option.some.inj hnext
      omega
  · rintro ⟨hle, hmod⟩
    obtain ⟨n, hn⟩ : ∃ n : ℕ, key = cursor + 3600 * n :=
      ⟨((key - cursor) / 3600).toNat, by omega⟩
    clear hle hmod
    induction n generalizing cursor with
    | zero =>
      obtain rfl : key = cursor := by omega
      exact .here _
    | succ n ih =>
      have hnext : nextBucket zone .hour cursor = some (cursor + 3600) := rfl
      exact .step hnext (by omega) (ih (by push_cast at hn; omega))

theorem bucketKeysBetween_increasing (last cursor : ℤ) :
    (bucketKeysBetween zone granularity last cursor).Pairwise (· < ·) := by
  fun_induction bucketKeysBetween zone granularity last cursor with
  | case1 cursor hcursor next hnext hlt ih =>
    refine pairwise_cons.2 ⟨fun key hkey => ?_, ih⟩
    exact hlt.trans_le (mem_bucketKeysBetween.1 hkey).1.le
  | case2 | case3 => exact pairwise_singleton _ _
  | case4 => exact List.Pairwise.nil

/-! ## Recent attempts -/

/-- Newer attempts come first, and those of one time in the order of their ids. -/
def Before (a b : UsageAttemptSummary ρ) : Prop :=
  b.timestamp < a.timestamp ∨
    a.timestamp = b.timestamp ∧ a.request.attemptId ≤ b.request.attemptId

/-- The first of all attempts, sorted. -/
def NewestFirst (attempts recent : List (UsageAttemptSummary ρ)) : Prop :=
  ∃ sorted : List (UsageAttemptSummary ρ), sorted.Perm attempts ∧ sorted.Pairwise Before ∧
    recent = sorted.take maxRecentAttempts

theorem Before.trans {a b c : UsageAttemptSummary ρ} (hab : Before a b) (hbc : Before b c) :
    Before a c := by
  unfold Before at *
  grind

theorem before_total (a b : UsageAttemptSummary ρ) : Before a b ∨ Before b a := by
  unfold Before
  grind

instance : Std.Total (Before (ρ := ρ)) := ⟨before_total⟩

instance : IsTrans (UsageAttemptSummary ρ) Before := ⟨fun _ _ _ => Before.trans⟩

theorem compareAttempts_gt_iff {existing new : UsageAttemptSummary ρ} :
    compareAttempts existing new = .gt ↔ ¬Before existing new := by
  unfold compareAttempts Before
  rw [Ordering.then_eq_gt, compare_gt_iff_gt, compare_eq_iff_eq, compare_gt_iff_gt, ← not_le]
  grind

theorem compareAttempts_lt_iff {existing new : UsageAttemptSummary ρ} :
    compareAttempts existing new = .lt ↔ ¬Before new existing := by
  unfold compareAttempts Before
  rw [Ordering.then_eq_lt, compare_lt_iff_lt, compare_eq_iff_eq, compare_lt_iff_lt, ← not_le]
  grind

/-- Where a new attempt is inserted among sorted ones: those before it come before it, those behind
it come behind it. -/
theorem position_spec (search : BinarySearch) {recent : List (UsageAttemptSummary ρ)}
    (hsorted : recent.Pairwise Before) (new : UsageAttemptSummary ρ) :
    let position := search.position (recent.map fun existing => compareAttempts existing new)
    position ≤ recent.length ∧ (∀ a ∈ recent.take position, Before a new) ∧
      ∀ a ∈ recent.drop position, Before new a := by
  intro position
  obtain ⟨hlen, htake, hdrop⟩ := search.position_spec
    (recent.map fun existing => compareAttempts existing new)
    (pairwise_map.2 <| hsorted.imp fun {a b} hab hb => by
      rw [compareAttempts_lt_iff] at hb ⊢
      exact fun ha => hb (ha.trans hab))
    (pairwise_map.2 <| hsorted.imp fun {a b} hab ha => by
      rw [compareAttempts_gt_iff] at ha ⊢
      exact fun hb => ha (hab.trans hb))
  rw [length_map] at hlen
  refine ⟨hlen, fun a ha => ?_, fun a ha => ?_⟩
  · rw [← map_take] at htake
    exact not_not.1 fun hb =>
      htake _ (mem_map_of_mem ha) (compareAttempts_gt_iff.2 hb)
  · rw [← map_drop] at hdrop
    exact not_not.1 fun hb =>
      hdrop _ (mem_map_of_mem ha) (compareAttempts_lt_iff.2 hb)

/-- Inserting one more attempt keeps the first of all. -/
theorem NewestFirst.insertAttempt {attempts recent : List (UsageAttemptSummary ρ)}
    (h : NewestFirst attempts recent) (search : BinarySearch) (new : UsageAttemptSummary ρ) :
    NewestFirst (attempts ++ [new]) (insertAttempt search recent new) := by
  obtain ⟨sorted, hperm, hsorted, rfl⟩ := h
  obtain ⟨hlen, htake, hdrop⟩ :=
    position_spec search (hsorted.sublist (take_sublist maxRecentAttempts sorted)) new
  unfold TokenUsage.insertAttempt
  generalize search.position _ = position at hlen htake hdrop ⊢
  have hle : position ≤ sorted.length := hlen.trans (length_take_le' _ _)
  rw [length_take] at hlen
  by_cases hposition : position < maxRecentAttempts
  · -- The attempt goes between the same two attempts of the whole list.
    rw [take_take, min_eq_left hposition.le] at htake
    rw [if_pos hposition, take_take, min_eq_left hposition.le, drop_take]
    refine ⟨sorted.take position ++ new :: sorted.drop position, ?_, ?_, ?_⟩
    · apply perm_middle.trans
      rw [take_append_drop]
      exact (hperm.cons new).trans (perm_append_singleton new attempts).symm
    · have hbehind : ∀ a ∈ sorted.drop position, Before new a := by
        have hpairwise := hsorted.sublist (drop_sublist position sorted)
        rw [drop_take] at hdrop
        cases hrest : sorted.drop position with
        | nil => exact fun a ha => absurd ha not_mem_nil
        | cons next rest =>
          rw [hrest] at hpairwise hdrop
          have hnext : Before new next := by
            apply hdrop
            obtain ⟨room, hroom⟩ := Nat.exists_eq_add_of_lt hposition
            have hsucc : maxRecentAttempts - position = room + 1 := by omega
            rw [hsucc, take_succ_cons]
            exact mem_cons_self
          intro a ha
          obtain rfl | ha := mem_cons.1 ha
          · exact hnext
          · exact hnext.trans ((pairwise_cons.1 hpairwise).1 a ha)
      refine pairwise_append.2 ⟨hsorted.sublist (take_sublist _ _),
        pairwise_cons.2 ⟨hbehind, hsorted.sublist (drop_sublist _ _)⟩, ?_⟩
      intro a ha b hb
      obtain rfl | hb := mem_cons.1 hb
      · exact htake a ha
      · exact (htake a ha).trans (hbehind b hb)
    · have hlength : (sorted.take position).length = position := length_take_of_le hle
      obtain ⟨room, hroom⟩ := Nat.exists_eq_add_of_lt hposition
      have hsucc : maxRecentAttempts - position = room + 1 := by omega
      have htail : ((sorted.drop position).take (room + 1)).take room =
          (sorted.drop position).take room := by
        rw [take_take, min_eq_left (Nat.le_succ room)]
      rw [take_append, take_append, hlength, hsucc, take_succ_cons,
        take_succ_cons, htail]
  · -- All recent attempts come before it, and there is no room.
    obtain rfl : position = maxRecentAttempts := by omega
    rw [take_take, min_self] at htake
    rw [if_neg hposition]
    classical
    have hlength : (sorted.take maxRecentAttempts).length = maxRecentAttempts :=
      length_take_of_le hle
    refine ⟨sorted.take maxRecentAttempts ++
      (sorted.drop maxRecentAttempts).orderedInsert Before new, ?_, ?_, ?_⟩
    · apply ((perm_orderedInsert Before new _).append_left _).trans
      apply perm_middle.trans
      rw [take_append_drop]
      exact (hperm.cons new).trans (perm_append_singleton new attempts).symm
    · have hsplit := hsorted
      rw [← take_append_drop maxRecentAttempts sorted] at hsplit
      obtain ⟨hfront, hback, hacross⟩ := pairwise_append.1 hsplit
      refine pairwise_append.2 ⟨hfront, hback.orderedInsert new _, fun a ha b hb => ?_⟩
      obtain rfl | hb := (mem_orderedInsert Before).1 hb
      · exact htake a ha
      · exact hacross a ha b hb
    · rw [take_append_of_le_length hlength.ge, take_take, min_self]

/-- Whatever the order of the records, the recent attempts are the first of all. -/
theorem newestFirst_recentAttempts (search : BinarySearch) (zone : TimeZone)
    (granularity : UsageGranularity) (records : List (TokenUsageRecord ρ)) :
    NewestFirst (nativeAttempts records)
      (aggregateStatistics search zone granularity records).recentAttempts := by
  show NewestFirst _ ((nativeAttempts records).foldl (insertAttempt search) [])
  induction nativeAttempts records using List.reverseRecOn with
  | nil => exact ⟨[], List.Perm.nil, List.Pairwise.nil, rfl⟩
  | append_singleton attempts new ih =>
    rw [foldl_concat]
    exact ih.insertAttempt search new

/-! ## What the trend accounts for -/

/-- The trend is in the order of time and sums up to the totals. -/
structure Accounted (statistics : UsageStatistics ρ) : Prop where
  increasing : (statistics.trend.map UsageTrendPoint.bucket).Pairwise (· < ·)
  input : (statistics.trend.map UsageTrendPoint.inputTokens).sum = statistics.totalInputTokens
  output : (statistics.trend.map UsageTrendPoint.outputTokens).sum = statistics.totalOutputTokens
  cached : (statistics.trend.map UsageTrendPoint.cacheReadTokens).sum = statistics.totalCachedTokens
  cacheWrite : (statistics.trend.map UsageTrendPoint.cacheWriteTokens).sum =
    statistics.totalCacheWriteTokens

/-- The bucket of a record is a step of the trend: a whole number of hours behind the first one, or a
local day that is met by stepping from local day to local day. -/
def OnStep (zone : TimeZone) (granularity : UsageGranularity) (records : List (TokenUsageRecord ρ))
    (record : TokenUsageRecord ρ) : Prop :=
  let first := firstKey (bucketRecords zone granularity records)
  match granularity with
  | .hour => (recordKey zone .hour record - first) % 3600 = 0
  | .day => Reaches zone .day first (recordKey zone .day record)

/-- A record has tokens that are summed up. -/
def HasTokens (record : TokenUsageRecord ρ) : Prop :=
  record.inputTokens ≠ 0 ∨ record.outputTokens ≠ 0 ∨ record.cachedTokens ≠ 0 ∨
    record.cacheWriteTokens ≠ 0

/-- The keys of the trend that records have are the steps. -/
theorem mem_trendKeys {record : TokenUsageRecord ρ} (hmem : record ∈ records)
    (hknown : record.usageIsKnown) :
    recordKey zone granularity record ∈ trendKeys zone granularity records ↔
      OnStep zone granularity records record := by
  obtain ⟨hfirst, hlast⟩ := firstKey_le hmem hknown
  have hkey : recordKey zone granularity record ∈
      (bucketRecords zone granularity records).keys := mem_keys.2 ⟨record, hmem, hknown, rfl⟩
  have hne : (bucketRecords zone granularity records).keys ≠ [] := ne_nil_of_mem hkey
  simp only [trendKeys, if_neg hne]
  rw [mem_bucketKeysBetween, and_iff_left hlast]
  cases granularity with
  | hour => exact reaches_hour.trans (and_iff_right hfirst)
  | day => exact Iff.rfl

theorem trendKeys_increasing : (trendKeys zone granularity records).Pairwise (· < ·) := by
  simp only [trendKeys]
  split
  · exact List.Pairwise.nil
  · exact bucketKeysBetween_increasing _ _

/-- What the buckets of the trend add up to is the total just if records that are on no step have
none of it. -/
theorem sum_trend_iff {f : TrendBucket → ℕ} {g : TokenUsageRecord ρ → ℕ} (h : Adds f g) :
    ((trendKeys zone granularity records).map fun key =>
        f (((bucketRecords zone granularity records).lookup key).getD .empty)).sum =
      ((records.filter TokenUsageRecord.usageIsKnown).map g).sum ↔
    ∀ record ∈ records, record.usageIsKnown → ¬OnStep zone granularity records record →
      g record = 0 := by
  have hnodup : (trendKeys zone granularity records).Nodup :=
    trendKeys_increasing.imp fun {_ _} hlt => hlt.ne
  have hkey : ∀ record ∈ records.filter TokenUsageRecord.usageIsKnown,
      (recordKey zone granularity record ∉ trendKeys zone granularity records ↔
        ¬OnStep zone granularity records record) := by
    intro record hrecord
    obtain ⟨hmem, hknown⟩ := mem_filter.1 hrecord
    exact not_congr (mem_trendKeys hmem hknown)
  simp only [bucket_adds h]
  rw [sum_by_keys hnodup]
  generalize trendKeys zone granularity records = keys at hkey
  have hsplit := sum_filter_or (g := g) (r := fun _ => true)
    (p := fun record => recordKey zone granularity record ∈ keys)
    (q := fun record => recordKey zone granularity record ∉ keys)
    (fun record => by simp) (fun record hp hq => of_decide_eq_true hq (of_decide_eq_true hp))
    (records.filter TokenUsageRecord.usageIsKnown)
  rw [filter_true] at hsplit
  rw [hsplit, left_eq_add, List.sum_eq_zero_iff_forall_eq_nat, List.forall_mem_map]
  refine ⟨fun hzero record hmem hknown hstep => ?_, fun hzero record hrecord => ?_⟩
  · have hrecord := mem_filter.2 ⟨hmem, hknown⟩
    exact hzero record (mem_filter.2 ⟨hrecord, decide_eq_true ((hkey record hrecord).2 hstep)⟩)
  · obtain ⟨hrecord, hout⟩ := mem_filter.1 hrecord
    obtain ⟨hmem, hknown⟩ := mem_filter.1 hrecord
    exact hzero record hmem hknown ((hkey record hrecord).1 (of_decide_eq_true hout))

/-- The trend sums up to the totals, in the order of time, exactly where every known record with
tokens is on a step, as long as its buckets are not too many. The recent attempts are right in any
case. -/
theorem accounts_iff (search : BinarySearch) (zone : TimeZone) (granularity : UsageGranularity)
    (records : List (TokenUsageRecord ρ))
    (hrange : (trendKeys zone (appliedGranularity zone granularity records) records).length ≤
      maxTrendPoints) :
    (Accounted (aggregateStatistics search zone granularity records) ∧
      NewestFirst (nativeAttempts records)
        (aggregateStatistics search zone granularity records).recentAttempts) ↔
    ∀ record ∈ records, record.usageIsKnown → HasTokens record →
      OnStep zone (appliedGranularity zone granularity records) records record := by
  rw [and_iff_left (newestFirst_recentAttempts search zone granularity records)]
  have htrend : (aggregateStatistics search zone granularity records).trend =
      (trendKeys zone (appliedGranularity zone granularity records) records).map fun key =>
        (((bucketRecords zone (appliedGranularity zone granularity records) records).lookup
          key).getD .empty).intoPoint key := by
    simp only [aggregateStatistics, buildTrend, Nat.sub_eq_zero_of_le hrange, drop_zero]
  have hsum : ∀ {f : TrendBucket → ℕ} {g : TokenUsageRecord ρ → ℕ} (of : UsageTrendPoint → ℕ),
      Adds f g → (∀ bucket key, of (bucket.intoPoint key) = f bucket) →
        (((aggregateStatistics search zone granularity records).trend.map of).sum =
          ((records.filter TokenUsageRecord.usageIsKnown).map g).sum ↔
        ∀ record ∈ records, record.usageIsKnown →
          ¬OnStep zone (appliedGranularity zone granularity records) records record →
            g record = 0) := by
    intro f g of hadds hof
    rw [htrend, map_map, ← sum_trend_iff hadds]
    simp only [Function.comp_def, hof]
  have hinput := hsum UsageTrendPoint.inputTokens ⟨rfl, fun _ _ => rfl⟩ fun _ _ => rfl
  have houtput := hsum UsageTrendPoint.outputTokens ⟨rfl, fun _ _ => rfl⟩ fun _ _ => rfl
  have hcached := hsum UsageTrendPoint.cacheReadTokens ⟨rfl, fun _ _ => rfl⟩ fun _ _ => rfl
  have hwrite := hsum UsageTrendPoint.cacheWriteTokens ⟨rfl, fun _ _ => rfl⟩ fun _ _ => rfl
  refine ⟨fun h record hmem hknown htokens => ?_, fun h => ?_⟩
  · by_contra hstep
    simp [HasTokens, hinput.1 h.input record hmem hknown hstep,
      houtput.1 h.output record hmem hknown hstep, hcached.1 h.cached record hmem hknown hstep,
      hwrite.1 h.cacheWrite record hmem hknown hstep] at htokens
  · have hnone : ∀ record ∈ records, record.usageIsKnown →
        ¬OnStep zone (appliedGranularity zone granularity records) records record →
          record.inputTokens = 0 ∧ record.outputTokens = 0 ∧ record.cachedTokens = 0 ∧
            record.cacheWriteTokens = 0 := by
      intro record hmem hknown hstep
      simpa [HasTokens] using mt (h record hmem hknown) hstep
    refine ⟨?_, hinput.2 fun r hmem hknown hstep => (hnone r hmem hknown hstep).1,
      houtput.2 fun r hmem hknown hstep => (hnone r hmem hknown hstep).2.1,
      hcached.2 fun r hmem hknown hstep => (hnone r hmem hknown hstep).2.2.1,
      hwrite.2 fun r hmem hknown hstep => (hnone r hmem hknown hstep).2.2.2⟩
    rw [htrend, map_map]
    exact pairwise_map.2 trendKeys_increasing

/-! ## A shift of half an hour -/

/-- A zone whose clocks are shifted at instant zero. -/
def TimeZone.shifted (before after : ℤ) (hbefore : before % 60 = 0) (hafter : after % 60 = 0) :
    TimeZone where
  offset instant := if instant < 0 then before else after
  fromLocal time :=
    if time - before < 0 then
      if 0 ≤ time - after then .ambiguous (time - before) (time - after)
      else .single (time - before)
    else if 0 ≤ time - after then .single (time - after)
    else .none
  wholeMinutes instant := by
    split <;> assumption
  single h other := by
    split_ifs at h ⊢ <;> cases h <;> omega
  ambiguous h := by
    split_ifs at h ⊢ <;> cases h <;> omega
  skipped h other := by
    split_ifs at h ⊢ <;> omega

/-- The search for the first that does not come before. -/
def linearSearch : BinarySearch where
  position compared := (compared.takeWhile fun o => o = .lt).length
  position_spec compared hless hgreater := by
    clear hgreater
    induction compared with
    | nil => exact ⟨le_rfl, nofun, nofun⟩
    | cons o compared ih =>
      obtain ⟨ho, hcompared⟩ := pairwise_cons.1 hless
      obtain ⟨hlen, htake, hdrop⟩ := ih hcompared
      by_cases hlt : o = .lt
      · simp only [takeWhile_cons, hlt, decide_true, if_true, length_cons,
          take_succ_cons, drop_succ_cons]
        refine ⟨Nat.succ_le_succ hlen, forall_mem_cons.2 ⟨nofun, htake⟩, hdrop⟩
      · simp only [takeWhile_cons, hlt, decide_false, Bool.false_eq_true, if_false,
          length_nil, take_zero, drop_zero]
        exact ⟨Nat.zero_le _, nofun,
          forall_mem_cons.2 ⟨hlt, fun later hlater heq => hlt (ho later hlater heq)⟩⟩

/-- A record of one input token at an instant. -/
def oneToken (instant : ℤ) : TokenUsageRecord Unit :=
  ⟨"session", "turn", instant * 1000000000, 1, 0, 0, false, 0, .ok none⟩

/-- Clocks are turned from half past ten to eleven. -/
def halfHour : TimeZone := .shifted 37800 39600 rfl rfl

/-- Records an hour and a half apart: one of half past nine, and one of half past eleven. -/
def apart : List (TokenUsageRecord Unit) := [oneToken (-3600), oneToken 1800]

theorem trendKeys_apart : appliedGranularity halfHour .hour apart = .hour ∧
    firstKey (bucketRecords halfHour .hour apart) = -5400 ∧
      trendKeys halfHour .hour apart = [-5400, -1800] := by
  have hfirst : firstKey (bucketRecords halfHour .hour apart) = -5400 := by decide
  have hlast : lastKey (bucketRecords halfHour .hour apart) = 0 := by decide
  have hne : (bucketRecords halfHour .hour apart).keys ≠ [] := by decide
  refine ⟨by decide, hfirst, ?_⟩
  simp only [trendKeys, if_neg hne, hfirst, hlast]
  simp [bucketKeysBetween, nextBucket]

theorem accounts_iff_apart :
    ¬(Accounted (aggregateStatistics linearSearch halfHour .hour apart) ∧
      NewestFirst (nativeAttempts apart)
        (aggregateStatistics linearSearch halfHour .hour apart).recentAttempts) := by
  obtain ⟨hgranularity, hfirst, hkeys⟩ := trendKeys_apart
  rw [accounts_iff linearSearch halfHour .hour apart (by rw [hgranularity, hkeys]; decide),
    hgranularity]
  intro h
  have hstep := h (oneToken 1800) (mem_cons_of_mem _ mem_cons_self) rfl
    (.inl Nat.one_ne_zero)
  simp only [OnStep, hfirst] at hstep
  exact absurd hstep (by decide)

/-- The second record is half an hour off a whole number of hours behind the first one's bucket, and
in no bucket of the trend. -/
theorem not_accounts_apart :
    (trendKeys halfHour (appliedGranularity halfHour .hour apart) apart).length ≤ maxTrendPoints ∧
      ¬Accounted (aggregateStatistics linearSearch halfHour .hour apart) := by
  obtain ⟨hgranularity, -, hkeys⟩ := trendKeys_apart
  refine ⟨by rw [hgranularity, hkeys]; decide, fun h => ?_⟩
  have hinput := h.input
  simp only [aggregateStatistics, buildTrend, hgranularity, hkeys] at hinput
  exact absurd hinput (by decide)

end TokenUsage

end OpenBitFun
