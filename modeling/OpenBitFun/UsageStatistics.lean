import Mathlib
import OpenBitFun.AssocMap

/-!
# Token usage statistics

`aggregate_statistics_with_time_zone` sums up usage records for the dashboard: the totals, the newest
native attempts, and a trend of buckets that are an hour or a local day long. The key of a bucket is
the instant of its start, in seconds. The keys of records come from local wall-clock time, those of
the trend from stepping forward from the first one, so a time zone is a parameter, as is what a binary
search finds.
-/

namespace OpenBitFun

namespace TokenUsage

/-! ## Time zones -/

/-- `LocalResult`: the instants at which clocks show a local time. -/
inductive LocalResult where
  | single (instant : ℤ)
  | ambiguous (earliest latest : ℤ)
  | none

namespace LocalResult

/-- `single`. -/
def single? : LocalResult → Option ℤ
  | single instant => some instant
  | _ => Option.none

end LocalResult

/-- A time zone, in seconds: the offset of local time at an instant, and the instants at which clocks
show a local time, of which two are told where there are several. -/
structure TimeZone where
  offset : ℤ → ℤ
  fromLocal : ℤ → LocalResult
  /-- Offsets are whole minutes. -/
  wholeMinutes : ∀ instant, offset instant % 60 = 0
  /-- A local time that clocks show once. -/
  single : ∀ {time instant}, fromLocal time = .single instant →
    ∀ other, other + offset other = time ↔ other = instant
  /-- A local time that clocks show more than once. -/
  ambiguous : ∀ {time earliest latest}, fromLocal time = .ambiguous earliest latest →
    earliest < latest ∧ earliest + offset earliest = time ∧ latest + offset latest = time
  /-- A local time that clocks skip. -/
  skipped : ∀ {time}, fromLocal time = .none → ∀ other, other + offset other ≠ time

namespace TimeZone

/-- Local time at an instant. -/
def localTime (zone : TimeZone) (instant : ℤ) : ℤ := instant + zone.offset instant

/-- The local date at an instant, as a number of days. -/
def localDate (zone : TimeZone) (instant : ℤ) : ℤ := zone.localTime instant / 86400

/-- Changes local time at an instant, as `with_minute` and its siblings do. -/
def mapLocal (zone : TimeZone) (change : ℤ → ℤ) (instant : ℤ) : Option ℤ :=
  (zone.fromLocal (change (zone.localTime instant))).single?

/-- The loop of `local_date_start_utc`: the first local minute from `minute` on that clocks show. -/
def firstMinute (zone : TimeZone) (midnight minute : ℤ) : ℕ → Option ℤ
  | 0 => none
  | fuel + 1 =>
    match zone.fromLocal (midnight + 60 * minute) with
    | .single instant => some instant
    | .ambiguous first second => some (min first second)
    | .none => firstMinute zone midnight (minute + 1) fuel

/-- `local_date_start_utc`. -/
def localDateStartUtc (zone : TimeZone) (date : ℤ) : Option ℤ :=
  zone.firstMinute (date * 86400) 0 (24 * 60 + 1)

end TimeZone

/-! ## Records -/

/-- `ModelRequestUsageContext`, as far as it is read here: its attempt, whether its usage is known, the
account that is charged, and what is passed on. -/
structure ModelRequestUsageContext (ρ : Type) where
  attemptId : String
  usageKnown : Bool
  accountKey : String
  rest : ρ

/-- `TokenUsageRecord`. The timestamp is in nanoseconds. The context is what `model_request_context`
reads from the details. -/
structure TokenUsageRecord (ρ : Type) where
  sessionId : String
  turnId : String
  timestamp : ℤ
  inputTokens : ℕ
  outputTokens : ℕ
  cachedTokens : ℕ
  cachedTokensAvailable : Bool
  cacheWriteTokens : ℕ
  modelRequestContext : Except String (Option (ModelRequestUsageContext ρ))

variable {ρ : Type}

namespace TokenUsageRecord

/-- `request_context`. -/
def requestContext (record : TokenUsageRecord ρ) : Option (ModelRequestUsageContext ρ) :=
  match record.modelRequestContext with
  | .ok context => context
  | .error _ => none

/-- `usage_is_known`. -/
def usageIsKnown (record : TokenUsageRecord ρ) : Bool :=
  match record.modelRequestContext with
  | .ok (some context) => context.usageKnown
  | .ok none => true
  | .error _ => false

/-- The seconds of the timestamp. -/
def instant (record : TokenUsageRecord ρ) : ℤ := record.timestamp / 1000000000

end TokenUsageRecord

/-- `UsageGranularity`. -/
inductive UsageGranularity where
  | hour
  | day
  deriving DecidableEq

/-! ## The trend -/

/-- `MAX_TREND_POINTS`. -/
def maxTrendPoints : ℕ := 800

/-- `TrendBucket`, without its key. -/
structure TrendBucket where
  inputTokens : ℕ
  outputTokens : ℕ
  cachedTokens : ℕ
  cacheWriteTokens : ℕ
  reportedInputTokens : ℕ
  deriving DecidableEq

namespace TrendBucket

/-- `default`. -/
def empty : TrendBucket := ⟨0, 0, 0, 0, 0⟩

/-- A bucket with one more record. -/
def add (bucket : TrendBucket) (record : TokenUsageRecord ρ) : TrendBucket where
  inputTokens := bucket.inputTokens + record.inputTokens
  outputTokens := bucket.outputTokens + record.outputTokens
  cachedTokens := bucket.cachedTokens + record.cachedTokens
  cacheWriteTokens := bucket.cacheWriteTokens + record.cacheWriteTokens
  reportedInputTokens := bucket.reportedInputTokens +
    if record.cachedTokensAvailable then record.inputTokens else 0

end TrendBucket

/-- `bucket_key`. -/
def bucketKey (zone : TimeZone) (granularity : UsageGranularity) (instant : ℤ) : ℤ :=
  match granularity with
  | .hour =>
    let withMinute := zone.mapLocal (fun time => time - time % 3600 / 60 * 60) instant
    let withSecond := withMinute.bind (zone.mapLocal fun time => time - time % 60)
    (withSecond.bind (zone.mapLocal id)).getD (instant - instant % 3600)
  | .day =>
    (zone.localDateStartUtc (zone.localDate instant)).getD (zone.localDate instant * 86400)

/-- `bucket_records`. -/
def bucketRecords (zone : TimeZone) (granularity : UsageGranularity)
    (records : List (TokenUsageRecord ρ)) : AssocMap ℤ TrendBucket :=
  records.foldl
    (fun buckets record =>
      if record.usageIsKnown then
        let key := bucketKey zone granularity record.instant
        buckets.insert key (((buckets.lookup key).getD .empty).add record)
      else buckets)
    ∅

/-- The bucket behind another one. -/
def nextBucket (zone : TimeZone) (granularity : UsageGranularity) (cursor : ℤ) : Option ℤ :=
  match granularity with
  | .hour => some (cursor + 3600)
  | .day => zone.localDateStartUtc (zone.localDate cursor + 1)

/-- `bucket_keys_between`. -/
def bucketKeysBetween (zone : TimeZone) (granularity : UsageGranularity) (last cursor : ℤ) :
    List ℤ :=
  if cursor ≤ last then
    match nextBucket zone granularity cursor with
    | some next =>
      if cursor < next then cursor :: bucketKeysBetween zone granularity last next else [cursor]
    | none => [cursor]
  else []
termination_by (last + 1 - cursor).toNat
decreasing_by omega

/-- The least of the keys of buckets. -/
def firstKey (buckets : AssocMap ℤ TrendBucket) : ℤ := buckets.keys.min?.getD 0

/-- The largest of the keys of buckets. -/
def lastKey (buckets : AssocMap ℤ TrendBucket) : ℤ := buckets.keys.max?.getD 0

/-- `UsageTrendPoint`, without its cache hit rate. -/
structure UsageTrendPoint where
  bucket : ℤ
  inputTokens : ℕ
  outputTokens : ℕ
  cacheReadTokens : ℕ
  cacheWriteTokens : ℕ
  deriving DecidableEq

/-- `into_point`. -/
def TrendBucket.intoPoint (bucket : TrendBucket) (key : ℤ) : UsageTrendPoint where
  bucket := key
  inputTokens := bucket.inputTokens
  outputTokens := bucket.outputTokens
  cacheReadTokens := bucket.cachedTokens
  cacheWriteTokens := bucket.cacheWriteTokens

/-- The granularity that is applied: a range with too many hours is shown by days. -/
def appliedGranularity (zone : TimeZone) (granularity : UsageGranularity)
    (records : List (TokenUsageRecord ρ)) : UsageGranularity :=
  let buckets := bucketRecords zone granularity records
  if granularity = .hour ∧ maxTrendPoints < (lastKey buckets - firstKey buckets) / 3600 + 1 then .day
  else granularity

/-- The keys of the trend, before the oldest are left out. -/
def trendKeys (zone : TimeZone) (granularity : UsageGranularity)
    (records : List (TokenUsageRecord ρ)) : List ℤ :=
  let buckets := bucketRecords zone granularity records
  if buckets.keys = [] then [] else bucketKeysBetween zone granularity (lastKey buckets) (firstKey buckets)

/-- `build_trend`. -/
def buildTrend (zone : TimeZone) (granularity : UsageGranularity)
    (records : List (TokenUsageRecord ρ)) : List UsageTrendPoint × UsageGranularity :=
  let granularity := appliedGranularity zone granularity records
  let buckets := bucketRecords zone granularity records
  let keys := trendKeys zone granularity records
  ((keys.drop (keys.length - maxTrendPoints)).map fun key =>
    ((buckets.lookup key).getD .empty).intoPoint key, granularity)

/-! ## Recent attempts -/

/-- `MAX_RECENT_ATTEMPTS`. -/
def maxRecentAttempts : ℕ := 50

/-- `UsageAttemptSummary`. -/
structure UsageAttemptSummary (ρ : Type) where
  accountKey : String
  timestamp : ℤ
  sessionId : String
  turnId : String
  inputTokens : Option ℕ
  outputTokens : Option ℕ
  request : ModelRequestUsageContext ρ

/-- The summary of a native attempt. -/
def TokenUsageRecord.attempt (record : TokenUsageRecord ρ)
    (context : ModelRequestUsageContext ρ) : UsageAttemptSummary ρ where
  accountKey := context.accountKey
  timestamp := record.timestamp
  sessionId := record.sessionId
  turnId := record.turnId
  inputTokens := if record.usageIsKnown then some record.inputTokens else none
  outputTokens := if record.usageIsKnown then some record.outputTokens else none
  request := context

/-- `binary_search_by`: where to insert into a list, by how its elements compare to what is inserted,
where they are in order. Which of several equal elements is found is left open. -/
structure BinarySearch where
  position : List Ordering → ℕ
  position_spec : ∀ compared : List Ordering,
    compared.Pairwise (fun earlier later => later = .lt → earlier = .lt) →
    compared.Pairwise (fun earlier later => earlier = .gt → later = .gt) →
      position compared ≤ compared.length ∧ (∀ o ∈ compared.take (position compared), o ≠ .gt) ∧
        ∀ o ∈ compared.drop (position compared), o ≠ .lt

/-- How the search compares an attempt that is there to a new one: newer ones first, then by id. -/
def compareAttempts (existing new : UsageAttemptSummary ρ) : Ordering :=
  (compare new.timestamp existing.timestamp).then
    (compare existing.request.attemptId new.request.attemptId)

/-- Keeps an attempt among the recent ones. -/
def insertAttempt (search : BinarySearch) (recent : List (UsageAttemptSummary ρ))
    (attempt : UsageAttemptSummary ρ) : List (UsageAttemptSummary ρ) :=
  let position := search.position (recent.map fun existing => compareAttempts existing attempt)
  if position < maxRecentAttempts then
    (recent.take position ++ attempt :: recent.drop position).take maxRecentAttempts
  else recent

/-! ## Statistics -/

/-- `UsageStatistics`, without its breakdowns. -/
structure UsageStatistics (ρ : Type) where
  recentAttempts : List (UsageAttemptSummary ρ)
  attemptsTruncated : Bool
  totalInputTokens : ℕ
  totalOutputTokens : ℕ
  totalCachedTokens : ℕ
  totalCacheWriteTokens : ℕ
  trend : List UsageTrendPoint
  granularity : UsageGranularity

/-- The native attempts of records. -/
def nativeAttempts (records : List (TokenUsageRecord ρ)) : List (UsageAttemptSummary ρ) :=
  records.filterMap fun record => record.requestContext.map record.attempt

/-- `aggregate_statistics_with_time_zone`. -/
def aggregateStatistics (search : BinarySearch) (zone : TimeZone) (granularity : UsageGranularity)
    (records : List (TokenUsageRecord ρ)) : UsageStatistics ρ :=
  let known := records.filter TokenUsageRecord.usageIsKnown
  let trend := buildTrend zone granularity records
  { recentAttempts := (nativeAttempts records).foldl (insertAttempt search) []
    attemptsTruncated := maxRecentAttempts < (nativeAttempts records).length
    totalInputTokens := (known.map TokenUsageRecord.inputTokens).sum
    totalOutputTokens := (known.map TokenUsageRecord.outputTokens).sum
    totalCachedTokens := (known.map TokenUsageRecord.cachedTokens).sum
    totalCacheWriteTokens := (known.map TokenUsageRecord.cacheWriteTokens).sum
    trend := trend.1
    granularity := trend.2 }

end TokenUsage

end OpenBitFun
