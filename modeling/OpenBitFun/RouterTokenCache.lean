import OpenBitFun.JsonCanonical
import OpenBitFun.RouterMemo

/-!
# The Router's token cache

`CachedRouterTokenCounter` puts two memo tables before a counter, one of counts and one of
projections. It holds a lock for one look at a table at a time, and never while it counts, so what
calls do to the tables may be interleaved. A call is a program here: a tree of accesses to the tables,
which ends with what the call returns. `compact_json` is such a program too, since all it asks of a
counter are counts and projections.
-/

namespace OpenBitFun

namespace Router

open Json (Value)

/-! ## Programs -/

/-- What is under the locks of a `CachedRouterTokenCounter`. -/
structure TokenCache where
  tokens : RouterMemo ℕ
  projections : RouterMemo Value

/-- `with_limits`. -/
def TokenCache.withLimits (bytes entries : ℕ) : TokenCache where
  tokens := .new ℕ bytes entries
  projections := .new Value bytes (min entries 256)

/-- A call: the accesses it makes to the tables, and what it returns. -/
inductive Program (α : Type) where
  | done (a : α)
  | tokenGet (text : String) (k : Option ℕ → Program α)
  | tokenInsert (text : String) (tokens cost : ℕ) (k : Program α)
  | projectionGet (text : String) (budget : ℕ) (k : Option Value → Program α)
  | projectionInsert (text : String) (budget : ℕ) (value : Value) (cost : ℕ) (k : Program α)

namespace Program

variable {α β : Type}

/-- One program after another. -/
def bind : Program α → (α → Program β) → Program β
  | done a, f => f a
  | tokenGet text k, f => tokenGet text fun tokens => (k tokens).bind f
  | tokenInsert text tokens cost k, f => tokenInsert text tokens cost (k.bind f)
  | projectionGet text budget k, f => projectionGet text budget fun value => (k value).bind f
  | projectionInsert text budget value cost k, f =>
    projectionInsert text budget value cost (k.bind f)

/-- A program for every item of a list. -/
def mapM (f : α → Program β) : List α → Program (List β)
  | [] => done []
  | a :: as => (f a).bind fun b => (mapM f as).bind fun bs => done (b :: bs)

/-- The next access of a program to the tables. There is none where a count leaves `usize`. -/
def step : Program α → TokenCache → Option (Program α × TokenCache)
  | done a, cache => some (done a, cache)
  | tokenGet text k, cache => some (k (cache.tokens.get text 0), cache)
  | tokenInsert text tokens cost k, cache =>
    (cache.tokens.insert text 0 tokens cost).map fun memo => (k, { cache with tokens := memo })
  | projectionGet text budget k, cache => some (k (cache.projections.get text budget), cache)
  | projectionInsert text budget value cost k, cache =>
    (cache.projections.insert text budget value cost).map fun memo =>
      (k, { cache with projections := memo })

end Program

/-! ## The counter -/

/-- What `remember_projection` measures a value by: the size of a value, and the capacity of a
text. -/
structure Layout where
  sizeOfValue : ℕ
  capacity : String → ℕ

mutual

/-- `value_cost`. -/
def valueCost (layout : Layout) : Value → ℕ
  | .string text => Saturating.add usizeMax layout.sizeOfValue (layout.capacity text)
  | .array values => Saturating.add usizeMax layout.sizeOfValue (itemsCost layout 0 values)
  | .object fields => Saturating.add usizeMax layout.sizeOfValue (fieldsCost layout 0 fields)
  | .null => Saturating.add usizeMax layout.sizeOfValue 0
  | .bool _ => Saturating.add usizeMax layout.sizeOfValue 0
  | .number _ => Saturating.add usizeMax layout.sizeOfValue 0

/-- The fold of `value_cost` over the items of an array. -/
def itemsCost (layout : Layout) (bytes : ℕ) : List Value → ℕ
  | [] => bytes
  | value :: values =>
    itemsCost layout
      (Saturating.add usizeMax (Saturating.add usizeMax bytes (valueCost layout value)) 32) values

/-- The fold of `value_cost` over the fields of an object. -/
def fieldsCost (layout : Layout) (bytes : ℕ) : List (String × Value) → ℕ
  | [] => bytes
  | (key, value) :: fields =>
    fieldsCost layout
      (Saturating.add usizeMax
        (Saturating.add usizeMax (Saturating.add usizeMax bytes (layout.capacity key))
          (valueCost layout value)) 128) fields

end

namespace Cached

/-- Only texts up to a length are looked up and remembered. -/
@[irreducible] def cacheable (text : String) : Bool := Text.byteLength text.toList ≤ 65536

variable (inner : String → ℕ)

/-- `count`, of an inner counter that is always cacheable. -/
def count (text : String) : Program ℕ :=
  if cacheable text then
    .tokenGet text fun remembered =>
      match remembered with
      | some tokens => .done tokens
      | none =>
        .tokenInsert text (inner text) (Text.byteLength text.toList) (.done (inner text))
  else .done (inner text)

/-- `cached_projection`. -/
def cachedProjection (text : String) (budget : ℕ) : Program (Option Value) :=
  if cacheable text then .projectionGet text budget .done else .done none

/-- `remember_projection`. -/
def rememberProjection (layout : Layout) (text : String) (budget : ℕ) (value : Value) :
    Program Unit :=
  if cacheable text then
    .projectionInsert text budget value
      (Saturating.add usizeMax (Text.byteLength text.toList) (valueCost layout value)) (.done ())
  else .done ()

/-! ## `compact_json` with a cached counter -/

/-- The binary search of `truncate`. -/
def truncateSearch (text : List Char) (budget low high : ℕ) (best : List Char) :
    Program (List Char) :=
  if low ≤ high then
    let keep := low + (high - low) / 2
    let candidate := headTail text keep
    (count inner (String.ofList candidate)).bind fun tokens =>
      if tokens ≤ budget then truncateSearch text budget (keep + 1) high candidate
      else if keep = 0 then .done best
      else truncateSearch text budget low (keep - 1) best
  else .done best
termination_by high + 1 - low
decreasing_by all_goals omega

/-- `truncate`. -/
def truncate (text : String) (budget : ℕ) : Program String :=
  let text := truncateSource text.toList
  (count inner (String.ofList text)).bind fun tokens =>
    if tokens ≤ budget then .done (String.ofList text)
    else (truncateSearch inner text budget 0 text.length []).bind fun best =>
      .done (String.ofList best)

/-- `shrink`. -/
def shrink (fieldBudget items : ℕ) : Value → Program Value
  | .string text => (truncate inner text fieldBudget).bind fun text => .done (.string text)
  | .array values =>
    let retained := (retainedIndices values items).filterMap fun index => values.attach[index]?
    (Program.mapM (fun value => shrink fieldBudget items value.1) retained).bind fun output =>
      .done (.array (if values.length > output.length then
        Json.ofFields [("omitted_items", .number (.int (values.length - output.length : ℕ)))] ::
          output
      else output))
  | .object fields =>
    (Program.mapM (fun field => (shrink fieldBudget items field.1.2).bind fun value =>
      .done (field.1.1, value)) (fields.attach.take (max items 8))).bind fun output =>
        .done (.object (if fields.length > output.length then
          Json.insertField "omitted_fields" (.number (.int (fields.length - output.length : ℕ)))
            output
        else output))
  | .null => .done .null
  | .bool b => .done (.bool b)
  | .number n => .done (.number n)
termination_by value => sizeOf value
decreasing_by
  · exact Value.sizeOf_lt_array value.2
  · exact Value.sizeOf_lt_object field.2

/-- The loop of `compact_json_uncached`. -/
def compactLoop (value : Value) (rendered : String) (budget fields items : ℕ) : Program Value :=
  (shrink inner fields items value).bind fun compact =>
    (count inner compact.render).bind fun tokens =>
      if tokens ≤ budget then .done compact
      else if 32 < fields then compactLoop value rendered budget (fields / 2) items
      else if 1 < items then compactLoop value rendered budget fields (items / 2)
      else
        (truncate inner rendered (budget - 48)).bind fun preview =>
          let result := Json.ofFields [("truncated", .bool true), ("preview", .string preview)]
          (count inner result.render).bind fun tokens =>
            .done (if tokens ≤ budget then result else .null)
termination_by fields + items
decreasing_by all_goals omega

/-- `compact_json_uncached`. A long rendering is not counted. -/
def compactJsonUncached (value : Value) (rendered : String) (budget : ℕ) : Program Value :=
  if Text.byteLength rendered.toList ≤ 65536 then
    (count inner rendered).bind fun tokens =>
      if tokens ≤ budget then .done value else compactLoop inner value rendered budget 1024 32
  else compactLoop inner value rendered budget 1024 32

/-- `compact_json`. -/
def compactJson (layout : Layout) (value : Value) (budget : ℕ) : Program Value :=
  (cachedProjection value.render budget).bind fun cached =>
    match cached with
    | some cached => .done cached
    | none =>
      (compactJsonUncached inner value value.render budget).bind fun result =>
        (rememberProjection layout value.render budget result).bind fun _ => .done result

end Cached

end Router

end OpenBitFun
