import Mathlib

/-!
# JSON values

The values of `serde_json`, with its accessors and its compact rendering. An object keeps its
fields sorted by key, as the library's default map does. A number is an integer, or the text of a
floating-point number, which nothing here computes with.
-/

namespace OpenBitFun

namespace Json

/-- A JSON number. -/
inductive Number where
  /-- An integer. -/
  | int (n : ℤ)
  /-- A floating-point number, as it is rendered. -/
  | float (text : String)
  deriving DecidableEq, Repr

/-- A JSON value. -/
inductive Value where
  | null
  | bool (b : Bool)
  | number (n : Number)
  | string (s : String)
  | array (items : List Value)
  | object (fields : List (String × Value))

/-! ## Accessors -/

/-- The value of a field. -/
def lookup (key : String) : List (String × Value) → Option Value
  | [] => none
  | (k, v) :: fields => if k = key then some v else lookup key fields

/-- Sets a field and keeps the order of the keys. -/
def insertField (key : String) (v : Value) : List (String × Value) → List (String × Value)
  | [] => [(key, v)]
  | (k, x) :: fields =>
    if key = k then (k, v) :: fields
    else if key < k then (key, v) :: (k, x) :: fields
    else (k, x) :: insertField key v fields

/-- An object with the given fields; a later field replaces an earlier one. -/
def ofFields (fields : List (String × Value)) : Value :=
  .object (fields.foldl (fun fields field => insertField field.1 field.2 fields) [])

/-- `Value::get` with a key. -/
def Value.get (v : Value) (key : String) : Option Value :=
  match v with
  | .object fields => lookup key fields
  | _ => none

/-- `value[key]`, which is null where there is no such field. -/
def Value.index (v : Value) (key : String) : Value := (v.get key).getD .null

/-- `value[key] = v`: null becomes an object first, and a value of another kind panics. -/
def Value.setIndex (v : Value) (key : String) (x : Value) : Option Value :=
  match v with
  | .object fields => some (.object (insertField key x fields))
  | .null => some (.object [(key, x)])
  | _ => none

/-- The value under a key, changed in place through `get_mut`. -/
def Value.modify (v : Value) (key : String) (f : Value → Value) : Value :=
  match v, v.get key with
  | .object fields, some x => .object (insertField key (f x) fields)
  | _, _ => v

/-- `Value::pointer` along object keys. -/
def Value.pointer (v : Value) (path : List String) : Option Value :=
  path.foldl (fun v key => v.bind fun v => v.get key) (some v)

/-- `Value::as_str`. -/
def Value.asStr : Value → Option String
  | .string s => some s
  | _ => none

/-- `Value::as_bool`. -/
def Value.asBool : Value → Option Bool
  | .bool b => some b
  | _ => none

/-- `Value::as_array`. -/
def Value.asArray : Value → Option (List Value)
  | .array items => some items
  | _ => none

/-- `Value::as_object`. -/
def Value.asObject : Value → Option (List (String × Value))
  | .object fields => some fields
  | _ => none

/-- `Value::as_i64`. -/
def Value.asI64 : Value → Option ℤ
  | .number (.int n) => if -2 ^ 63 ≤ n ∧ n < 2 ^ 63 then some n else none
  | _ => none

/-- `Value::as_u64`. -/
def Value.asU64 : Value → Option ℕ
  | .number (.int n) => if 0 ≤ n ∧ n < 2 ^ 64 then some n.toNat else none
  | _ => none

/-- `Value::is_null`. -/
def Value.isNull : Value → Bool
  | .null => true
  | _ => false

/-! ## Setting fields -/

theorem lookup_insertField (key key' : String) (v : Value) (fields : List (String × Value)) :
    lookup key' (insertField key v fields) =
      if key' = key then some v else lookup key' fields := by
  induction fields with
  | nil =>
    rw [insertField, lookup]
    exact if_congr eq_comm rfl rfl
  | cons field fields ih =>
    obtain ⟨k, x⟩ := field
    rw [insertField]
    by_cases hsame : key = k
    · rw [if_pos hsame, lookup, lookup, ← hsame]
      by_cases hkey : key = key'
      · rw [if_pos hkey, if_pos hkey.symm]
      · rw [if_neg hkey, if_neg hkey, if_neg (Ne.symm hkey)]
    · rw [if_neg hsame]
      by_cases hlt : key < k
      · rw [if_pos hlt, lookup]
        exact if_congr eq_comm rfl rfl
      · rw [if_neg hlt, lookup, lookup, ih]
        by_cases hkey : k = key'
        · rw [if_pos hkey, if_neg fun heq => hsame (heq.symm.trans hkey.symm), if_pos hkey]
        · rw [if_neg hkey, if_neg hkey]

/-- The value that a list of fields gives to a key: the last one. -/
def lastField (key : String) : List (String × Value) → Option Value
  | [] => none
  | (k, v) :: fields => (lastField key fields).or (if k = key then some v else none)

/-- Reading a field of an object that is built. -/
theorem get_ofFields (fields : List (String × Value)) (key : String) :
    (ofFields fields).get key = lastField key fields := by
  have hall : ∀ before, lookup key (fields.foldl
      (fun fields field => insertField field.1 field.2 fields) before) =
        (lastField key fields).or (lookup key before) := by
    induction fields with
    | nil => exact fun before => rfl
    | cons field fields ih =>
      intro before
      obtain ⟨k, v⟩ := field
      rw [List.foldl_cons, ih, lookup_insertField, lastField, Option.or_assoc]
      by_cases hkey : k = key
      · simp [hkey]
      · simp [hkey, Ne.symm hkey]
  rw [ofFields, Value.get, hall []]
  exact Option.or_none

theorem lastField_append (key : String) (before after : List (String × Value)) :
    lastField key (before ++ after) = (lastField key after).or (lastField key before) := by
  induction before with
  | nil => exact Option.or_none.symm
  | cons field before ih =>
    obtain ⟨k, v⟩ := field
    rw [List.cons_append, lastField, ih, lastField, Option.or_assoc]

theorem lastField_option {α : Type} (key k : String) (x : Option α) (f : α → Value) :
    lastField key (x.toList.map fun x => (k, f x)) = if k = key then x.map f else none := by
  cases x with
  | none => simp [lastField]
  | some x => simp [lastField]

/-- Reading after a value was changed in place. -/
theorem get_modify (v : Value) (key : String) (f : Value → Value) (key' : String) :
    (v.modify key f).get key' = if key' = key then (v.get key).map f else v.get key' := by
  cases v with
  | object fields =>
    rw [Value.modify.eq_def]
    cases hold : (Value.object fields).get key with
    | none =>
      change (Value.object fields).get key' = _
      by_cases hkey : key' = key
      · rw [if_pos hkey, hkey, hold]
        rfl
      · rw [if_neg hkey]
    | some x => exact lookup_insertField key key' (f x) fields
  | null => simp [Value.modify, Value.get]
  | bool => simp [Value.modify, Value.get]
  | number => simp [Value.modify, Value.get]
  | string => simp [Value.modify, Value.get]
  | array => simp [Value.modify, Value.get]

/-! ## Rendering -/

/-- A hexadecimal digit. -/
def hexDigit (n : ℕ) : Char := Nat.digitChar n

/-- A character inside a JSON string. -/
def escapeChar (c : Char) : List Char :=
  if c = '"' then ['\\', '"']
  else if c = '\\' then ['\\', '\\']
  else if c = '\n' then ['\\', 'n']
  else if c = '\r' then ['\\', 'r']
  else if c = '\t' then ['\\', 't']
  else if c.toNat = 8 then ['\\', 'b']
  else if c.toNat = 12 then ['\\', 'f']
  else if c.toNat < 32 then
    ['\\', 'u', '0', '0', hexDigit (c.toNat / 16), hexDigit (c.toNat % 16)]
  else [c]

/-- A quoted JSON string. -/
def renderString (s : String) : String :=
  String.ofList ('"' :: s.toList.flatMap escapeChar ++ ['"'])

/-- A JSON number. -/
def Number.render : Number → String
  | .int n => toString n
  | .float text => text

mutual

/-- `Value::to_string`: the compact rendering. -/
def Value.render : Value → String
  | .null => "null"
  | .bool b => if b then "true" else "false"
  | .number n => n.render
  | .string s => renderString s
  | .array items => "[" ++ renderItems items ++ "]"
  | .object fields => "\x7b" ++ renderFields fields ++ "\x7d"

/-- The items of an array, separated by commas. -/
def renderItems : List Value → String
  | [] => ""
  | v :: items => v.render ++ renderMoreItems items

/-- The items after the first one. -/
def renderMoreItems : List Value → String
  | [] => ""
  | v :: items => "," ++ v.render ++ renderMoreItems items

/-- The fields of an object, separated by commas. -/
def renderFields : List (String × Value) → String
  | [] => ""
  | (k, v) :: fields => renderString k ++ ":" ++ v.render ++ renderMoreFields fields

/-- The fields after the first one. -/
def renderMoreFields : List (String × Value) → String
  | [] => ""
  | (k, v) :: fields => "," ++ renderString k ++ ":" ++ v.render ++ renderMoreFields fields

end

theorem renderMoreItems_append (items items' : List Value) :
    renderMoreItems (items ++ items') = renderMoreItems items ++ renderMoreItems items' := by
  induction items with
  | nil => rw [List.nil_append, renderMoreItems, String.empty_append]
  | cons v items ih =>
    rw [List.cons_append, renderMoreItems, renderMoreItems, ih, ← String.append_assoc]

/-- One more item comes behind a comma, if it is not the first one. -/
theorem renderItems_concat (items : List Value) (v : Value) :
    renderItems (items ++ [v]) =
      if items = [] then v.render else renderItems items ++ "," ++ v.render := by
  cases items with
  | nil => rw [if_pos rfl, List.nil_append, renderItems, renderMoreItems, String.append_empty]
  | cons first items =>
    rw [if_neg (List.cons_ne_nil _ _), List.cons_append, renderItems, renderItems,
      renderMoreItems_append, renderMoreItems, renderMoreItems, String.append_empty,
      String.append_assoc, String.append_assoc]

end Json

end OpenBitFun
