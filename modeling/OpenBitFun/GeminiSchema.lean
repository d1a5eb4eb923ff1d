import OpenBitFun.JsonCanonical

/-!
# Schemas for Gemini

`strip_unsupported_schema_fields` of the Gemini message converter: what a JSON schema keeps when it
becomes the schema of a tool's parameters, with the members of `allOf`, `anyOf` and `oneOf` merged
into it. The values of an object are sanitised first, those of its variants among them, and then
put together.
-/

namespace OpenBitFun

namespace GeminiSchema

open SortedMap Json

/-- `is_supported_schema_key`. -/
def isSupportedSchemaKey (key : String) : Bool :=
  ["type", "format", "description", "nullable", "enum", "items", "properties", "required",
    "minItems", "maxItems", "minimum", "maximum", "minLength", "maxLength", "pattern"].contains key

/-- `normalize_schema_type`: the first type that is not `null`, and whether `null` is one. -/
def normalizeSchemaType : Option Value → Option String × Bool
  | some (.string value) => if value ≠ "null" then (some value, false) else (none, true)
  | some (.array values) =>
    (values.filterMap Value.asStr).foldl
      (fun (selected, nullable) value =>
        if value = "null" then (selected, true)
        else if selected.isNone then (some value, nullable)
        else (selected, nullable))
      (none, false)
  | _ => (none, false)

/-- One round of the loop of `merge_schema_map`. -/
def mergeEntry (preserveRequired : Bool) (target : List (String × Value)) :
    String × Value → List (String × Value)
  | (key, value) =>
    if key = "properties" then
      match value with
      | .object sourceProps =>
        let target := orInsert key (.object []) target
        match target.lookup key with
        | some (.object targetProps) =>
          insert key (.object (sourceProps.foldl (fun m (k, v) => orInsert k v m) targetProps))
            target
        | _ => target
      | _ => target
    else if key = "required" ∧ preserveRequired = true then
      match value with
      | .array sourceRequired =>
        let target := orInsert key (.array []) target
        match target.lookup key with
        | some (.array targetRequired) =>
          insert key (.array (sourceRequired.foldl
            (fun names item => if names.contains item then names else names ++ [item])
            targetRequired)) target
        | _ => target
      | _ => target
    else if key = "nullable" then
      if value = .bool true then insert key (.bool true) target else target
    else orInsert key value target

/-- `merge_schema_map`. -/
def mergeSchemaMap (target source : List (String × Value)) (preserveRequired : Bool) :
    List (String × Value) := source.foldl (mergeEntry preserveRequired) target

/-- `merge_schema_variants`, of variants that are sanitised. -/
def mergeSchemaVariants (target : List (String × Value)) (variants : Value)
    (preserveRequired : Bool) : List (String × Value) :=
  match variants with
  | .array variants =>
    variants.foldl
      (fun target variant => match variant with
        | .object map => mergeSchemaMap target map preserveRequired
        | _ => target)
      target
  | _ => target

/-- One round of the loop of `merge_union_variants`: what is merged, and whether `null` is a
variant. -/
def mergeUnionVariant (state : List (String × Value) × Bool) :
    Value → List (String × Value) × Bool
  | .object map =>
    let isNullOnly := map.lookup "type" = some (.string "null") ∧ map.length = 1
    if isNullOnly then (state.1, true) else (mergeSchemaMap state.1 map false, state.2)
  | .string value => if value = "null" then (state.1, true) else state
  | _ => state

/-- `merge_union_variants`, of variants that are sanitised. -/
def mergeUnionVariants (target : List (String × Value)) (variants : Value) :
    List (String × Value) × Bool :=
  match variants with
  | .array variants => variants.foldl mergeUnionVariant (target, false)
  | _ => (target, false)

/-- The variants of `allOf`, if there are some. -/
def mergeAllOf (fields target : List (String × Value)) : List (String × Value) :=
  match fields.lookup "allOf" with
  | some allOf => mergeSchemaVariants target allOf true
  | none => target

/-- The variants of `anyOf` or `oneOf`, if there are some, and whether `null` is one of them. -/
def mergeUnion (key : String) (fields target : List (String × Value)) :
    List (String × Value) × Bool :=
  match fields.lookup key with
  | some variants => mergeUnionVariants target variants
  | none => (target, false)

/-- The type that is left, and that a value may be `null`. -/
def complete (schemaType : Option String) (nullable : Bool) (sanitized : List (String × Value)) :
    List (String × Value) :=
  let sanitized := match schemaType with
    | some schemaType =>
      let sanitized :=
        if schemaType = "array" ∧ (sanitized.lookup "items").isNone then
          insert "items" (.object []) sanitized
        else sanitized
      insert "type" (.string schemaType) sanitized
    | none => sanitized
  if nullable then insert "nullable" (.bool true) sanitized else sanitized

/-- What an object becomes, from its `type` and its other values, which are sanitised. -/
def assemble (typeValue : Option Value) (fields : List (String × Value)) : List (String × Value) :=
  let normalized := normalizeSchemaType typeValue
  let sanitized := fields.filter fun field => field.1 ≠ "type" ∧ isSupportedSchemaKey field.1
  let sanitized := mergeAllOf fields sanitized
  let anyOf := mergeUnion "anyOf" fields sanitized
  let oneOf := mergeUnion "oneOf" fields anyOf.1
  complete normalized.1 (normalized.2 || anyOf.2 || oneOf.2) oneOf.1

mutual

/-- `strip_unsupported_schema_fields`. -/
def stripUnsupportedSchemaFields : Value → Value
  | .object map => .object (assemble (map.lookup "type") (stripFields map))
  | .array items => .array (stripItems items)
  | other => other

/-- All values of an object; `properties` is a map of schemas itself, or nothing. -/
def stripFields : List (String × Value) → List (String × Value)
  | [] => []
  | (key, value) :: map =>
    match key, value with
    | "properties", .object properties =>
      ("properties", .object (stripProperties properties)) :: stripFields map
    | "properties", _ => stripFields map
    | key, value => (key, stripUnsupportedSchemaFields value) :: stripFields map

/-- The schemas of `properties`. -/
def stripProperties : List (String × Value) → List (String × Value)
  | [] => []
  | (name, schema) :: properties =>
    (name, stripUnsupportedSchemaFields schema) :: stripProperties properties

/-- The schemas of a list. -/
def stripItems : List Value → List Value
  | [] => []
  | item :: items => stripUnsupportedSchemaFields item :: stripItems items

end

/-- `sanitize_schema`. -/
def sanitizeSchema (value : Value) : Value := stripUnsupportedSchemaFields value

/-- Array schemas get a schema for their items, and of the types that is taken which is not
`null`. -/
example : sanitizeSchema (.object [("additionalProperties", .bool false),
      ("type", .array [.string "array", .string "null"])]) =
    .object [("items", .object []), ("nullable", .bool true), ("type", .string "array")] := by
  decide

end GeminiSchema

end OpenBitFun
