import OpenBitFun.GeminiSchema

/-!
# Sanitised schemas

What merging two objects does at each key, and what is true of every schema that comes out of
`sanitize_schema`; sanitising such a schema changes nothing.
-/

namespace OpenBitFun

namespace GeminiSchema

open SortedMap Json

/-! ## Merging, key by key -/

/-- The names of a list and those of another that are new to it. -/
def addNames (names more : List Value) : List Value :=
  more.foldl (fun names item => if names.contains item then names else names ++ [item]) names

/-- The properties of an object and those of another that are new to it. -/
def addProperties (properties more : List (String × Value)) : List (String × Value) :=
  more.foldl (fun m (k, v) => orInsert k v m) properties

/-- What merging makes of the value at a key, from the value that is merged. -/
def mergeValue (preserveRequired : Bool) (key : String) (value : Value) (old : Option Value) :
    Option Value :=
  if key = "properties" then
    match value with
    | .object more =>
      match old.getD (.object []) with
      | .object properties => some (.object (addProperties properties more))
      | other => some other
    | _ => old
  else if key = "required" ∧ preserveRequired = true then
    match value with
    | .array more =>
      match old.getD (.array []) with
      | .array names => some (.array (addNames names more))
      | other => some other
    | _ => old
  else if key = "nullable" then if value = .bool true then some (.bool true) else old
  else some (old.getD value)

/-- One round of the loop changes the value at its key. -/
theorem lookup_mergeEntry (preserveRequired : Bool) (target : List (String × Value)) (key : String)
    (value : Value) (k : String) :
    (mergeEntry preserveRequired target (key, value)).lookup k =
      if k = key then mergeValue preserveRequired key value (target.lookup key)
      else target.lookup k := by
  have hsame : target.lookup k = if k = key then target.lookup key else target.lookup k := by
    split
    · rename_i heq
      rw [heq]
    · rfl
  have hself : ∀ empty, (orInsert key empty target).lookup key =
      some ((target.lookup key).getD empty) := fun empty => by
    rw [lookup_orInsert, if_pos rfl]
  unfold mergeEntry mergeValue
  dsimp only
  by_cases hproperties : key = "properties"
  · rw [if_pos hproperties, if_pos hproperties]
    cases value with
    | object more =>
      dsimp only
      rw [hself]
      cases hold : (target.lookup key).getD (.object []) with
      | object properties =>
        dsimp only
        rw [lookup_insert, lookup_orInsert, addProperties]
        split
        · rfl
        · rfl
      | _ =>
        dsimp only
        rw [lookup_orInsert, hold]
    | _ => exact hsame
  rw [if_neg hproperties, if_neg hproperties]
  by_cases hrequired : key = "required" ∧ preserveRequired = true
  · rw [if_pos hrequired, if_pos hrequired]
    cases value with
    | array more =>
      dsimp only
      rw [hself]
      cases hold : (target.lookup key).getD (.array []) with
      | array names =>
        dsimp only
        rw [lookup_insert, lookup_orInsert, addNames]
        split
        · rfl
        · rfl
      | _ =>
        dsimp only
        rw [lookup_orInsert, hold]
    | _ => exact hsame
  rw [if_neg hrequired, if_neg hrequired]
  by_cases hnullable : key = "nullable"
  · rw [if_pos hnullable, if_pos hnullable]
    by_cases htrue : value = .bool true
    · rw [if_pos htrue, if_pos htrue, lookup_insert]
    · rw [if_neg htrue, if_neg htrue]
      exact hsame
  · rw [if_neg hnullable, if_neg hnullable, lookup_orInsert]

theorem sorted_mergeEntry (preserveRequired : Bool) {target : List (String × Value)}
    (h : Sorted target) (entry : String × Value) :
    Sorted (mergeEntry preserveRequired target entry) := by
  obtain ⟨key, value⟩ := entry
  unfold mergeEntry
  dsimp only
  split
  · split
    · split
      · exact sorted_insert (sorted_orInsert h _ _) _ _
      · exact sorted_orInsert h _ _
    · exact h
  · split
    · split
      · split
        · exact sorted_insert (sorted_orInsert h _ _) _ _
        · exact sorted_orInsert h _ _
      · exact h
    · split
      · split
        · exact sorted_insert h _ _
        · exact h
      · exact sorted_orInsert h _ _

theorem sorted_mergeSchemaMap {target : List (String × Value)} (h : Sorted target)
    (source : List (String × Value)) (preserveRequired : Bool) :
    Sorted (mergeSchemaMap target source preserveRequired) := by
  rw [mergeSchemaMap]
  induction source generalizing target with
  | nil => exact h
  | cons entry source ih => exact ih (sorted_mergeEntry preserveRequired h entry)

/-- Merging a map changes the value at each of its keys. -/
theorem lookup_mergeSchemaMap (target : List (String × Value)) {source : List (String × Value)}
    (hsource : Sorted source) (preserveRequired : Bool) (k : String) :
    (mergeSchemaMap target source preserveRequired).lookup k =
      (source.lookup k).elim (target.lookup k) fun value =>
        mergeValue preserveRequired k value (target.lookup k) := by
  rw [mergeSchemaMap]
  exact lookup_foldl (lookup_mergeEntry preserveRequired) hsource target k

theorem lookup_mergeSchemaMap_of_plain (target : List (String × Value))
    {source : List (String × Value)} (hsource : Sorted source) (preserveRequired : Bool)
    {k : String} (hk : k ≠ "properties") (hk' : k ≠ "required") (hk'' : k ≠ "nullable") :
    (mergeSchemaMap target source preserveRequired).lookup k =
      (target.lookup k).or (source.lookup k) := by
  rw [lookup_mergeSchemaMap target hsource]
  cases source.lookup k with
  | none => rw [Option.or_none, Option.elim_none]
  | some value =>
    rw [Option.elim_some]
    unfold mergeValue
    rw [if_neg hk, if_neg fun h => hk' h.1, if_neg hk'']
    cases target.lookup k with
    | none => rfl
    | some old => rfl

theorem mem_addNames {item : Value} {names more : List Value} :
    item ∈ addNames names more ↔ item ∈ names ∨ item ∈ more := by
  rw [addNames]
  induction more generalizing names with
  | nil => simp
  | cons first more ih =>
    rw [List.foldl_cons, ih]
    by_cases hmem : names.contains first = true
    · rw [if_pos hmem, List.mem_cons]
      have hfirst : item = first → item ∈ names := fun h => h ▸ List.contains_iff_mem.1 hmem
      tauto
    · rw [if_neg hmem, List.mem_append, List.mem_singleton, List.mem_cons]
      tauto

theorem sorted_addProperties {properties : List (String × Value)} (h : Sorted properties)
    (more : List (String × Value)) : Sorted (addProperties properties more) := by
  rw [addProperties]
  induction more generalizing properties with
  | nil => exact h
  | cons entry more ih => exact ih (sorted_orInsert h _ _)

theorem lookup_addProperties (properties : List (String × Value)) {more : List (String × Value)}
    (hmore : Sorted more) (name : String) :
    (addProperties properties more).lookup name =
      (properties.lookup name).or (more.lookup name) := by
  have hfold := @lookup_foldl String Value _ Value (fun m (k, v) => orInsert k v m)
    (fun _ v old => some (old.getD v)) (fun target k v k' => lookup_orInsert k k' v target) more
    hmore properties name
  rw [addProperties, hfold]
  cases more.lookup name with
  | none => rw [Option.or_none, Option.elim_none]
  | some schema =>
    rw [Option.elim_some]
    cases properties.lookup name with
    | none => rfl
    | some first => rfl

/-! ## What a sanitised schema is -/

/-- The properties of an object, none if it has no `properties`. -/
def propertiesOf (map : List (String × Value)) : List (String × Value) :=
  match map.lookup "properties" with
  | some (.object properties) => properties
  | _ => []

/-- The keys of a sanitised object. -/
structure Fields (map : List (String × Value)) : Prop where
  sorted : Sorted map
  supported : ∀ key value, map.lookup key = some value → isSupportedSchemaKey key = true
  /-- The type is one that is not `null`. -/
  type : ∀ value, map.lookup "type" = some value → ∃ text, value = .string text ∧ text ≠ "null"
  /-- An array has a schema for its items. -/
  items : map.lookup "type" = some (.string "array") → map.lookup "items" ≠ none
  properties : ∀ value, map.lookup "properties" = some value → value = .object (propertiesOf map)
  properties_sorted : Sorted (propertiesOf map)

/-- A schema, or a value of one, to which sanitising does nothing. -/
inductive Sanitized : Value → Prop
  | null : Sanitized .null
  | bool (value : Bool) : Sanitized (.bool value)
  | number (n : Number) : Sanitized (.number n)
  | string (text : String) : Sanitized (.string text)
  | array {items : List Value} (hitems : ∀ item ∈ items, Sanitized item) : Sanitized (.array items)
  | object {map : List (String × Value)} (hfields : Fields map)
      (hvalues : ∀ key value, map.lookup key = some value → key ≠ "properties" → Sanitized value)
      (hschemas : ∀ name schema, (propertiesOf map).lookup name = some schema → Sanitized schema) :
      Sanitized (.object map)

/-- The values of a sanitised object are sanitised. -/
structure Parts (map : List (String × Value)) : Prop extends Fields map where
  values : ∀ key value, map.lookup key = some value → key ≠ "properties" → Sanitized value
  schemas : ∀ name schema, (propertiesOf map).lookup name = some schema → Sanitized schema

theorem sanitized_object_iff {map : List (String × Value)} :
    Sanitized (.object map) ↔ Parts map := by
  refine ⟨fun h => ?_, fun h => .object h.toFields h.values h.schemas⟩
  cases h with
  | object hfields hvalues hschemas => exact ⟨hfields, hvalues, hschemas⟩

theorem sanitized_array_iff {items : List Value} :
    Sanitized (.array items) ↔ ∀ item ∈ items, Sanitized item := by
  refine ⟨fun h => ?_, .array⟩
  cases h with
  | array hitems => exact hitems

/-! ## Merging keeps it -/

section Merge

variable {target source : List (String × Value)}

theorem addProperties_nil (properties : List (String × Value)) :
    addProperties properties [] = properties := rfl

/-- What merging makes of the properties. -/
theorem mergeValue_properties (ht : Parts target) (preserveRequired : Bool)
    (more : List (String × Value)) :
    mergeValue preserveRequired "properties" (.object more) (target.lookup "properties") =
      some (.object (addProperties (propertiesOf target) more)) := by
  unfold mergeValue
  rw [if_pos rfl]
  cases hold : target.lookup "properties" with
  | none => simp [propertiesOf, hold]
  | some value =>
    have hvalue := ht.properties value hold
    subst hvalue
    rfl

theorem lookup_properties_mergeSchemaMap (ht : Parts target) (hs : Parts source)
    (preserveRequired : Bool) :
    (mergeSchemaMap target source preserveRequired).lookup "properties" =
      if target.lookup "properties" = none ∧ source.lookup "properties" = none then none
      else some (.object (addProperties (propertiesOf target) (propertiesOf source))) := by
  rw [lookup_mergeSchemaMap target hs.sorted]
  cases hsource : source.lookup "properties" with
  | none =>
    rw [Option.elim_none]
    cases htarget : target.lookup "properties" with
    | none => rfl
    | some value =>
      have hempty : propertiesOf source = [] := by rw [propertiesOf, hsource]
      rw [if_neg (by simp), hempty, addProperties_nil, ← ht.properties value htarget]
  | some value =>
    rw [Option.elim_some, if_neg (by simp), hs.properties value hsource]
    exact mergeValue_properties ht preserveRequired (propertiesOf source)

theorem propertiesOf_mergeSchemaMap (ht : Parts target) (hs : Parts source)
    (preserveRequired : Bool) :
    propertiesOf (mergeSchemaMap target source preserveRequired) =
      addProperties (propertiesOf target) (propertiesOf source) := by
  rw [propertiesOf, lookup_properties_mergeSchemaMap ht hs]
  split
  · rename_i heq
    split at heq
    · cases heq
    · cases heq
      rfl
  · rename_i hne
    split at hne
    · rename_i hnone
      rw [propertiesOf, hnone.1, propertiesOf, hnone.2]
      rfl
    · exact absurd rfl (hne _)

/-- A value that comes out of merging sanitised values is sanitised. -/
theorem sanitized_mergeValue {preserveRequired : Bool} {key : String} (hkey : key ≠ "properties")
    {value result : Value} {old : Option Value} (hvalue : Sanitized value)
    (hold : ∀ first, old = some first → Sanitized first)
    (h : mergeValue preserveRequired key value old = some result) : Sanitized result := by
  unfold mergeValue at h
  rw [if_neg hkey] at h
  split at h
  · split at h
    · rename_i more
      have hmore := sanitized_array_iff.1 hvalue
      split at h
      · rename_i names heq
        cases h
        have hnames : ∀ item ∈ names, Sanitized item := by
          cases old with
          | none =>
            cases heq
            exact nofun
          | some first =>
            rw [Option.getD_some] at heq
            exact sanitized_array_iff.1 (heq ▸ hold first rfl)
        refine .array fun item hitem => ?_
        exact (mem_addNames.1 hitem).elim (hnames item) (hmore item)
      · rename_i hne
        cases h
        cases old with
        | none => exact absurd rfl (hne _)
        | some first => exact hold _ rfl
    · exact hold result h
  · split at h
    · split at h
      · cases h
        exact .bool true
      · exact hold result h
    · cases old with
      | none =>
        cases h
        exact hvalue
      | some first => exact hold result h

theorem Parts.mergeSchemaMap (ht : Parts target) (hs : Parts source) (preserveRequired : Bool) :
    Parts (mergeSchemaMap target source preserveRequired) := by
  have hlookup := lookup_mergeSchemaMap target hs.sorted preserveRequired
  have hproperties := propertiesOf_mergeSchemaMap ht hs preserveRequired
  have htype := lookup_mergeSchemaMap_of_plain target hs.sorted preserveRequired
    (show "type" ≠ "properties" by decide) (by decide) (by decide)
  have hitems := lookup_mergeSchemaMap_of_plain target hs.sorted preserveRequired
    (show "items" ≠ "properties" by decide) (by decide) (by decide)
  refine ⟨⟨sorted_mergeSchemaMap ht.sorted source preserveRequired, ?_, ?_, ?_, ?_, ?_⟩, ?_, ?_⟩
  · intro key value hvalue
    rw [hlookup] at hvalue
    cases hsource : source.lookup key with
    | none =>
      rw [hsource] at hvalue
      exact ht.supported key value hvalue
    | some other => exact hs.supported key other hsource
  · intro value hvalue
    rw [htype] at hvalue
    exact (Option.or_eq_some_iff.1 hvalue).elim (ht.type value) fun h => hs.type value h.2
  · -- whichever of them the type comes from has a schema for the items
    intro harray
    rw [htype] at harray
    rw [hitems]
    rcases Option.or_eq_some_iff.1 harray with htarget | ⟨-, hsource⟩
    · intro hnone
      exact ht.items htarget (Option.or_eq_none_iff.1 hnone).1
    · intro hnone
      exact hs.items hsource (Option.or_eq_none_iff.1 hnone).2
  · intro value hvalue
    rw [lookup_properties_mergeSchemaMap ht hs] at hvalue
    split at hvalue
    · cases hvalue
    · cases hvalue
      rw [hproperties]
  · rw [hproperties]
    exact sorted_addProperties ht.properties_sorted _
  · intro key value hvalue hkey
    rw [hlookup] at hvalue
    cases hsource : source.lookup key with
    | none =>
      rw [hsource] at hvalue
      exact ht.values key value hvalue hkey
    | some other =>
      rw [hsource] at hvalue
      exact sanitized_mergeValue hkey (hs.values key other hsource hkey)
        (fun first hfirst => ht.values key first hfirst hkey) hvalue
  · intro name schema hschema
    rw [hproperties, lookup_addProperties _ hs.properties_sorted] at hschema
    exact (Option.or_eq_some_iff.1 hschema).elim (ht.schemas name schema)
      fun h => hs.schemas name schema h.2

end Merge

/-! ## Variants -/

/-- The objects of a list. -/
def objectsOf : Value → List (List (String × Value))
  | .array items => items.filterMap Value.asObject
  | _ => []

/-- The variants at a key. -/
def variantsAt (key : String) (fields : List (String × Value)) : List (List (String × Value)) :=
  ((fields.lookup key).map objectsOf).getD []

/-- Merges one map after the other. -/
def mergeAll (preserveRequired : Bool) (target : List (String × Value))
    (maps : List (List (String × Value))) : List (String × Value) :=
  maps.foldl (fun target map => mergeSchemaMap target map preserveRequired) target

theorem mergeSchemaVariants_eq (target : List (String × Value)) (variants : Value)
    (preserveRequired : Bool) :
    mergeSchemaVariants target variants preserveRequired =
      mergeAll preserveRequired target (objectsOf variants) := by
  cases variants with
  | array items =>
    rw [mergeSchemaVariants, mergeAll, objectsOf, List.foldl_filterMap]
    congr 1
    funext target item
    cases item with
    | object map => rfl
    | _ => rfl
  | _ => rfl

/-- A sanitised variant is never taken for `null`. -/
theorem Fields.not_null {map : List (String × Value)} (h : Fields map) :
    ¬ (map.lookup "type" = some (.string "null") ∧ map.length = 1) := by
  rintro ⟨htype, -⟩
  obtain ⟨text, heq, hne⟩ := h.type _ htype
  cases heq
  exact hne rfl

/-- The objects of a list are merged, one after the other. -/
theorem foldl_mergeUnionVariant (state : List (String × Value) × Bool) {items : List Value}
    (h : ∀ item ∈ items, Sanitized item) :
    (items.foldl mergeUnionVariant state).1 =
      mergeAll false state.1 (items.filterMap Value.asObject) := by
  induction items generalizing state with
  | nil => rfl
  | cons item items ih =>
    have hrest : ∀ item ∈ items, Sanitized item := fun _ hmem => h _ (List.mem_cons_of_mem _ hmem)
    rw [List.foldl_cons, ih _ hrest]
    cases item with
    | object map =>
      have hmap := sanitized_object_iff.1 (h _ List.mem_cons_self)
      rw [mergeUnionVariant, if_neg hmap.not_null]
      rfl
    | string value =>
      rw [mergeUnionVariant]
      split
      · rfl
      · rfl
    | _ => rfl

theorem mergeUnionVariants_eq (target : List (String × Value)) {variants : Value}
    (h : Sanitized variants) :
    (mergeUnionVariants target variants).1 = mergeAll false target (objectsOf variants) := by
  cases variants with
  | array items => exact foldl_mergeUnionVariant (target, false) (sanitized_array_iff.1 h)
  | _ => rfl

/-- The objects of a sanitised list are sanitised. -/
theorem Sanitized.objectsOf {variants : Value} (h : Sanitized variants) :
    ∀ map ∈ objectsOf variants, Parts map := by
  intro map hmap
  cases variants with
  | array items =>
    obtain ⟨item, hitem, heq⟩ := List.mem_filterMap.1 hmap
    have hsanitized := sanitized_array_iff.1 h item hitem
    cases item with
    | object other =>
      cases heq
      exact sanitized_object_iff.1 hsanitized
    | _ => cases heq
  | _ => cases hmap

theorem Parts.mergeAll {target : List (String × Value)} (ht : Parts target)
    {maps : List (List (String × Value))} (hmaps : ∀ map ∈ maps, Parts map)
    (preserveRequired : Bool) : Parts (mergeAll preserveRequired target maps) := by
  rw [GeminiSchema.mergeAll]
  induction maps generalizing target with
  | nil => exact ht
  | cons map maps ih =>
    have hfirst := ht.mergeSchemaMap (hmaps map List.mem_cons_self) preserveRequired
    exact ih hfirst fun other hother => hmaps other (List.mem_cons_of_mem _ hother)

/-! ## Putting an object together -/

/-- The values that an object keeps as they are. -/
def ownFields (fields : List (String × Value)) : List (String × Value) :=
  fields.filter fun field => field.1 ≠ "type" ∧ isSupportedSchemaKey field.1

/-- The values of an object with those of its variants. -/
def mergedFields (fields : List (String × Value)) : List (String × Value) :=
  mergeAll false (mergeAll false (mergeAll true (ownFields fields) (variantsAt "allOf" fields))
    (variantsAt "anyOf" fields)) (variantsAt "oneOf" fields)

/-- The values of an object that are sanitised, its variants among them. -/
structure Prepared (fields : List (String × Value)) : Prop where
  sorted : Sorted fields
  values : ∀ key value, fields.lookup key = some value → key ≠ "properties" → Sanitized value
  properties : ∀ value, fields.lookup "properties" = some value →
    value = .object (propertiesOf fields)
  properties_sorted : Sorted (propertiesOf fields)
  schemas : ∀ name schema, (propertiesOf fields).lookup name = some schema → Sanitized schema

theorem mergeAllOf_eq (fields target : List (String × Value)) :
    mergeAllOf fields target = mergeAll true target (variantsAt "allOf" fields) := by
  rw [mergeAllOf, variantsAt]
  cases fields.lookup "allOf" with
  | none => rfl
  | some allOf => exact mergeSchemaVariants_eq target allOf true

theorem mergeUnion_eq {fields : List (String × Value)} (h : Prepared fields) {key : String}
    (hkey : key ≠ "properties") (target : List (String × Value)) :
    (mergeUnion key fields target).1 = mergeAll false target (variantsAt key fields) := by
  rw [mergeUnion, variantsAt]
  cases hlookup : fields.lookup key with
  | none => rfl
  | some variants => exact mergeUnionVariants_eq target (h.values key variants hlookup hkey)

theorem assemble_eq (typeValue : Option Value) {fields : List (String × Value)}
    (h : Prepared fields) : ∃ nullable,
      assemble typeValue fields =
        complete (normalizeSchemaType typeValue).1 nullable (mergedFields fields) := by
  have hassemble : assemble typeValue fields = complete (normalizeSchemaType typeValue).1 _
      (mergeUnion "oneOf" fields
        (mergeUnion "anyOf" fields (mergeAllOf fields (ownFields fields))).1).1 := rfl
  have hmerged : (mergeUnion "oneOf" fields
      (mergeUnion "anyOf" fields (mergeAllOf fields (ownFields fields))).1).1 =
      mergedFields fields := by
    rw [mergeUnion_eq h (by decide), mergeUnion_eq h (by decide), mergeAllOf_eq, mergedFields]
  exact ⟨_, hassemble.trans (congrArg _ hmerged)⟩

section Prepared

variable {fields : List (String × Value)}

theorem lookup_ownFields (fields : List (String × Value)) (key : String) :
    (ownFields fields).lookup key =
      if key ≠ "type" ∧ isSupportedSchemaKey key = true then fields.lookup key else none := by
  have hlookup := lookup_filter (fun key => decide (key ≠ "type" ∧ isSupportedSchemaKey key = true))
    fields key
  simp only [decide_eq_true_eq] at hlookup
  exact hlookup

theorem propertiesOf_ownFields (fields : List (String × Value)) :
    propertiesOf (ownFields fields) = propertiesOf fields := by
  rw [propertiesOf, lookup_ownFields, if_pos (by decide), propertiesOf]

theorem Prepared.ownFields (h : Prepared fields) : Parts (ownFields fields) := by
  have hlookup := lookup_ownFields fields
  have hproperties := propertiesOf_ownFields fields
  have htype : (GeminiSchema.ownFields fields).lookup "type" = none := by
    rw [hlookup, if_neg (by decide)]
  refine ⟨⟨sorted_filter h.sorted _, ?_, ?_, ?_, ?_, ?_⟩, ?_, ?_⟩
  · intro key value hvalue
    rw [hlookup] at hvalue
    split at hvalue
    · rename_i hkey
      exact hkey.2
    · cases hvalue
  · intro value hvalue
    rw [htype] at hvalue
    cases hvalue
  · intro harray
    rw [htype] at harray
    cases harray
  · intro value hvalue
    rw [hlookup, if_pos (by decide)] at hvalue
    rw [hproperties]
    exact h.properties value hvalue
  · rw [hproperties]
    exact h.properties_sorted
  · intro key value hvalue hkey
    rw [hlookup] at hvalue
    split at hvalue
    · exact h.values key value hvalue hkey
    · cases hvalue
  · rw [hproperties]
    exact h.schemas

theorem Prepared.variantsAt (h : Prepared fields) {key : String} (hkey : key ≠ "properties") :
    ∀ map ∈ variantsAt key fields, Parts map := by
  intro map hmap
  rw [GeminiSchema.variantsAt] at hmap
  cases hlookup : fields.lookup key with
  | none =>
    rw [hlookup] at hmap
    cases hmap
  | some variants =>
    rw [hlookup] at hmap
    exact (h.values key variants hlookup hkey).objectsOf map hmap

theorem Prepared.mergedFields (h : Prepared fields) : Parts (mergedFields fields) := by
  have hall := h.ownFields.mergeAll (h.variantsAt (show "allOf" ≠ "properties" by decide)) true
  have hany := hall.mergeAll (h.variantsAt (show "anyOf" ≠ "properties" by decide)) false
  exact hany.mergeAll (h.variantsAt (show "oneOf" ≠ "properties" by decide)) false

end Prepared

theorem Parts.insert {map : List (String × Value)} (h : Parts map) {key : String} {value : Value}
    (hkey : key ≠ "properties") (hsupported : isSupportedSchemaKey key = true)
    (htype : key = "type" → ∃ text, value = .string text ∧ text ≠ "null")
    (hitems : key = "type" → value = .string "array" → map.lookup "items" ≠ none)
    (hvalue : Sanitized value) : Parts (insert key value map) := by
  have hlookup := fun k => lookup_insert key k value map
  have hproperties : propertiesOf (SortedMap.insert key value map) = propertiesOf map := by
    rw [propertiesOf, hlookup, if_neg (Ne.symm hkey), propertiesOf]
  refine ⟨⟨sorted_insert h.sorted key value, ?_, ?_, ?_, ?_, ?_⟩, ?_, ?_⟩
  · intro k v hv
    rw [hlookup] at hv
    split at hv
    · rename_i heq
      exact heq ▸ hsupported
    · exact h.supported k v hv
  · intro v hv
    rw [hlookup] at hv
    split at hv
    · rename_i heq
      cases hv
      exact htype heq.symm
    · exact h.type v hv
  · intro harray
    rw [hlookup]
    rw [hlookup] at harray
    split at harray
    · rename_i heq
      cases harray
      rw [if_neg (by rw [← heq]; decide)]
      exact hitems heq.symm rfl
    · split
      · exact Option.some_ne_none _
      · exact h.items harray
  · intro v hv
    rw [hlookup, if_neg (Ne.symm hkey)] at hv
    rw [hproperties]
    exact h.properties v hv
  · rw [hproperties]
    exact h.properties_sorted
  · intro k v hv hk
    rw [hlookup] at hv
    split at hv
    · cases hv
      exact hvalue
    · exact h.values k v hv hk
  · rw [hproperties]
    exact h.schemas

theorem sanitized_empty : Sanitized (.object []) :=
  sanitized_object_iff.2 ⟨⟨List.Pairwise.nil, nofun, nofun, nofun, nofun, List.Pairwise.nil⟩,
    nofun, nofun⟩

/-- The type of a schema and that it may be `null` keep it sanitised. -/
theorem Parts.complete {map : List (String × Value)} (h : Parts map) {schemaType : Option String}
    (htype : schemaType ≠ some "null") (nullable : Bool) :
    Parts (complete schemaType nullable map) := by
  have hnullable : ∀ {map}, Parts map →
      Parts (if nullable = true then SortedMap.insert "nullable" (.bool true) map else map) := by
    intro map h
    split
    · exact h.insert (by decide) (by decide) (fun heq => absurd heq (by decide))
        (fun heq => absurd heq (by decide)) (.bool true)
    · exact h
  unfold GeminiSchema.complete
  apply hnullable
  cases schemaType with
  | none => exact h
  | some schemaType =>
    have hne : schemaType ≠ "null" := fun heq => htype (congrArg some heq)
    by_cases hitems : schemaType = "array" ∧ (map.lookup "items").isNone = true
    · dsimp only
      rw [if_pos hitems]
      have hwith := h.insert (show "items" ≠ "properties" by decide) (by decide)
        (fun heq => absurd heq (by decide)) (fun heq => absurd heq (by decide)) sanitized_empty
      refine hwith.insert (by decide) (by decide) (fun _ => ⟨schemaType, rfl, hne⟩)
        (fun _ _ => ?_) (.string schemaType)
      rw [lookup_insert, if_pos rfl]
      exact Option.some_ne_none _
    · dsimp only
      rw [if_neg hitems]
      refine h.insert (by decide) (by decide) (fun _ => ⟨schemaType, rfl, hne⟩)
        (fun _ harray hnone => ?_) (.string schemaType)
      cases harray
      exact hitems ⟨rfl, by rw [hnone]; rfl⟩

theorem selectType_ne (values : List String) {state : Option String × Bool}
    (hstate : state.1 ≠ some "null") :
    (values.foldl (fun (selected, nullable) value =>
      if value = "null" then (selected, true)
      else if selected.isNone then (some value, nullable)
      else (selected, nullable)) state).1 ≠ some "null" := by
  induction values generalizing state with
  | nil => exact hstate
  | cons value values ih =>
    rw [List.foldl_cons]
    apply ih
    dsimp only
    split
    · exact hstate
    · rename_i hvalue
      split
      · exact fun heq => hvalue (Option.some.inj heq)
      · exact hstate

theorem normalizeSchemaType_ne (typeValue : Option Value) :
    (normalizeSchemaType typeValue).1 ≠ some "null" := by
  unfold normalizeSchemaType
  split
  · split
    · rename_i hvalue
      exact fun heq => hvalue (Option.some.inj heq)
    · exact Option.some_ne_none _ ∘ Eq.symm
  · exact selectType_ne _ (Option.some_ne_none _ ∘ Eq.symm)
  · exact Option.some_ne_none _ ∘ Eq.symm

/-! ## Every schema that comes out is sanitised -/

theorem stripItems_eq (items : List Value) :
    stripItems items = items.map stripUnsupportedSchemaFields := by
  induction items with
  | nil => rfl
  | cons item items ih => rw [stripItems, ih, List.map_cons]

theorem stripProperties_eq (properties : List (String × Value)) :
    stripProperties properties =
      properties.map fun x => (x.1, stripUnsupportedSchemaFields x.2) := by
  induction properties with
  | nil => rfl
  | cons x properties ih => rw [stripProperties, ih, List.map_cons]

theorem lookup_stripProperties (properties : List (String × Value)) (name : String) :
    (stripProperties properties).lookup name =
      (properties.lookup name).map stripUnsupportedSchemaFields := by
  rw [stripProperties_eq, lookup_map]

theorem sorted_stripProperties {properties : List (String × Value)} (h : Sorted properties) :
    Sorted (stripProperties properties) := by
  rw [stripProperties_eq]
  exact List.pairwise_map.2 h

/-- What a value of an object becomes. -/
def stripField (key : String) (value : Value) : Option Value :=
  if key = "properties" then
    value.asObject.map fun properties => .object (stripProperties properties)
  else some (stripUnsupportedSchemaFields value)

theorem stripFields_cons (key : String) (value : Value) (map : List (String × Value)) :
    stripFields ((key, value) :: map) =
      ((stripField key value).map fun value => (key, value)).toList ++ stripFields map := by
  rw [stripField]
  by_cases hkey : key = "properties"
  · subst hkey
    rw [if_pos rfl]
    cases value with
    | object properties => rfl
    | _ => rfl
  · rw [if_neg hkey, stripFields]
    · rfl
    · exact hkey
    · exact fun _ heq => absurd heq hkey

theorem stripFields_eq (map : List (String × Value)) :
    stripFields map =
      map.filterMap fun x => (stripField x.1 x.2).map fun value => (x.1, value) := by
  induction map with
  | nil => rfl
  | cons x map ih =>
    obtain ⟨key, value⟩ := x
    rw [stripFields_cons, ih, List.filterMap_cons]
    cases stripField key value with
    | none => rfl
    | some value => rfl

theorem sorted_stripFields {map : List (String × Value)} (h : Sorted map) :
    Sorted (stripFields map) := by
  rw [stripFields_eq]
  refine List.pairwise_filterMap.2 (h.imp ?_)
  intro x y hless x' hx y' hy
  obtain ⟨value, -, rfl⟩ := Option.map_eq_some_iff.1 hx
  obtain ⟨value', -, rfl⟩ := Option.map_eq_some_iff.1 hy
  exact hless

theorem lookup_stripFields {map : List (String × Value)} (h : Sorted map) (key : String) :
    (stripFields map).lookup key = (map.lookup key).bind (stripField key) := by
  induction map with
  | nil => rfl
  | cons x map ih =>
    obtain ⟨key', value⟩ := x
    obtain ⟨hless, hsorted⟩ := List.pairwise_cons.1 h
    rw [stripFields_cons, lookup_cons, List.lookup_append, ih hsorted]
    by_cases hkey : key = key'
    · subst hkey
      have hnone : map.lookup key = none := by
        refine List.lookup_eq_none_iff.2 fun y hy => ?_
        rw [bne_iff_ne]
        exact ne_of_lt (hless y hy)
      rw [if_pos rfl, hnone, Option.bind_none, Option.bind_some, Option.or_none]
      cases stripField key value with
      | none => rfl
      | some value => exact (lookup_cons key key value []).trans (if_pos rfl)
    · rw [if_neg hkey]
      cases stripField key' value with
      | none => rfl
      | some value =>
        have hmiss := lookup_cons key key' value []
        rw [if_neg hkey] at hmiss
        change (List.lookup key [(key', value)]).or _ = _
        rw [hmiss]
        rfl

/-- The schemas of the properties are sanitised one by one. -/
theorem propertiesOf_stripFields {map : List (String × Value)} (h : Sorted map) :
    propertiesOf (stripFields map) = stripProperties (propertiesOf map) := by
  rw [propertiesOf, lookup_stripFields h, propertiesOf]
  cases map.lookup "properties" with
  | none => rfl
  | some value =>
    rw [Option.bind_some, stripField, if_pos rfl]
    cases value with
    | object properties => rfl
    | _ => rfl

/-- The values of an object are prepared if those in it are sanitised. -/
theorem prepared_stripFields {map : List (String × Value)} (h : Value.Canonical (.object map))
    (hinner : ∀ inner, sizeOf inner < sizeOf (Value.object map) → inner.Canonical →
      Sanitized (stripUnsupportedSchemaFields inner)) : Prepared (stripFields map) := by
  cases h with
  | object hsorted hmembers =>
    have hlookup := lookup_stripFields hsorted
    have hproperties := propertiesOf_stripFields hsorted
    have hobject : ∀ properties, map.lookup "properties" = some (.object properties) →
        Sorted properties ∧ ∀ name schema, properties.lookup name = some schema →
          Sanitized (stripUnsupportedSchemaFields schema) := by
      intro properties hmem
      have hsize := Value.sizeOf_lt_object (mem_of_lookup hmem)
      cases hmembers _ _ (mem_of_lookup hmem) with
      | object hsorted' hschemas =>
        refine ⟨hsorted', fun name schema hschema => ?_⟩
        have hsize' := Value.sizeOf_lt_object (mem_of_lookup hschema)
        exact hinner schema (hsize'.trans hsize) (hschemas name schema (mem_of_lookup hschema))
    have hown : ∀ {P : List (String × Value) → Prop}, P [] →
        (∀ properties, map.lookup "properties" = some (.object properties) → P properties) →
        P (propertiesOf map) := by
      intro P hnil hsome
      rw [propertiesOf]
      split
      · rename_i properties heq
        exact hsome properties heq
      · exact hnil
    refine ⟨sorted_stripFields hsorted, ?_, ?_, ?_, ?_⟩
    · intro key value hvalue hkey
      rw [hlookup] at hvalue
      obtain ⟨raw, hraw, hfield⟩ := Option.bind_eq_some_iff.1 hvalue
      rw [stripField, if_neg hkey] at hfield
      cases hfield
      have hmem := mem_of_lookup hraw
      exact hinner raw (Value.sizeOf_lt_object hmem) (hmembers key raw hmem)
    · intro value hvalue
      rw [hproperties]
      rw [hlookup] at hvalue
      obtain ⟨raw, hraw, hfield⟩ := Option.bind_eq_some_iff.1 hvalue
      rw [stripField, if_pos rfl] at hfield
      cases raw with
      | object properties =>
        cases hfield
        rw [propertiesOf, hraw]
      | _ => cases hfield
    · rw [hproperties]
      apply sorted_stripProperties
      exact hown List.Pairwise.nil fun properties hmem => (hobject properties hmem).1
    · intro name schema hschema
      rw [hproperties, lookup_stripProperties] at hschema
      obtain ⟨raw, hraw, rfl⟩ := Option.map_eq_some_iff.1 hschema
      revert hraw
      refine hown (P := fun properties => properties.lookup name = some raw → _) nofun ?_
      exact fun properties hmem => (hobject properties hmem).2 name raw

/-- Whatever the schema is, what comes out is sanitised. -/
theorem sanitized_stripUnsupportedSchemaFields (value : Value) :
    value.Canonical → Sanitized (stripUnsupportedSchemaFields value) := by
  refine value.inductionOnSize (P := fun value => value.Canonical →
    Sanitized (stripUnsupportedSchemaFields value)) fun value ih hcanonical => ?_
  cases value with
  | null => exact .null
  | bool value => exact .bool value
  | number n => exact .number n
  | string text => exact .string text
  | array items =>
    rw [stripUnsupportedSchemaFields, stripItems_eq]
    cases hcanonical with
    | array hitems =>
      refine .array fun item hitem => ?_
      obtain ⟨raw, hraw, rfl⟩ := List.mem_map.1 hitem
      exact ih raw (Value.sizeOf_lt_array hraw) (hitems raw hraw)
  | object map =>
    rw [stripUnsupportedSchemaFields]
    have hprepared := prepared_stripFields hcanonical ih
    obtain ⟨nullable, hassemble⟩ := assemble_eq (map.lookup "type") hprepared
    rw [hassemble, sanitized_object_iff]
    exact hprepared.mergedFields.complete (normalizeSchemaType_ne _) nullable

/-! ## Sanitising again -/

/-- Putting together a sanitised object, which has no variants. -/
theorem Parts.assemble_eq {map : List (String × Value)} (h : Parts map) :
    assemble (map.lookup "type") map = map := by
  have hno : ∀ key, isSupportedSchemaKey key = false → map.lookup key = none := by
    intro key hkey
    cases hlookup : map.lookup key with
    | none => rfl
    | some value => exact absurd (h.supported key value hlookup) (by rw [hkey]; decide)
  have hown : ∀ key, key ≠ "type" → (GeminiSchema.ownFields map).lookup key = map.lookup key := by
    intro key hkey
    rw [lookup_ownFields]
    split
    · rfl
    · rename_i hnot
      refine (hno key ?_).symm
      exact Bool.eq_false_iff.2 fun hsupported => hnot ⟨hkey, hsupported⟩
  have hassemble : assemble (map.lookup "type") map =
      GeminiSchema.complete (normalizeSchemaType (map.lookup "type")).1
        (normalizeSchemaType (map.lookup "type")).2 (ownFields map) := by
    rw [assemble, mergeAllOf, hno "allOf" (by decide)]
    dsimp only
    rw [mergeUnion, hno "anyOf" (by decide)]
    dsimp only
    rw [mergeUnion, hno "oneOf" (by decide)]
    dsimp only
    rw [Bool.or_false, Bool.or_false, ownFields]
  rw [hassemble]
  cases htype : map.lookup "type" with
  | none =>
    refine SortedMap.ext (sorted_filter h.sorted _) h.sorted fun key => ?_
    by_cases hkey : key = "type"
    · subst hkey
      exact (lookup_ownFields map "type").trans ((if_neg (by decide)).trans htype.symm)
    · exact hown key hkey
  | some value =>
    obtain ⟨text, rfl, hne⟩ := h.type value htype
    rw [normalizeSchemaType, if_pos hne, GeminiSchema.complete]
    dsimp only
    have hitems : ¬ (text = "array" ∧
        ((GeminiSchema.ownFields map).lookup "items").isNone = true) := by
      rintro ⟨rfl, hnone⟩
      rw [hown "items" (by decide), Option.isNone_iff_eq_none] at hnone
      exact h.items htype hnone
    rw [if_neg hitems, if_neg Bool.false_ne_true]
    refine SortedMap.ext (sorted_insert (sorted_filter h.sorted _) _ _) h.sorted fun key => ?_
    rw [lookup_insert]
    split
    · rename_i hkey
      rw [hkey, htype]
    · rename_i hkey
      exact hown key hkey

/-- Sanitising does nothing to what is sanitised. -/
theorem Sanitized.strip_eq {value : Value} (h : Sanitized value) :
    stripUnsupportedSchemaFields value = value := by
  induction h with
  | null => rfl
  | bool value => rfl
  | number n => rfl
  | string text => rfl
  | @array items hitems ih =>
    rw [stripUnsupportedSchemaFields, stripItems_eq]
    exact congrArg _ ((List.map_congr_left ih).trans (List.map_id' items))
  | @object map hfields hvalues hschemas ihvalues ihschemas =>
    have hproperties : stripProperties (propertiesOf map) = propertiesOf map := by
      refine SortedMap.ext (sorted_stripProperties hfields.properties_sorted)
        hfields.properties_sorted fun name => ?_
      rw [lookup_stripProperties]
      cases hlookup : (propertiesOf map).lookup name with
      | none => rfl
      | some schema => rw [Option.map_some, ihschemas name schema hlookup]
    have hmap : stripFields map = map := by
      refine SortedMap.ext (sorted_stripFields hfields.sorted) hfields.sorted fun key => ?_
      rw [lookup_stripFields hfields.sorted]
      cases hlookup : map.lookup key with
      | none => rfl
      | some value =>
        rw [Option.bind_some, stripField]
        split
        · rename_i hkey
          subst hkey
          rw [hfields.properties value hlookup, Value.asObject, Option.map_some, hproperties]
        · rename_i hkey
          rw [ihvalues key value hlookup hkey]
    rw [stripUnsupportedSchemaFields, hmap]
    exact congrArg _ (Parts.assemble_eq ⟨hfields, hvalues, hschemas⟩)

end GeminiSchema

end OpenBitFun
