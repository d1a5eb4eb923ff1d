import OpenBitFun.GeminiSchemaSanitized

/-!
# What a sanitised schema says

No property is lost on the way, be it one of the schema or of a variant. What is `required` comes
from the schema and its `allOf` members, and also from the variants of a union: if neither the
schema nor its `allOf` members say what is required, the first variant does that says it.
-/

namespace OpenBitFun

open List

namespace GeminiSchema

open SortedMap Json

/-! ## Positions of a schema -/

/-- The schemas in a schema. -/
inductive Position (root : Value) : Value → Prop
  | root : Position root root
  | property {map properties : List (String × Value)} {name : String} {schema : Value}
      (h : Position root (.object map))
      (hproperties : map.lookup "properties" = some (.object properties))
      (hmem : (name, schema) ∈ properties) : Position root schema
  | items {map : List (String × Value)} {schema : Value} (h : Position root (.object map))
      (hitems : map.lookup "items" = some schema) : Position root schema
  | element {items : List Value} {schema : Value} (h : Position root (.array items))
      (hmem : schema ∈ items) : Position root schema

/-- The schemas in a sanitised schema are sanitised. -/
theorem Sanitized.position {root schema : Value} (hroot : Sanitized root)
    (h : Position root schema) : Sanitized schema := by
  induction h with
  | root => exact hroot
  | property _ hproperties hmem ih =>
    have hparts := sanitized_object_iff.1 ih
    have heq := hparts.properties _ hproperties
    cases heq
    exact hparts.schemas _ _ (lookup_of_mem hparts.properties_sorted hmem)
  | items _ hitems ih =>
    exact (sanitized_object_iff.1 ih).values _ _ hitems (by decide)
  | element _ hmem ih => exact sanitized_array_iff.1 ih _ hmem

/-- What Gemini takes as an object of a schema. -/
structure Accepted (map : List (String × Value)) : Prop where
  supported : ∀ key value, (key, value) ∈ map → isSupportedSchemaKey key = true
  type : ∀ value, map.lookup "type" = some value → ∃ text, value = .string text ∧ text ≠ "null"
  items : map.lookup "type" = some (.string "array") → ∃ schema, map.lookup "items" = some schema

theorem Parts.accepted {map : List (String × Value)} (h : Parts map) : Accepted map where
  supported := fun key value hmem => h.supported key value (lookup_of_mem h.sorted hmem)
  type := h.type
  items := fun harray => Option.ne_none_iff_exists'.1 (h.items harray)

/-! ## Properties -/

/-- An object lists a property. -/
def ListsProperty (schema : Value) (name : String) : Prop :=
  ∃ map properties value, schema = .object map ∧
    map.lookup "properties" = some (.object properties) ∧ (name, value) ∈ properties

/-- A schema, or a member of `allOf`, or a variant of a union, lists a property. -/
inductive HasProperty : Value → String → Prop
  | own {schema : Value} {name : String} (h : ListsProperty schema name) : HasProperty schema name
  | variant {map : List (String × Value)} {key name : String} {variants : List Value}
      {variant : Value} (hkey : key ∈ ["allOf", "anyOf", "oneOf"])
      (hvariants : map.lookup key = some (.array variants)) (hmem : variant ∈ variants)
      (h : HasProperty variant name) : HasProperty (.object map) name

theorem listsProperty_iff {map : List (String × Value)} {name : String} :
    ListsProperty (.object map) name ↔ ((propertiesOf map).lookup name).isSome = true := by
  rw [lookup_isSome_iff, propertiesOf]
  refine ⟨?_, fun h => ?_⟩
  · rintro ⟨map', properties, value, heq, hproperties, hmem⟩
    cases heq
    rw [hproperties]
    exact ⟨_, hmem, beq_self_eq_true name⟩
  · obtain ⟨⟨other, value⟩, hmem, hname⟩ := h
    obtain rfl := beq_iff_eq.1 hname
    split at hmem
    · rename_i properties heq
      exact ⟨map, properties, value, rfl, heq, hmem⟩
    · cases hmem

/-- After merging, the properties are those of the target and of the maps. -/
theorem lookup_propertiesOf_mergeAll {target : List (String × Value)} (ht : Parts target)
    {maps : List (List (String × Value))} (hmaps : ∀ map ∈ maps, Parts map)
    (preserveRequired : Bool) (name : String) :
    ((propertiesOf (mergeAll preserveRequired target maps)).lookup name).isSome = true ↔
      ((propertiesOf target).lookup name).isSome = true ∨
        ∃ map ∈ maps, ((propertiesOf map).lookup name).isSome = true := by
  rw [mergeAll]
  induction maps generalizing target with
  | nil => simp
  | cons map maps ih =>
    have hmap := hmaps map mem_cons_self
    have hrest : ∀ map ∈ maps, Parts map := fun other h => hmaps other (mem_cons_of_mem _ h)
    rw [foldl_cons, ih (ht.mergeSchemaMap hmap preserveRequired) hrest,
      propertiesOf_mergeSchemaMap ht hmap, lookup_addProperties _ hmap.properties_sorted,
      Option.isSome_or, Bool.or_eq_true, exists_mem_cons_iff, or_assoc]

theorem propertiesOf_insert {key : String} (hkey : key ≠ "properties") (value : Value)
    (map : List (String × Value)) : propertiesOf (insert key value map) = propertiesOf map := by
  rw [propertiesOf, lookup_insert, if_neg (Ne.symm hkey), propertiesOf]

theorem propertiesOf_complete (schemaType : Option String) (nullable : Bool)
    (map : List (String × Value)) :
    propertiesOf (complete schemaType nullable map) = propertiesOf map := by
  have hnullable : ∀ map, propertiesOf (if nullable = true then
      insert "nullable" (.bool true) map else map) = propertiesOf map := by
    intro map
    split
    · exact propertiesOf_insert (by decide) _ map
    · rfl
  unfold complete
  rw [hnullable]
  cases schemaType with
  | none => rfl
  | some schemaType =>
    dsimp only
    rw [propertiesOf_insert (by decide)]
    split
    · exact propertiesOf_insert (by decide) _ map
    · rfl

/-- The variants of an object that is stripped are the variants, stripped. -/
theorem mem_variantsAt_stripFields {map : List (String × Value)} (h : Sorted map) {key : String}
    (hkey : key ≠ "properties") {variant : List (String × Value)} :
    variant ∈ variantsAt key (stripFields map) ↔ ∃ items, map.lookup key = some (.array items) ∧
      ∃ item ∈ items, stripUnsupportedSchemaFields item = .object variant := by
  rw [variantsAt, lookup_stripFields h]
  cases map.lookup key with
  | none => simp
  | some value =>
    rw [Option.bind_some, stripField, if_neg hkey, Option.map_some, Option.getD_some]
    cases value with
    | array items =>
      rw [stripUnsupportedSchemaFields, stripItems_eq, objectsOf, filterMap_map,
        mem_filterMap]
      refine ⟨?_, ?_⟩
      · rintro ⟨item, hitem, heq⟩
        refine ⟨items, rfl, item, hitem, ?_⟩
        rw [Function.comp_apply] at heq
        cases hitem' : stripUnsupportedSchemaFields item with
        | object other =>
          rw [hitem'] at heq
          exact congrArg _ (Option.some.inj heq)
        | _ =>
          rw [hitem'] at heq
          cases heq
      · rintro ⟨items', heq, item, hitem, hobject⟩
        cases heq
        refine ⟨item, hitem, ?_⟩
        rw [Function.comp_apply, hobject]
        rfl
    | _ => simp [stripUnsupportedSchemaFields, objectsOf]

/-- The properties of a schema that comes out are those of the schema and of its variants. -/
theorem listsProperty_iff_hasProperty (schema : Value) (h : schema.Canonical) (name : String) :
    ListsProperty (stripUnsupportedSchemaFields schema) name ↔ HasProperty schema name := by
  revert h
  refine schema.inductionOnSize (P := fun schema => schema.Canonical →
    (ListsProperty (stripUnsupportedSchemaFields schema) name ↔ HasProperty schema name))
    fun schema ih hcanonical => ?_
  cases schema with
  | object map =>
    have hprepared := prepared_stripFields hcanonical
      fun inner _ hinner => sanitized_stripUnsupportedSchemaFields inner hinner
    have hown := hprepared.ownFields
    have hvariants := fun {key} hkey => @Prepared.variantsAt _ hprepared key hkey
    have hall := hown.mergeAll (hvariants (show "allOf" ≠ "properties" by decide)) true
    have hany := hall.mergeAll (hvariants (show "anyOf" ≠ "properties" by decide)) false
    obtain ⟨nullable, hassemble⟩ := assemble_eq (map.lookup "type") hprepared
    cases hcanonical with
    | object hsorted hmembers =>
      have hstrip : ((stripProperties (propertiesOf map)).lookup name).isSome = true ↔
          ListsProperty (.object map) name := by
        rw [listsProperty_iff, lookup_stripProperties, Option.isSome_map]
      -- a variant that lists the property when it is stripped has it
      have hkey : ∀ key, key ∈ ["allOf", "anyOf", "oneOf"] →
          ((∃ variant ∈ variantsAt key (stripFields map),
            ((propertiesOf variant).lookup name).isSome = true) ↔
          ∃ items, map.lookup key = some (.array items) ∧
            ∃ item ∈ items, HasProperty item name) := by
        intro key hkey
        have hne : key ≠ "properties" := by
          rintro rfl
          exact absurd hkey (by decide)
        have hinner : ∀ items, map.lookup key = some (.array items) → ∀ item ∈ items,
            (ListsProperty (stripUnsupportedSchemaFields item) name ↔ HasProperty item name) := by
          intro items hitems item hitem
          have hmem := mem_of_lookup hitems
          have hsize := (Value.sizeOf_lt_array hitem).trans (Value.sizeOf_lt_object hmem)
          cases hmembers _ _ hmem with
          | array hall => exact ih item hsize (hall item hitem)
        refine ⟨?_, ?_⟩
        · rintro ⟨variant, hvariant, hlists⟩
          obtain ⟨items, hitems, item, hitem, hobject⟩ :=
            (mem_variantsAt_stripFields hsorted hne).1 hvariant
          refine ⟨items, hitems, item, hitem, (hinner items hitems item hitem).1 ?_⟩
          rw [hobject]
          exact listsProperty_iff.2 hlists
        · rintro ⟨items, hitems, item, hitem, hhas⟩
          have hlists := (hinner items hitems item hitem).2 hhas
          obtain ⟨variant, properties, value, hobject, -⟩ := id hlists
          refine ⟨variant, (mem_variantsAt_stripFields hsorted hne).2
            ⟨items, hitems, item, hitem, hobject⟩, ?_⟩
          rw [hobject] at hlists
          exact listsProperty_iff.1 hlists
      rw [stripUnsupportedSchemaFields, hassemble, listsProperty_iff, propertiesOf_complete,
        mergedFields, lookup_propertiesOf_mergeAll hany (hvariants (by decide)),
        lookup_propertiesOf_mergeAll hall (hvariants (by decide)),
        lookup_propertiesOf_mergeAll hown (hvariants (by decide)), propertiesOf_ownFields,
        propertiesOf_stripFields hsorted, hstrip, hkey "allOf" (by decide),
        hkey "anyOf" (by decide), hkey "oneOf" (by decide)]
      refine ⟨?_, fun hhas => ?_⟩
      · rintro (((hlists | ⟨items, hitems, item, hitem, hhas⟩) |
          ⟨items, hitems, item, hitem, hhas⟩) | ⟨items, hitems, item, hitem, hhas⟩)
        · exact .own hlists
        · exact .variant (by decide) hitems hitem hhas
        · exact .variant (by decide) hitems hitem hhas
        · exact .variant (by decide) hitems hitem hhas
      · cases hhas with
        | own hlists => exact .inl (.inl (.inl hlists))
        | @variant _ key _ variants variant hkey hitems hitem hhas =>
          have hwith : ∃ items, map.lookup key = some (.array items) ∧
            ∃ item ∈ items, HasProperty item name := ⟨variants, hitems, variant, hitem, hhas⟩
          simp only [mem_cons, not_mem_nil, or_false] at hkey
          rcases hkey with rfl | rfl | rfl
          · exact .inl (.inl (.inr hwith))
          · exact .inl (.inr hwith)
          · exact .inr hwith
  | _ =>
    refine ⟨?_, fun hhas => ?_⟩
    · rintro ⟨map, properties, value, hobject, -⟩
      cases hobject
    · cases hhas with
      | own hlists =>
        obtain ⟨map, properties, value, hobject, -⟩ := hlists
        cases hobject

/-! ## What is required -/

/-- An object lists a name in `required`. -/
def ListsRequired (schema : Value) (name : String) : Prop :=
  ∃ map names, schema = .object map ∧ map.lookup "required" = some (.array names) ∧
    .string name ∈ names

/-- A schema, or one of its `allOf` members, requires a property. -/
inductive Requires : Value → String → Prop
  | own {schema : Value} {name : String} (h : ListsRequired schema name) : Requires schema name
  | allOf {map : List (String × Value)} {name : String} {variants : List Value} {variant : Value}
      (hvariants : map.lookup "allOf" = some (.array variants)) (hmem : variant ∈ variants)
      (h : Requires variant name) : Requires (.object map) name

/-- What an object says in `required`: nothing, something that is no list, or a list, with the names
that the schema and its `allOf` members give and those that come from a variant of a union. -/
inductive Requirement where
  | absent
  | malformed
  | names (own variants : List String)
  deriving DecidableEq, Repr

namespace Requirement

/-- The names that come from a variant of a union. -/
def variants : Requirement → List String
  | .names _ variants => variants
  | _ => []

/-- The names that the schema and its `allOf` members give. -/
def own : Requirement → List String
  | .names own _ => own
  | _ => []

/-- A member of `allOf` adds its names to a list. -/
def join : Requirement → Requirement → Requirement
  | .absent, .names own variants => .names own variants
  | .names own variants, .names own' variants' => .names (own ++ own') (variants ++ variants')
  | target, _ => target

/-- A variant of a union is asked if nothing has been said. -/
def orVariant : Requirement → Requirement → Requirement
  | .absent, .names own variants => .names [] (own ++ variants)
  | .absent, other => other
  | target, _ => target

end Requirement

/-- What the schema itself says. -/
def ownRequirement : Option Value → Requirement
  | none => .absent
  | some (.array names) => .names (names.filterMap Value.asStr) []
  | some _ => .malformed

/-- What is said at the keys of an object with variants. -/
def variantRequirement (key : String) (fields : List (String × List Requirement)) :
    List Requirement := (fields.lookup key).getD []

mutual

/-- What the schema that is sanitised says in `required`. -/
def requirement : Value → Requirement
  | .object map =>
    let fields := fieldRequirements map
    let own := ownRequirement (map.lookup "required")
    let joined := (variantRequirement "allOf" fields).foldl Requirement.join own
    let joined := (variantRequirement "anyOf" fields).foldl Requirement.orVariant joined
    (variantRequirement "oneOf" fields).foldl Requirement.orVariant joined
  | _ => .absent

/-- What the lists of an object say, item by item. -/
def fieldRequirements : List (String × Value) → List (String × List Requirement)
  | [] => []
  | (key, value) :: map => (key, listRequirements value) :: fieldRequirements map

/-- What a list says. -/
def listRequirements : Value → List Requirement
  | .array items => itemRequirements items
  | _ => []

/-- What the items of a list say. -/
def itemRequirements : List Value → List Requirement
  | [] => []
  | item :: items => requirement item :: itemRequirements items

end

/-- What is known of the value at `required`. -/
def Describes : Requirement → Option Value → Prop
  | .absent, value => value = none
  | .malformed, value => ∃ other, value = some other ∧ ∀ names, other ≠ .array names
  | .names own variants, value => ∃ names, value = some (.array names) ∧
    ∀ name, .string name ∈ names ↔ name ∈ own ∨ name ∈ variants

theorem asStr_eq_some {value : Value} {text : String} :
    value.asStr = some text ↔ value = .string text := by
  cases value with
  | string other => exact ⟨fun h => congrArg _ (Option.some.inj h), fun h => by cases h; rfl⟩
  | _ => exact ⟨nofun, nofun⟩

theorem strip_eq_string {value : Value} {text : String} :
    stripUnsupportedSchemaFields value = .string text ↔ value = .string text := by
  cases value with
  | object map => simp [stripUnsupportedSchemaFields]
  | array items => simp [stripUnsupportedSchemaFields]
  | _ => rfl

/-- What the schema itself says of its `required` is said of it when it is stripped. -/
theorem describes_ownRequirement (value : Option Value) :
    Describes (ownRequirement value) (value.map stripUnsupportedSchemaFields) := by
  cases value with
  | none => rfl
  | some value =>
    cases value with
    | array names =>
      refine ⟨stripItems names, rfl, fun name => ?_⟩
      rw [stripItems_eq, mem_map, mem_filterMap]
      simp only [strip_eq_string, asStr_eq_some, not_mem_nil, or_false]
    | object map => exact ⟨_, rfl, fun names => nofun⟩
    | null => exact ⟨_, rfl, fun names => nofun⟩
    | bool value => exact ⟨_, rfl, fun names => nofun⟩
    | number n => exact ⟨_, rfl, fun names => nofun⟩
    | string text => exact ⟨_, rfl, fun names => nofun⟩

section Describes

variable {r r' : Requirement} {old new : Option Value}

theorem Describes.join (h : Describes r old) (h' : Describes r' new) :
    Describes (r.join r') (new.elim old fun value => mergeValue true "required" value old) := by
  cases r' with
  | absent =>
    cases h'
    cases r with
    | absent => exact h
    | malformed => exact h
    | names own variants => exact h
  | malformed =>
    obtain ⟨other, rfl, hother⟩ := h'
    have hmerge : mergeValue true "required" other old = old := by
      unfold mergeValue
      rw [if_neg (by decide), if_pos ⟨rfl, rfl⟩]
      cases other with
      | array names => exact absurd rfl (hother names)
      | _ => rfl
    rw [Option.elim_some, hmerge]
    cases r with
    | absent => exact h
    | malformed => exact h
    | names own variants => exact h
  | names own' variants' =>
    obtain ⟨more, rfl, hmore⟩ := h'
    rw [Option.elim_some]
    unfold mergeValue
    rw [if_neg (by decide), if_pos ⟨rfl, rfl⟩]
    cases r with
    | absent =>
      cases h
      refine ⟨addNames [] more, rfl, fun name => ?_⟩
      rw [mem_addNames, hmore]
      simp
    | malformed =>
      obtain ⟨other, rfl, hother⟩ := h
      cases other with
      | array names => exact absurd rfl (hother names)
      | _ => exact ⟨_, rfl, hother⟩
    | names own variants =>
      obtain ⟨names, rfl, hnames⟩ := h
      refine ⟨addNames names more, rfl, fun name => ?_⟩
      rw [mem_addNames, hnames, hmore, mem_append, mem_append]
      tauto

theorem Describes.orVariant (h : Describes r old) (h' : Describes r' new) :
    Describes (r.orVariant r')
      (new.elim old fun value => mergeValue false "required" value old) := by
  have hmerge : ∀ value, mergeValue false "required" value old = some (old.getD value) := by
    intro value
    unfold mergeValue
    rw [if_neg (by decide), if_neg (by decide), if_neg (by decide)]
  simp only [hmerge]
  cases r with
  | absent =>
    cases h
    cases r' with
    | absent =>
      cases h'
      exact (rfl : none = none)
    | malformed =>
      obtain ⟨other, rfl, hother⟩ := h'
      exact ⟨other, rfl, hother⟩
    | names own variants =>
      obtain ⟨names, rfl, hnames⟩ := h'
      refine ⟨names, rfl, fun name => ?_⟩
      rw [hnames, mem_append]
      simp
  | malformed =>
    obtain ⟨other, rfl, hother⟩ := h
    cases new with
    | none => exact ⟨other, rfl, hother⟩
    | some value => exact ⟨other, rfl, hother⟩
  | names own variants =>
    obtain ⟨names, rfl, hnames⟩ := h
    cases new with
    | none => exact ⟨names, rfl, hnames⟩
    | some value => exact ⟨names, rfl, hnames⟩

end Describes

/-- What an item says, sanitised: an object says it at `required`, and nothing else is merged. -/
def ItemDescribes (item : Value) : Prop :=
  match stripUnsupportedSchemaFields item with
  | .object map => Parts map ∧ Describes (requirement item) (map.lookup "required")
  | _ => requirement item = .absent

theorem lookup_mergeSchemaMap_required (target : List (String × Value))
    {source : List (String × Value)} (hsource : Parts source) (preserveRequired : Bool) :
    (mergeSchemaMap target source preserveRequired).lookup "required" =
      (source.lookup "required").elim (target.lookup "required") fun value =>
        mergeValue preserveRequired "required" value (target.lookup "required") :=
  lookup_mergeSchemaMap target hsource.sorted preserveRequired "required"

theorem describes_mergeAll {preserveRequired : Bool}
    {add : Requirement → Requirement → Requirement}
    (hadd : ∀ {r r' old new}, Describes r old → Describes r' new → Describes (add r r')
      (new.elim old fun value => mergeValue preserveRequired "required" value old))
    (habsent : ∀ r, add r .absent = r) {items : List Value} (hitems : ∀ item ∈ items,
      ItemDescribes item) {target : List (String × Value)} {r : Requirement}
    (h : Describes r (target.lookup "required")) :
    Describes ((itemRequirements items).foldl add r)
      ((mergeAll preserveRequired target (objectsOf (.array (stripItems items)))).lookup
        "required") := by
  rw [mergeAll, objectsOf]
  induction items generalizing target r with
  | nil => exact h
  | cons item items ih =>
    have hfirst := hitems item mem_cons_self
    have hrest : ∀ item ∈ items, ItemDescribes item := fun other hother =>
      hitems other (mem_cons_of_mem _ hother)
    rw [itemRequirements, foldl_cons, stripItems]
    rw [ItemDescribes] at hfirst
    cases hstrip : stripUnsupportedSchemaFields item with
    | object map =>
      rw [hstrip] at hfirst
      change Describes _ ((List.foldl _ (mergeSchemaMap target map preserveRequired)
        ((stripItems items).filterMap Value.asObject)).lookup "required")
      apply ih hrest
      rw [lookup_mergeSchemaMap_required target hfirst.1]
      exact hadd h hfirst.2
    | _ =>
      rw [hstrip] at hfirst
      rw [show requirement item = .absent from hfirst, habsent]
      exact ih hrest h

theorem join_absent (r : Requirement) : r.join .absent = r := by
  cases r with
  | absent => rfl
  | malformed => rfl
  | names own variants => rfl

theorem orVariant_absent (r : Requirement) : r.orVariant .absent = r := by
  cases r with
  | absent => rfl
  | malformed => rfl
  | names own variants => rfl

theorem fieldRequirements_eq (map : List (String × Value)) :
    fieldRequirements map = map.map fun x => (x.1, listRequirements x.2) := by
  induction map with
  | nil => rfl
  | cons x map ih => rw [fieldRequirements, ih, map_cons]

/-- The items at a key, none if there is no list. -/
def itemsAt (key : String) (map : List (String × Value)) : List Value :=
  match map.lookup key with
  | some (.array items) => items
  | _ => []

theorem variantRequirement_eq (key : String) (map : List (String × Value)) :
    variantRequirement key (fieldRequirements map) = itemRequirements (itemsAt key map) := by
  rw [variantRequirement, fieldRequirements_eq, lookup_map, itemsAt]
  cases map.lookup key with
  | none => rfl
  | some value =>
    cases value with
    | array items => rfl
    | _ => rfl

theorem variantsAt_eq {key : String} (hkey : key ≠ "properties") {map : List (String × Value)}
    (h : Sorted map) :
    variantsAt key (stripFields map) = objectsOf (.array (stripItems (itemsAt key map))) := by
  rw [variantsAt, lookup_stripFields h, itemsAt]
  cases map.lookup key with
  | none => rfl
  | some value =>
    rw [Option.bind_some, stripField, if_neg hkey]
    cases value with
    | array items => rfl
    | object map => rfl
    | _ => rfl

theorem lookup_required_complete (schemaType : Option String) (nullable : Bool)
    (map : List (String × Value)) :
    (complete schemaType nullable map).lookup "required" = map.lookup "required" := by
  have hnullable : ∀ map : List (String × Value), (if nullable = true then
      insert "nullable" (.bool true) map else map).lookup "required" =
        map.lookup "required" := by
    intro map
    split
    · rw [lookup_insert, if_neg (by decide)]
    · rfl
  unfold complete
  rw [hnullable]
  cases schemaType with
  | none => rfl
  | some schemaType =>
    dsimp only
    rw [lookup_insert, if_neg (by decide)]
    split
    · rw [lookup_insert, if_neg (by decide)]
    · rfl

/-- What is said of a schema is what it says in `required` when it is sanitised. -/
theorem itemDescribes (schema : Value) (h : schema.Canonical) : ItemDescribes schema := by
  revert h
  refine schema.inductionOnSize (P := fun schema => schema.Canonical → ItemDescribes schema)
    fun schema ih hcanonical => ?_
  cases schema with
  | object map =>
    have hprepared := prepared_stripFields hcanonical
      fun inner _ hinner => sanitized_stripUnsupportedSchemaFields inner hinner
    have hparts := sanitized_object_iff.1 (stripUnsupportedSchemaFields.eq_1 map ▸
      sanitized_stripUnsupportedSchemaFields _ hcanonical)
    obtain ⟨nullable, hassemble⟩ := assemble_eq (map.lookup "type") hprepared
    rw [ItemDescribes, stripUnsupportedSchemaFields]
    refine ⟨hparts, ?_⟩
    cases hcanonical with
    | object hsorted hmembers =>
      have hitems : ∀ key, ∀ item ∈ itemsAt key map, ItemDescribes item := by
        intro key item hitem
        rw [itemsAt] at hitem
        split at hitem
        · rename_i items hlookup
          have hmem := mem_of_lookup hlookup
          have hsize := (Value.sizeOf_lt_array hitem).trans (Value.sizeOf_lt_object hmem)
          cases hmembers _ _ hmem with
          | array hall => exact ih item hsize (hall item hitem)
        · cases hitem
      have hown : Describes (ownRequirement (map.lookup "required"))
          ((ownFields (stripFields map)).lookup "required") := by
        have hfield : stripField "required" = fun value => some (stripUnsupportedSchemaFields value)
            := by
          funext value
          rw [stripField, if_neg (by decide)]
        rw [lookup_ownFields, if_pos (by decide), lookup_stripFields hsorted, hfield]
        have hdescribes := describes_ownRequirement (map.lookup "required")
        cases hlookup : map.lookup "required" with
        | none => rfl
        | some value =>
          rw [hlookup] at hdescribes
          exact hdescribes
      rw [hassemble, lookup_required_complete, mergedFields, requirement]
      rw [variantsAt_eq (by decide) hsorted, variantsAt_eq (by decide) hsorted,
        variantsAt_eq (by decide) hsorted, variantRequirement_eq, variantRequirement_eq,
        variantRequirement_eq]
      have hall := describes_mergeAll Describes.join join_absent (hitems "allOf") hown
      have hany := describes_mergeAll Describes.orVariant orVariant_absent (hitems "anyOf") hall
      exact describes_mergeAll Describes.orVariant orVariant_absent (hitems "oneOf") hany
  | _ => rfl

/-- What is required by the schema itself or an `allOf` member is so. -/
theorem requires_of_mem_own (schema : Value) :
    ∀ name ∈ (requirement schema).own, Requires schema name := by
  refine schema.inductionOnSize (P := fun schema =>
    ∀ name ∈ (requirement schema).own, Requires schema name) fun schema ih name hname => ?_
  have hunion : ∀ (items : List Value) (r : Requirement),
      name ∈ ((itemRequirements items).foldl Requirement.orVariant r).own → name ∈ r.own := by
    intro items
    induction items with
    | nil => exact fun r h => h
    | cons item items ih =>
      intro r h
      have hrest := ih _ h
      revert hrest
      cases r with
      | absent =>
        cases requirement item with
        | absent => exact id
        | malformed => exact id
        | names own variants => exact nofun
      | malformed => exact id
      | names own variants => exact id
  have hjoin : ∀ (items : List Value) (r : Requirement),
      name ∈ ((itemRequirements items).foldl Requirement.join r).own →
        name ∈ r.own ∨ ∃ item ∈ items, name ∈ (requirement item).own := by
    intro items
    induction items with
    | nil => exact fun r h => .inl h
    | cons item items ih =>
      intro r h
      rcases ih _ h with hfirst | ⟨other, hother, hmem⟩
      · revert hfirst
        cases r with
        | absent =>
          cases hitem : requirement item with
          | absent => exact .inl
          | malformed => exact .inl
          | names own variants =>
            exact fun hmem => .inr ⟨item, mem_cons_self, by rw [hitem]; exact hmem⟩
        | malformed => exact .inl
        | names own' variants' =>
          cases hitem : requirement item with
          | absent => exact .inl
          | malformed => exact .inl
          | names own variants =>
            intro hmem
            refine (mem_append.1 hmem).imp_right fun hmem => ?_
            exact ⟨item, mem_cons_self, by rw [hitem]; exact hmem⟩
      · exact .inr ⟨other, mem_cons_of_mem _ hother, hmem⟩
  cases schema with
  | object map =>
    rw [requirement] at hname
    rw [variantRequirement_eq, variantRequirement_eq, variantRequirement_eq] at hname
    rcases hjoin _ _ (hunion _ _ (hunion _ _ hname)) with hown | ⟨item, hitem, hmem⟩
    · cases hlookup : map.lookup "required" with
      | none =>
        rw [hlookup] at hown
        cases hown
      | some value =>
        rw [hlookup] at hown
        cases value with
        | array names =>
          obtain ⟨value, hvalue, hstr⟩ := mem_filterMap.1 hown
          rw [asStr_eq_some] at hstr
          exact .own ⟨map, names, rfl, hlookup, hstr ▸ hvalue⟩
        | _ => cases hown
    · rw [itemsAt] at hitem
      split at hitem
      · rename_i items hlookup
        have hsize := (Value.sizeOf_lt_array hitem).trans
          (Value.sizeOf_lt_object (mem_of_lookup hlookup))
        exact .allOf hlookup hitem (ih item hsize name hmem)
      · cases hitem
  | _ => cases hname

/-! ## The property of the sanitiser -/

/-- What the sanitiser of schemas is for. -/
structure SanitizesWell (schema : Value) : Prop where
  /-- Sanitising again changes nothing. -/
  idempotent : sanitizeSchema (sanitizeSchema schema) = sanitizeSchema schema
  /-- Every object in the schema is one that Gemini accepts. -/
  accepted : ∀ map, Position (sanitizeSchema schema) (.object map) → Accepted map
  /-- No property is lost, be it of a member of `allOf` or of a variant. -/
  properties : ∀ name, HasProperty schema name → ListsProperty (sanitizeSchema schema) name
  /-- A property is required only if the schema or a member of `allOf` requires it. -/
  required : ∀ name, ListsRequired (sanitizeSchema schema) name → Requires schema name

/-- What is listed in `required`: what the schema requires, and what a variant adds. -/
theorem listsRequired_iff (schema : Value) (h : schema.Canonical) (name : String) :
    ListsRequired (sanitizeSchema schema) name ↔
      name ∈ (requirement schema).own ∨ name ∈ (requirement schema).variants := by
  have hdescribes := itemDescribes schema h
  rw [ItemDescribes] at hdescribes
  rw [sanitizeSchema]
  cases hstrip : stripUnsupportedSchemaFields schema with
  | object map =>
    rw [hstrip] at hdescribes
    have hlookup := hdescribes.2
    refine ⟨?_, fun hmem => ?_⟩
    · rintro ⟨map', names, heq, hnames, hmem⟩
      cases heq
      revert hlookup
      cases requirement schema with
      | absent =>
        intro hnone
        cases hnames.symm.trans hnone
      | malformed =>
        rintro ⟨other, hother, hne⟩
        cases hnames.symm.trans hother
        exact absurd rfl (hne names)
      | names own variants =>
        rintro ⟨names', hnames', hiff⟩
        cases hnames.symm.trans hnames'
        exact (hiff name).1 hmem
    · revert hlookup hmem
      cases requirement schema with
      | absent => exact fun _ hmem => hmem.elim nofun nofun
      | malformed => exact fun _ hmem => hmem.elim nofun nofun
      | names own variants =>
        rintro ⟨names, hnames, hiff⟩ hmem
        exact ⟨map, names, rfl, hnames, (hiff name).2 hmem⟩
  | _ =>
    rw [hstrip] at hdescribes
    refine ⟨?_, fun hmem => ?_⟩
    · rintro ⟨map, names, heq, -⟩
      cases heq
    · rw [show requirement schema = .absent from hdescribes] at hmem
      exact hmem.elim nofun nofun

/-- A schema with one variant, which requires a property. -/
def oneVariant : Value :=
  .object [("anyOf", .array [.object [("required", .array [.string "a"])]])]

end GeminiSchema

end OpenBitFun
