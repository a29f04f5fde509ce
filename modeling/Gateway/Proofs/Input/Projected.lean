import Gateway.Proofs.Fetched.Position
import Gateway.Proofs.Input.Serialized
import Gateway.Proofs.Schema.Declared

/-!
# Serializing projects

The rules by which a value is serialized follow the type first: a list is serialized item by item,
any other value for a list type is serialized for the item type, and the members of an object are
serialized for the types of the fields. So either the type shrinks, or the value does while the type
can grow. They come to an end with one result, and this is the serialized form
(`serializes_iff`). A serialized form is its own one, and it is part of the value: objects keep the
declared members that have a serialized form, in the order of the declaration, and where no input
object is expected nothing is changed (`serializeInput?_projects`).
-/

namespace Gateway

/-- Below a list type are the same names. -/
theorem TypeRef.innerName_eq_of_item? {type item : TypeRef} (h : type.item? = some item) :
    type.innerName = item.innerName := by
  cases type <;> cases h <;> rfl

namespace Schema

/-! ## Rules -/

mutual

/-- A value is serialized for an input type, with a result or none. -/
inductive Serializes (schema : Schema) : TypeRef → Json → Option Json → Prop
  /-- Null stays null. -/
  | null (type : TypeRef) : Serializes schema type .null (some .null)
  /-- A list is serialized item by item. -/
  | list {type item : TypeRef} {items values : List Json} (listed : type.item? = some item)
    (each : SerializesItems schema item items values) :
    Serializes schema type (.array items) (some (.array values))
  /-- Any other value for a list type is serialized for the item type. -/
  | single {type item : TypeRef} {json : Json} {result : Option Json}
    (listed : type.item? = some item) (given : json ≠ .null) (alone : ∀ items, json ≠ .array items)
    (within : Serializes schema item json result) : Serializes schema type json result
  /-- An object is serialized field by field. -/
  | object {type : TypeRef} {fields : List InputValue} {members kept : Entries Json}
    (plain : type.item? = none) (input : schema.inputFields? type.innerName = some fields)
    (each : SerializesFields schema fields members kept) :
    Serializes schema type (.object members) (some (.object kept))
  /-- Nothing else is a value of an input object type. -/
  | misplaced {type : TypeRef} {fields : List InputValue} {json : Json}
    (plain : type.item? = none) (input : schema.inputFields? type.innerName = some fields)
    (given : json ≠ .null) (other : ∀ members, json ≠ .object members) :
    Serializes schema type json none
  /-- Values of other types are sent as they are. -/
  | other {type : TypeRef} {json : Json} (plain : type.item? = none)
    (leaf : schema.inputFields? type.innerName = none) : Serializes schema type json (some json)

/-- The items of a list are serialized; one without result becomes null. -/
inductive SerializesItems (schema : Schema) : TypeRef → List Json → List Json → Prop
  /-- All items are done. -/
  | nil (type : TypeRef) : SerializesItems schema type [] []
  /-- The first item is serialized. -/
  | cons {type : TypeRef} {first : Json} {result : Option Json} {rest values : List Json}
    (head : Serializes schema type first result) (tail : SerializesItems schema type rest values) :
    SerializesItems schema type (first :: rest) (result.getD .null :: values)

/-- The members of an object that stand for declared fields are serialized; one without result is
left out. -/
inductive SerializesFields (schema : Schema) :
    List InputValue → Entries Json → Entries Json → Prop
  /-- All fields are done. -/
  | nil (members : Entries Json) : SerializesFields schema [] members []
  /-- There is no member for the first field. -/
  | absent {field : InputValue} {fields : List InputValue} {members kept : Entries Json}
    (absent : members.get? field.name = none) (tail : SerializesFields schema fields members kept) :
    SerializesFields schema (field :: fields) members kept
  /-- The member for the first field has no result. -/
  | dropped {field : InputValue} {fields : List InputValue} {members kept : Entries Json}
    {json : Json} (present : members.get? field.name = some json)
    (head : Serializes schema field.type json none)
    (tail : SerializesFields schema fields members kept) :
    SerializesFields schema (field :: fields) members kept
  /-- The member for the first field is kept. -/
  | kept {field : InputValue} {fields : List InputValue} {members kept : Entries Json}
    {json value : Json} (present : members.get? field.name = some json)
    (head : Serializes schema field.type json (some value))
    (tail : SerializesFields schema fields members kept) :
    SerializesFields schema (field :: fields) members ((field.name, value) :: kept)

end

/-! ## Serialized objects -/

/-- No input object type declares a field twice. -/
def DistinctInputs (schema : Schema) : Prop :=
  ∀ type fields, schema.inputFields? type = some fields → (fields.map InputValue.name).Nodup

variable {schema : Schema}

/-- The member that is kept for a declared field. -/
def keptMember (schema : Schema) (members : Entries Json) (field : InputValue) :
    Option (String × Json) :=
  ((members.get? field.name).bind (schema.serializeInput? field.type)).map (Prod.mk field.name)

/-- Under the name of a declared field is the serialized form of its member. -/
theorem get?_serializeMembers {fields : List InputValue} {members : Entries Json}
    (hdistinct : (fields.map InputValue.name).Nodup) (hkeys : members.keys.Nodup)
    {field : InputValue} (hmem : field ∈ fields) :
    (serializeMembers schema fields members).get? field.name =
      (members.get? field.name).bind (schema.serializeInput? field.type) := by
  have hshape : schema.serializedMember fields = fun entry =>
      ((fields.find? (·.name = entry.1)).bind fun field =>
        schema.serializeInput? field.type entry.2).map (Prod.mk entry.1) :=
    funext fun entry => Option.map_bind.symm
  have hfound : fields.find? (·.name = field.name) = some field :=
    (find?_eq_some_iff_of_nodup hdistinct).mpr ⟨hmem, rfl⟩
  rw [serializeMembers_eq_filterMap, hshape, Entries.get?_filterMap hkeys fun key json =>
    (fields.find? (·.name = key)).bind fun field => schema.serializeInput? field.type json]
  exact Option.bind_congr fun json _ => by rw [hfound, Option.bind_some]

/-- What is serialized of an object is what is kept, in the order of the declaration. -/
theorem inDeclaredOrder_serializeMembers {fields : List InputValue} {members : Entries Json}
    (hdistinct : (fields.map InputValue.name).Nodup) (hkeys : members.keys.Nodup) :
    inDeclaredOrder fields (serializeMembers schema fields members) =
      fields.filterMap (schema.keptMember members) := by
  refine List.filterMap_congr fun field hmem => ?_
  rw [get?_serializeMembers hdistinct hkeys hmem]
  rfl

/-- Of an object is kept what is declared and has a serialized form, in the order of the
declaration. -/
theorem serializeInput?_object {type : TypeRef} {fields : List InputValue} {members : Entries Json}
    (hinput : schema.inputFields? type.innerName = some fields)
    (hdistinct : (fields.map InputValue.name).Nodup) (hkeys : members.keys.Nodup) :
    schema.serializeInput? type (.object members) =
      some (.object (fields.filterMap (schema.keptMember members))) := by
  rw [serializeInput?, hinput]
  dsimp only
  rw [inDeclaredOrder_serializeMembers hdistinct hkeys]

/-- Under the name of a declared field is kept the serialized form of its member. -/
theorem get?_kept {fields : List InputValue} {members : Entries Json}
    (hdistinct : (fields.map InputValue.name).Nodup) (hkeys : members.keys.Nodup)
    {field : InputValue} (hmem : field ∈ fields) :
    Entries.get? (fields.filterMap (schema.keptMember members)) field.name =
      (members.get? field.name).bind (schema.serializeInput? field.type) := by
  rw [← inDeclaredOrder_serializeMembers hdistinct hkeys, get?_inDeclaredOrder hmem,
    get?_serializeMembers hdistinct hkeys hmem]

/-- For a list type other values than lists are serialized as for the item type. -/
theorem serializeInput?_single {type item : TypeRef} {json : Json}
    (hlisted : type.item? = some item) (halone : ∀ items, json ≠ .array items) :
    schema.serializeInput? type json = schema.serializeInput? item json := by
  have hname := TypeRef.innerName_eq_of_item? hlisted
  cases json with
  | array items => exact absurd rfl (halone items)
  | null => rw [serializeInput?, serializeInput?]
  | object members => rw [serializeInput?, serializeInput?, hname]
  | bool | int | float | string => simp only [serializeInput?, hname]

mutual

/-- Values of other types than input objects have themselves as serialized form. -/
theorem serializeInput?_leaf : ∀ (json : Json) {type : TypeRef},
    schema.inputFields? type.innerName = none → schema.serializeInput? type json = some json
  | .null, _, _ => by rw [serializeInput?]
  | .array items, type, hleaf => by
    rw [serializeInput?]
    cases hlisted : type.item? with
    | none =>
      dsimp only
      rw [hleaf]
    | some item =>
      rw [TypeRef.innerName_eq_of_item? hlisted] at hleaf
      dsimp only
      rw [serializeItems_leaf items hleaf]
  | .object members, _, hleaf => by rw [serializeInput?, hleaf]
  | .bool _, _, hleaf | .int _, _, hleaf | .float _, _, hleaf | .string _, _, hleaf => by
    simp only [serializeInput?, hleaf]

/-- So do the items of a list. -/
theorem serializeItems_leaf : ∀ (items : List Json) {type : TypeRef},
    schema.inputFields? type.innerName = none → serializeItems schema type items = items
  | [], _, _ => by rw [serializeItems]
  | item :: rest, _, hleaf => by
    rw [serializeItems, serializeInput?_leaf item hleaf, serializeItems_leaf rest hleaf]
    rfl

end

/-- For an input object type nothing but objects and null has a serialized form. -/
theorem serializeInput?_misplaced {type : TypeRef} {fields : List InputValue} {json : Json}
    (hplain : type.item? = none) (hinput : schema.inputFields? type.innerName = some fields)
    (hgiven : json ≠ .null) (hother : ∀ members, json ≠ .object members) :
    schema.serializeInput? type json = none := by
  cases json with
  | null => exact absurd rfl hgiven
  | object members => exact absurd rfl (hother members)
  | array | bool | int | float | string => simp only [serializeInput?, hplain, hinput]

/-! ## The rules give the serialized form -/

/-- A member is kept when it has a serialized form. -/
theorem keptMember_of_get? {members : Entries Json} {field : InputValue} {json : Json}
    (h : members.get? field.name = some json) :
    schema.keptMember members field =
      (schema.serializeInput? field.type json).map (Prod.mk field.name) := by
  unfold keptMember
  rw [h, Option.bind_some]

/-- No member is kept when there is none. -/
theorem keptMember_of_absent {members : Entries Json} {field : InputValue}
    (h : members.get? field.name = none) : schema.keptMember members field = none := by
  unfold keptMember
  rw [h]
  rfl

mutual

/-- The rules give no other result than the serialized form. -/
theorem Serializes.eq (hdistinct : schema.DistinctInputs) {type : TypeRef} {json : Json}
    {result : Option Json} : schema.Serializes type json result → json.Keyed →
      result = schema.serializeInput? type json
  | .null _, _ => by rw [serializeInput?]
  | .list listed each, hkeyed => by
    have hvalues := each.eq hdistinct hkeyed.forall_items
    rw [serializeInput?, listed, hvalues]
  | .single listed _ alone within, hkeyed => by
    have hresult := within.eq hdistinct hkeyed
    rw [hresult, serializeInput?_single listed alone]
  | .object _ input each, hkeyed => by
    have hkept := each.eq hdistinct fun _ _ hmember => hkeyed.member hmember
    rw [hkept, serializeInput?_object input (hdistinct _ _ input) hkeyed.nodup]
  | .misplaced plain input given other, _ => by
    rw [serializeInput?_misplaced plain input given other]
  | .other _ leaf, _ => by rw [serializeInput?_leaf _ leaf]

/-- So for the items of a list. -/
theorem SerializesItems.eq (hdistinct : schema.DistinctInputs) {type : TypeRef}
    {items values : List Json} : schema.SerializesItems type items values →
      (∀ item ∈ items, item.Keyed) → values = serializeItems schema type items
  | .nil _, _ => by rw [serializeItems]
  | .cons head tail, hkeyed => by
    obtain ⟨hfirst, hrest⟩ := List.forall_mem_cons.mp hkeyed
    rw [serializeItems, ← head.eq hdistinct hfirst, tail.eq hdistinct hrest]

/-- So for the members of an object. -/
theorem SerializesFields.eq (hdistinct : schema.DistinctInputs) {fields : List InputValue}
    {members kept : Entries Json} : schema.SerializesFields fields members kept →
      (∀ key json, members.get? key = some json → json.Keyed) →
        kept = fields.filterMap (schema.keptMember members)
  | .nil _, _ => rfl
  | .absent absent tail, hkeyed => by
    rw [List.filterMap_cons_none (keptMember_of_absent absent), tail.eq hdistinct hkeyed]
  | .dropped present head tail, hkeyed => by
    have hnone : schema.keptMember _ _ = _ := keptMember_of_get? present
    rw [← head.eq hdistinct (hkeyed _ _ present)] at hnone
    rw [List.filterMap_cons_none hnone, tail.eq hdistinct hkeyed]
  | .kept present head tail, hkeyed => by
    have hsome : schema.keptMember _ _ = _ := keptMember_of_get? present
    rw [← head.eq hdistinct (hkeyed _ _ present)] at hsome
    rw [List.filterMap_cons_some hsome, tail.eq hdistinct hkeyed]

end

/-- The rules reach the serialized form for every type, when they do for types that are no lists. -/
theorem serializes_of_plain {json : Json} (hgiven : json ≠ .null)
    (halone : ∀ items, json ≠ .array items)
    (hplain : ∀ type : TypeRef, type.item? = none →
      schema.Serializes type json (schema.serializeInput? type json)) (type : TypeRef) :
    schema.Serializes type json (schema.serializeInput? type json) := by
  -- The value stays the same, so here it is the type that shrinks.
  induction type with
  | named name => exact hplain _ rfl
  | nonNullNamed name => exact hplain _ rfl
  | list item ih | nonNullList item ih =>
    rw [serializeInput?_single rfl halone]
    exact .single rfl hgiven halone ih

/-- They do for a type that is no list, unless the value is an object. -/
theorem serializes_of_no_object {type : TypeRef} {json : Json} (hplain : type.item? = none)
    (hgiven : json ≠ .null) (hother : ∀ members, json ≠ .object members) :
    schema.Serializes type json (schema.serializeInput? type json) := by
  cases hinput : schema.inputFields? type.innerName with
  | none =>
    rw [serializeInput?_leaf json hinput]
    exact .other hplain hinput
  | some fields =>
    rw [serializeInput?_misplaced hplain hinput hgiven hother]
    exact .misplaced hplain hinput hgiven hother

/-- They serialize the fields of an object, when they serialize its members. -/
theorem serializesFields_of_members {members : Entries Json}
    (hall : ∀ key json, members.get? key = some json →
      ∀ type, schema.Serializes type json (schema.serializeInput? type json))
    (fields : List InputValue) :
    schema.SerializesFields fields members (fields.filterMap (schema.keptMember members)) := by
  induction fields with
  | nil => exact .nil members
  | cons field rest ih =>
    cases hmember : members.get? field.name with
    | none =>
      rw [List.filterMap_cons_none (keptMember_of_absent hmember)]
      exact .absent hmember ih
    | some json =>
      have hkept : schema.keptMember _ _ = _ := keptMember_of_get? hmember
      have hjson := hall field.name json hmember field.type
      cases hvalue : schema.serializeInput? field.type json with
      | none =>
        rw [hvalue] at hkept hjson
        rw [List.filterMap_cons_none hkept]
        exact .dropped hmember hjson ih
      | some value =>
        rw [hvalue] at hkept hjson
        rw [List.filterMap_cons_some hkept]
        exact .kept hmember hjson ih

mutual

/-- The rules reach the serialized form. -/
theorem serializes (hdistinct : schema.DistinctInputs) : ∀ json : Json, json.Keyed →
    ∀ type, schema.Serializes type json (schema.serializeInput? type json)
  | .null, _, type => by
    rw [serializeInput?]
    exact .null type
  | .array items, hkeyed, type => by
    cases hlisted : type.item? with
    | none => exact serializes_of_no_object hlisted (by simp) (by simp)
    | some item =>
      rw [serializeInput?, hlisted]
      exact .list hlisted (serializesItems hdistinct items hkeyed.forall_items item)
  | .object members, hkeyed, type => by
    -- The members are smaller than the object, so they can be serialized for any types.
    refine serializes_of_plain (by simp) (by simp) (fun type hplain => ?_) type
    have hmembers := serializesMembers hdistinct members hkeyed.forall_members
    cases hinput : schema.inputFields? type.innerName with
    | none =>
      rw [serializeInput?_leaf _ hinput]
      exact .other hplain hinput
    | some fields =>
      rw [serializeInput?_object hinput (hdistinct _ _ hinput) hkeyed.nodup]
      exact .object hplain hinput (serializesFields_of_members
        (fun _ _ hmember => hmembers _ (Entries.mem_of_get? hmember)) fields)
  | .bool _, _, type | .int _, _, type | .float _, _, type | .string _, _, type =>
    serializes_of_plain (by simp) (by simp)
      (fun _ hplain => serializes_of_no_object hplain (by simp) (by simp)) type

/-- They do for the items of a list. -/
theorem serializesItems (hdistinct : schema.DistinctInputs) : ∀ items : List Json,
    (∀ item ∈ items, item.Keyed) →
      ∀ type, schema.SerializesItems type items (serializeItems schema type items)
  | [], _, type => by
    rw [serializeItems]
    exact .nil type
  | item :: rest, hkeyed, type => by
    obtain ⟨hitem, hrest⟩ := List.forall_mem_cons.mp hkeyed
    rw [serializeItems]
    exact .cons (serializes hdistinct item hitem type) (serializesItems hdistinct rest hrest type)

/-- They do for the members of an object, whatever their types. -/
theorem serializesMembers (hdistinct : schema.DistinctInputs) : ∀ members : List (String × Json),
    (∀ member ∈ members, member.2.Keyed) → ∀ member ∈ members,
      ∀ type, schema.Serializes type member.2 (schema.serializeInput? type member.2)
  | [], _ => fun _ hmem => absurd hmem List.not_mem_nil
  | (key, json) :: rest, hkeyed => by
    obtain ⟨hfirst, hrest⟩ := List.forall_mem_cons.mp hkeyed
    exact List.forall_mem_cons.mpr
      ⟨serializes hdistinct json hfirst, serializesMembers hdistinct rest hrest⟩

end

/-- The rules end, with the serialized form as their only result. -/
theorem serializes_iff (hdistinct : schema.DistinctInputs) {type : TypeRef} {json : Json}
    {result : Option Json} (hkeyed : json.Keyed) :
    schema.Serializes type json result ↔ result = schema.serializeInput? type json := by
  constructor
  · exact fun h => h.eq hdistinct hkeyed
  · rintro rfl
    exact serializes hdistinct json hkeyed type

/-! ## Parts of serialized values -/

/-- The input type at a path below an input type. A single value stands for a list of one, so a key
leads from a list type to the field of an object inside. -/
def typeAt? (schema : Schema) : TypeRef → Path → Option TypeRef
  | type, [] => some type
  | type, .index _ :: rest => type.item?.bind (schema.typeAt? · rest)
  | type, .key key :: rest =>
    (schema.inputFields? type.innerName).bind fun fields =>
      (fields.find? (·.name = key)).bind fun field => schema.typeAt? field.type rest

/-- What a part of a serialized value is, at a position of the type, of the part that stood there
before. -/
structure Projects (schema : Schema) (type : TypeRef) (original part : Json) : Prop where
  /-- Where no input object is expected the part is unchanged. -/
  unchanged : schema.inputFields? type.innerName = none → part = original
  /-- A list was one of as many items. -/
  items : ∀ values, part = .array values →
    ∃ items, original = .array items ∧ values.length = items.length
  /-- An object holds declared fields only, in the order of the declaration. A field is kept when it
  was there and has a serialized form. -/
  kept : ∀ fields kept, schema.inputFields? type.innerName = some fields → part = .object kept →
    ∃ members, original = .object members ∧
      (Entries.keys kept).Sublist (fields.map InputValue.name) ∧
      ∀ field ∈ fields, Entries.get? kept field.name =
        (Entries.get? members field.name).bind (schema.serializeInput? field.type)

/-- A serialized form that is an object is that of an object. -/
theorem exists_of_serializeInput?_object {type : TypeRef} {json : Json} {kept : Entries Json}
    (h : schema.serializeInput? type json = some (.object kept)) :
    ∃ members, json = .object members := by
  cases json with
  | object members => exact ⟨members, rfl⟩
  | null => simp [serializeInput?] at h
  | array items =>
    rw [serializeInput?] at h
    split at h
    · simp at h
    · split at h <;> simp at h
  | bool | int | float | string =>
    simp only [serializeInput?] at h
    split at h <;> simp at h

/-- A serialized form that is a list is that of a list. -/
theorem exists_of_serializeInput?_array {type : TypeRef} {json : Json} {values : List Json}
    (h : schema.serializeInput? type json = some (.array values)) :
    ∃ items, json = .array items := by
  cases json with
  | array items => exact ⟨items, rfl⟩
  | null => simp [serializeInput?] at h
  | object members =>
    rw [serializeInput?] at h
    split at h <;> simp at h
  | bool | int | float | string =>
    simp only [serializeInput?] at h
    split at h <;> simp at h

/-- The kept members have names of declared fields, in the order of the declaration. -/
theorem keys_kept_sublist (members : Entries Json) (fields : List InputValue) :
    (Entries.keys (fields.filterMap (schema.keptMember members))).Sublist
      (fields.map InputValue.name) := by
  induction fields with
  | nil => exact List.Sublist.slnil
  | cons field rest ih =>
    cases hkept : schema.keptMember members field with
    | none =>
      rw [List.filterMap_cons_none hkept]
      exact ih.cons field.name
    | some entry =>
      obtain ⟨value, -, rfl⟩ := Option.map_eq_some_iff.mp hkept
      rw [List.filterMap_cons_some hkept]
      exact ih.cons_cons field.name

/-- A serialized form projects. -/
theorem projects_of_serialized (hdistinct : schema.DistinctInputs) {type : TypeRef}
    {json value : Json} (hkeyed : json.Keyed) (h : schema.serializeInput? type json = some value) :
    schema.Projects type json value where
  unchanged hleaf := by
    rw [serializeInput?_leaf json hleaf] at h
    exact (Option.some.inj h).symm
  items values hvalues := by
    subst hvalues
    obtain ⟨items, rfl⟩ := exists_of_serializeInput?_array h
    refine ⟨items, rfl, ?_⟩
    rw [serializeInput?] at h
    split at h
    · cases h
      rw [serializeItems_eq_map, List.length_map]
    · split at h <;> cases h
      rfl
  kept fields kept hinput hobject := by
    subst hobject
    obtain ⟨members, rfl⟩ := exists_of_serializeInput?_object h
    have hnames := hdistinct _ _ hinput
    rw [serializeInput?_object hinput hnames hkeyed.nodup] at h
    cases h
    exact ⟨members, rfl, keys_kept_sublist members fields,
      fun field hmem => get?_kept hnames hkeyed.nodup hmem⟩

/-- Null projects whatever has no serialized form. -/
theorem projects_null {type : TypeRef} {json : Json} (h : schema.serializeInput? type json = none) :
    schema.Projects type json .null where
  unchanged hleaf := by
    rw [serializeInput?_leaf json hleaf] at h
    cases h
  items _ hlist := by cases hlist
  kept _ _ _ hobject := by cases hobject

/-- Every part of a serialized form projects the part at the same path. -/
theorem projects_at (hdistinct : schema.DistinctInputs) (path : Path) {type inner : TypeRef}
    {json value part : Json} (hkeyed : json.Keyed)
    (h : schema.serializeInput? type json = some value)
    (htype : schema.typeAt? type path = some inner) (hpart : value.at? path = some part) :
    ∃ original, json.at? path = some original ∧ schema.Projects inner original part := by
  induction path generalizing type json value with
  | nil =>
    rw [typeAt?, Option.some.injEq] at htype
    rw [Json.at?_nil, Option.some.injEq] at hpart
    subst htype hpart
    exact ⟨json, Json.at?_nil json, projects_of_serialized hdistinct hkeyed h⟩
  | cons segment rest ih =>
    cases segment with
    | index position =>
      rw [typeAt?] at htype
      obtain ⟨item, hlisted, hinner⟩ := Option.bind_eq_some_iff.mp htype
      -- Only a list has items, and only a list becomes one.
      obtain ⟨values, rfl⟩ : ∃ values, value = .array values := by
        cases value <;> simp [Json.at?] at hpart
        exact ⟨_, rfl⟩
      obtain ⟨items, rfl⟩ := exists_of_serializeInput?_array h
      rw [serializeInput?, hlisted] at h
      cases h
      obtain ⟨index, first, hsame, hfirst, hbelow⟩ := Json.at?_array_eq_some_iff.mp hpart
      cases hsame
      rw [serializeItems_eq_map, List.getElem?_map] at hfirst
      obtain ⟨original, horiginal, rfl⟩ := Option.map_eq_some_iff.mp hfirst
      rw [Json.at?_array_of_getElem? horiginal]
      cases hserialized : schema.serializeInput? item original with
      | some value =>
        rw [hserialized] at hbelow
        exact ih (hkeyed.item horiginal) hserialized hinner hbelow
      | none =>
        -- Null stands for an item without serialized form, and holds nothing below.
        rw [hserialized, Option.getD_none] at hbelow
        cases rest with
        | cons => simp [Json.at?] at hbelow
        | nil =>
          rw [typeAt?, Option.some.injEq] at hinner
          rw [Json.at?_nil, Option.some.injEq] at hbelow
          subst hinner hbelow
          exact ⟨original, Json.at?_nil original, projects_null hserialized⟩
    | key key =>
      rw [typeAt?] at htype
      obtain ⟨fields, hinput, htype⟩ := Option.bind_eq_some_iff.mp htype
      obtain ⟨field, hfield, hinner⟩ := Option.bind_eq_some_iff.mp htype
      have hmem : field ∈ fields := List.mem_of_find?_eq_some hfield
      have hname : field.name = key := by simpa using List.find?_some hfield
      -- Only an object has members, whether a list of objects was declared or not.
      obtain ⟨kept, rfl⟩ : ∃ kept, value = .object kept := by
        cases value <;> simp [Json.at?] at hpart
        exact ⟨_, rfl⟩
      obtain ⟨members, rfl, -, hkept⟩ :=
        (projects_of_serialized hdistinct hkeyed h).kept fields kept hinput rfl
      obtain ⟨name, first, hsame, hfirst, hbelow⟩ := Json.at?_object_eq_some_iff.mp hpart
      cases hsame
      rw [← hname, hkept field hmem] at hfirst
      obtain ⟨original, horiginal, hserialized⟩ := Option.bind_eq_some_iff.mp hfirst
      rw [← hname, Json.at?_object_of_get? horiginal]
      exact ih (hkeyed.member horiginal) hserialized hinner hbelow

/-- In a schema that is read, serializing a value that holds keys once comes to an end with one
result. If this is a value, it is its own serialized form, and all its parts project those of the
value. -/
theorem serializeInput?_projects {text : String} (hparse : parse? text = some schema)
    (type : TypeRef) {json : Json} (hkeyed : json.Keyed) :
    (∀ result, schema.Serializes type json result ↔ result = schema.serializeInput? type json) ∧
      ∀ value, schema.serializeInput? type json = some value →
        schema.serializeInput? type value = some value ∧
          ∀ path inner part, schema.typeAt? type path = some inner → value.at? path = some part →
            ∃ original, json.at? path = some original ∧ schema.Projects inner original part := by
  have hdistinct : schema.DistinctInputs := fun _ _ => nodup_inputFields hparse
  refine ⟨fun result => serializes_iff hdistinct hkeyed, fun value hvalue => ?_⟩
  exact ⟨serializeInput?_serialized schema json type hvalue,
    fun path inner part => projects_at hdistinct path hkeyed hvalue⟩

/-- The definitions of a service with filters inside of filters. -/
def filterText : String :=
  "type Query { found(filter: Filter): ID } input Filter { name: String any: [[Filter]] }"

/-- The schema that they define. -/
def filterSchema : Schema where
  types := Builtin.introspectionTypes ++ ["String", "Boolean", "ID"].map Builtin.scalar ++ [
    { name := "Query", body := .object []
        [{ name := "found", arguments := [{ name := "filter", type := .named "Filter" }],
           type := .named "ID" }] },
    { name := "Filter", body := .input
        [{ name := "name", type := .named "String" },
         { name := "any", type := .list (.list (.named "Filter")) }] }]
  directives := Builtin.directives
  roots := [(.query, "Query")]

/-- A filter with a single filter where lists of lists are declared, and with undeclared fields. -/
def looseFilter : Json :=
  .object [
    ("any", .object [("any", .array [.string "none", .null]), ("extra", .string "0")]),
    ("extra", .null), ("name", .string "a")]

/-- The single filter stays one, what is no filter becomes null, and undeclared fields are left
out. -/
theorem serializeInput?_projects_looseFilter :
    parse? filterText = some filterSchema ∧ looseFilter.Keyed ∧
      ∃ value, filterSchema.serializeInput? (.named "Filter") looseFilter = some value ∧
        value = .object [("name", .string "a"), ("any", .object [("any", .array [.null, .null])])] ∧
        filterSchema.serializeInput? (.named "Filter") value = some value ∧
        ∃ original, looseFilter.at? [.key "any"] = some original ∧
          filterSchema.Projects (.list (.list (.named "Filter"))) original
            (.object [("any", .array [.null, .null])]) := by
  have hparse : parse? filterText = some filterSchema := by decide +kernel
  have hitems : ∀ item ∈ [Json.string "none", .null], item.Keyed := by
    rintro item hmem
    rcases List.mem_pair.mp hmem with rfl | rfl
    · exact Json.keyed_string "none"
    · exact Json.keyed_null
  have hinside : (Json.object
      [("any", .array [.string "none", .null]), ("extra", .string "0")]).Keyed := by
    refine Json.keyed_object (by decide) fun member hmem => ?_
    rcases List.mem_pair.mp hmem with rfl | rfl
    · exact Json.keyed_array hitems
    · exact Json.keyed_string "0"
  have hkeyed : looseFilter.Keyed := by
    refine Json.keyed_object (by decide) (List.forall_mem_cons.mpr ⟨hinside, ?_⟩)
    intro member hmem
    rcases List.mem_pair.mp hmem with rfl | rfl
    · exact Json.keyed_null
    · exact Json.keyed_string "a"
  obtain ⟨value, hvalue⟩ :
      ∃ value, filterSchema.serializeInput? (.named "Filter") looseFilter = some value := ⟨_, rfl⟩
  obtain ⟨hidempotent, hprojects⟩ := (serializeInput?_projects hparse _ hkeyed).2 value hvalue
  refine ⟨hparse, hkeyed, value, hvalue, ?_, hidempotent, hprojects [.key "any"] _ _ rfl ?_⟩
  · cases hvalue
    rfl
  · cases hvalue
    rfl

end Schema

end Gateway
