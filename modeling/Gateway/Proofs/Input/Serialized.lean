import Gateway.Input.Serialize
import Gateway.Proofs.Entries
import Mathlib.Data.List.Forall2

/-!
# Serialized values

The serialized form of a value does not depend on which values of its type may be null
(`serializeInput?_shape`), and it is its own serialized form (`serializeInput?_serialized`). So a
value can be serialized for the type of a variable first and for the type of the argument that reads
the variable later. The items of a list and the members of an object are serialized one by one.
-/

namespace Gateway

/-! ## Types up to null -/

/-- The type with null allowed at every depth. -/
def TypeRef.shape : TypeRef → TypeRef
  | .named name => .named name
  | .nonNullNamed name => .named name
  | .list item => .list item.shape
  | .nonNullList item => .list item.shape

/-- The name inside all lists is the same. -/
@[simp]
theorem TypeRef.innerName_shape (type : TypeRef) : type.shape.innerName = type.innerName := by
  induction type with
  | named name => rfl
  | nonNullNamed name => rfl
  | list item ih => exact ih
  | nonNullList item ih => exact ih

/-- The items are of the item type with null allowed. -/
@[simp]
theorem TypeRef.item?_shape (type : TypeRef) : type.shape.item? = type.item?.map TypeRef.shape := by
  cases type <;> rfl

namespace Schema

variable {schema : Schema} {type : TypeRef} {fields : List InputValue}

mutual

/-- Values are serialized alike for a type and for its shape. -/
theorem serializeInput?_shape (schema : Schema) (type : TypeRef) :
    ∀ json, schema.serializeInput? type.shape json = schema.serializeInput? type json
  | .array items => by
    rw [serializeInput?, serializeInput?, TypeRef.item?_shape, TypeRef.innerName_shape]
    cases type.item? with
    | none => rfl
    | some item =>
      dsimp only [Option.map_some]
      rw [serializeItems_shape schema item items]
  | .object members => by rw [serializeInput?, serializeInput?, TypeRef.innerName_shape]
  | .null => by rw [serializeInput?, serializeInput?]
  | .bool _ | .int _ | .float _ | .string _ => by
    simp only [serializeInput?, TypeRef.innerName_shape]

/-- So are the items of a list. -/
theorem serializeItems_shape (schema : Schema) (type : TypeRef) :
    ∀ items, serializeItems schema type.shape items = serializeItems schema type items
  | [] => by rw [serializeItems, serializeItems]
  | item :: rest => by
    rw [serializeItems, serializeItems, serializeInput?_shape schema type item,
      serializeItems_shape schema type rest]

end

/-! ## Items and members -/

/-- The items are serialized one by one. -/
theorem serializeItems_eq_map (schema : Schema) (type : TypeRef) (items : List Json) :
    serializeItems schema type items =
      items.map fun item => (schema.serializeInput? type item).getD .null := by
  induction items with
  | nil => rw [serializeItems, List.map_nil]
  | cons item rest ih => rw [serializeItems, List.map_cons, ih]

/-- The serialized member of an entry, when it is declared and has one. -/
def serializedMember (schema : Schema) (fields : List InputValue) (entry : String × Json) :
    Option (String × Json) :=
  (fields.find? (·.name = entry.1)).bind fun field =>
    (schema.serializeInput? field.type entry.2).map fun json => (entry.1, json)

/-- The members are serialized one by one. -/
theorem serializeMembers_eq_filterMap (schema : Schema) (fields : List InputValue)
    (members : List (String × Json)) :
    serializeMembers schema fields members =
      members.filterMap (schema.serializedMember fields) := by
  induction members with
  | nil => rw [serializeMembers, List.filterMap_nil]
  | cons entry rest ih =>
    obtain ⟨key, item⟩ := entry
    rw [serializeMembers, List.filterMap_cons, ih]
    unfold serializedMember
    dsimp only
    cases fields.find? (·.name = key) with
    | none => rfl
    | some field =>
      dsimp only [Option.bind_some]
      cases schema.serializeInput? field.type item <;> rfl

/-- The declared members are found among those in declared order. -/
theorem get?_inDeclaredOrder {field : InputValue} (h : field ∈ fields) (members : Entries Json) :
    (inDeclaredOrder fields members).get? field.name = members.get? field.name := by
  induction fields with
  | nil => exact absurd h List.not_mem_nil
  | cons first rest ih =>
    have hlater : field.name ≠ first.name →
        (inDeclaredOrder rest members).get? field.name = members.get? field.name := by
      intro hname
      rcases List.mem_cons.mp h with rfl | hrest
      · exact absurd rfl hname
      · exact ih hrest
    unfold inDeclaredOrder at hlater ⊢
    rw [List.filterMap_cons]
    by_cases hname : field.name = first.name
    · rw [← hname]
      cases hfound : members.get? field.name with
      | none =>
        -- Then no later entry has the name either.
        refine Entries.get?_eq_none_iff.mpr fun hkey => ?_
        obtain ⟨json, hjson⟩ := Entries.exists_get?_iff.mpr hkey
        obtain ⟨other, -, hentry⟩ := List.mem_filterMap.mp (Entries.mem_of_get? hjson)
        obtain ⟨_, hother, hsame⟩ := Option.map_eq_some_iff.mp hentry
        rw [(Prod.mk.inj hsame).1, hfound] at hother
        cases hother
      | some json =>
        dsimp only [Option.map_some]
        rw [Entries.get?_cons, if_pos rfl]
    · cases members.get? first.name with
      | none => exact hlater hname
      | some json =>
        dsimp only [Option.map_some]
        rw [Entries.get?_cons, if_neg hname]
        exact hlater hname

/-- Members in declared order are in this order. -/
theorem inDeclaredOrder_inDeclaredOrder (fields : List InputValue) (members : Entries Json) :
    inDeclaredOrder fields (inDeclaredOrder fields members) = inDeclaredOrder fields members := by
  refine List.filterMap_congr fun field hfield => ?_
  rw [get?_inDeclaredOrder hfield]

/-- A member in declared order is one of the members. -/
theorem mem_of_mem_inDeclaredOrder {members : Entries Json} {entry : String × Json}
    (h : entry ∈ inDeclaredOrder fields members) : entry ∈ members := by
  obtain ⟨field, -, hentry⟩ := List.mem_filterMap.mp h
  obtain ⟨json, hjson, rfl⟩ := Option.map_eq_some_iff.mp hentry
  exact Entries.mem_of_get? hjson

/-! ## Serialized forms -/

/-- A member that is its own serialized form. -/
def IsSerialized (schema : Schema) (fields : List InputValue) (entry : String × Json) : Prop :=
  schema.serializedMember fields entry = some entry

/-- Members that are their own serialized forms are kept, in declared order. -/
theorem serializeInput?_object_of_isSerialized
    (hfields : schema.inputFields? type.innerName = some fields) {members : Entries Json}
    (h : ∀ entry ∈ members, schema.IsSerialized fields entry) :
    schema.serializeInput? type (.object (inDeclaredOrder fields members)) =
      some (.object (inDeclaredOrder fields members)) := by
  have hkept : serializeMembers schema fields (inDeclaredOrder fields members) =
      inDeclaredOrder fields members := by
    rw [serializeMembers_eq_filterMap]
    have hall : ∀ entry ∈ inDeclaredOrder fields members,
        schema.serializedMember fields entry = some entry := fun entry hentry =>
      h entry (mem_of_mem_inDeclaredOrder hentry)
    exact (List.filterMap_congr hall).trans List.filterMap_some
  rw [serializeInput?, hfields]
  dsimp only
  rw [hkept, inDeclaredOrder_inDeclaredOrder]

mutual

/-- A serialized form is its own serialized form. -/
theorem serializeInput?_serialized (schema : Schema) : ∀ (json : Json) (type : TypeRef)
    {value : Json}, schema.serializeInput? type json = some value →
      schema.serializeInput? type value = some value
  | .null, type, value, h => by
    rw [serializeInput?] at h
    cases h
    rw [serializeInput?]
  | .array items, type, value, h => by
    rw [serializeInput?] at h
    cases hitem : type.item? with
    | none =>
      rw [hitem] at h
      dsimp only at h
      cases hfields : schema.inputFields? type.innerName with
      | some fields =>
        rw [hfields] at h
        cases h
      | none =>
        rw [hfields] at h
        cases h
        rw [serializeInput?, hitem]
        dsimp only
        rw [hfields]
    | some item =>
      rw [hitem] at h
      cases h
      rw [serializeInput?, hitem]
      dsimp only
      rw [serializeItems_serialized schema items item]
  | .object members, type, value, h => by
    rw [serializeInput?] at h
    cases hfields : schema.inputFields? type.innerName with
    | none =>
      rw [hfields] at h
      cases h
      rw [serializeInput?, hfields]
    | some fields =>
      rw [hfields] at h
      cases h
      exact serializeInput?_object_of_isSerialized hfields
        (isSerialized_of_mem_serializeMembers schema members fields)
  | .bool _, type, value, h | .int _, type, value, h | .float _, type, value, h
  | .string _, type, value, h => by
    simp only [serializeInput?] at h
    cases hfields : schema.inputFields? type.innerName with
    | some fields =>
      rw [hfields] at h
      cases h
    | none =>
      rw [hfields] at h
      cases h
      simp only [serializeInput?, hfields]

/-- So are the items of a list. -/
theorem serializeItems_serialized (schema : Schema) : ∀ (items : List Json) (type : TypeRef),
    serializeItems schema type (serializeItems schema type items) =
      serializeItems schema type items
  | [], type => by rw [serializeItems, serializeItems]
  | item :: rest, type => by
    rw [serializeItems, serializeItems, serializeItems_serialized schema rest type]
    cases hitem : schema.serializeInput? type item with
    | none =>
      rw [Option.getD_none, serializeInput?]
      rfl
    | some value =>
      rw [Option.getD_some, serializeInput?_serialized schema item type hitem]
      rfl

/-- So is every member of an object. -/
theorem isSerialized_of_mem_serializeMembers (schema : Schema) :
    ∀ (members : List (String × Json)) (fields : List InputValue),
      ∀ entry ∈ serializeMembers schema fields members, schema.IsSerialized fields entry
  | [], fields, entry, h => by
    rw [serializeMembers] at h
    exact absurd h List.not_mem_nil
  | (key, item) :: rest, fields, entry, h => by
    have hrest := isSerialized_of_mem_serializeMembers schema rest fields entry
    rw [serializeMembers] at h
    cases hfield : fields.find? (·.name = key) with
    | none =>
      rw [hfield] at h
      exact hrest h
    | some field =>
      rw [hfield] at h
      dsimp only at h
      cases hitem : schema.serializeInput? field.type item with
      | none =>
        rw [hitem] at h
        exact hrest h
      | some value =>
        rw [hitem] at h
        rcases List.mem_cons.mp h with rfl | hmem
        · unfold IsSerialized serializedMember
          rw [hfield, Option.bind_some, serializeInput?_serialized schema item field.type hitem]
          rfl
        · exact hrest hmem

end

/-- Serializing once more changes nothing. -/
theorem bind_serializeInput? (schema : Schema) (type : TypeRef) (value? : Option Json) :
    (value?.bind (schema.serializeInput? type)).bind (schema.serializeInput? type) =
      value?.bind (schema.serializeInput? type) := by
  cases value? with
  | none => rfl
  | some value =>
    rw [Option.bind_some]
    cases hjson : schema.serializeInput? type value with
    | none => rfl
    | some json => exact serializeInput?_serialized schema value type hjson

end Schema

end Gateway
