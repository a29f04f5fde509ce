import Gateway.Json.Basic
import Gateway.Schema.Basic

/-!
# Serialized input values

The form in which a value is sent for an input type: objects keep only what their type declares, in
the order of the declaration, lists are serialized item by item and a single value stands for a list
of one.
-/

namespace Gateway.Schema

/-- The fields of an input object type. -/
def inputFields? (schema : Schema) (type : Name) : Option (List InputValue) :=
  match schema.body? type with
  | some (.input fields) => some fields
  | _ => none

/-- The members that are declared, in the order of the declaration. -/
def inDeclaredOrder (fields : List InputValue) (members : Entries Json) : Entries Json :=
  fields.filterMap fun field => (members.get? field.name).map fun json => (field.name, json)

mutual

/-- The serialized form of a value for an input type; nothing when the type is an input object and
the value is none. -/
def serializeInput? (schema : Schema) (type : TypeRef) : Json → Option Json
  | .null => some .null
  | .array items =>
    match type.item? with
    | some item => some (.array (serializeItems schema item items))
    | none =>
      match schema.inputFields? type.innerName with
      | some _ => none
      | none => some (.array items)
  | .object members =>
    match schema.inputFields? type.innerName with
    | some fields =>
      some (.object (inDeclaredOrder fields (serializeMembers schema fields members)))
    | none => some (.object members)
  | value =>
    match schema.inputFields? type.innerName with
    | some _ => none
    | none => some value

/-- The serialized forms of the items of a list; an item that has none becomes null. -/
def serializeItems (schema : Schema) (type : TypeRef) : List Json → List Json
  | [] => []
  | item :: rest => (serializeInput? schema type item).getD .null :: serializeItems schema type rest

/-- The serialized forms of the members that are declared and have one. -/
def serializeMembers (schema : Schema) (fields : List InputValue) :
    List (String × Json) → Entries Json
  | [] => []
  | (key, item) :: rest =>
    let later := serializeMembers schema fields rest
    match fields.find? (·.name = key) with
    | some field =>
      match serializeInput? schema field.type item with
      | some json => (key, json) :: later
      | none => later
    | none => later

end

end Gateway.Schema
