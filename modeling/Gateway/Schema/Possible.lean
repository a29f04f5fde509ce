import Gateway.Schema.Basic

/-!
# Possible types

Which object types a value of a type may have, which types share an object type, and which fragments
apply to an object.
-/

namespace Gateway.Schema

/-- Whether an abstract type directly has the other type under it: a member of a union, or an object
type or interface that declares to implement an interface. -/
def isSubtype (schema : Schema) (abstract type : Name) : Bool :=
  match schema.body? abstract with
  | some (.union members) => members.contains type
  | some (.interface ..) => (schema.interfaces type).contains abstract
  | _ => false

/-- The object types of values of a type, in the order of the schema. -/
def possibleTypes (schema : Schema) (name : Name) : List Name :=
  if schema.isObject name then [name]
  else if schema.isAbstract name then
    (schema.types.map TypeDefinition.name).filter fun type =>
      schema.isObject type && schema.isSubtype name type
  else []

/-- Whether some value can be of both types. -/
def typesOverlap (schema : Schema) (a b : Name) : Bool :=
  if a = b then true
  else
    match schema.isAbstract a, schema.isAbstract b with
    | true, true => (schema.possibleTypes a).any fun type => schema.isSubtype b type
    | true, false => schema.isSubtype a b
    | false, true => schema.isSubtype b a
    | false, false => false

/-- Whether a fragment with the condition applies to objects of the type. -/
def fragmentApplies (schema : Schema) (condition type : Name) : Bool :=
  condition = type || schema.isSubtype condition type

end Gateway.Schema
