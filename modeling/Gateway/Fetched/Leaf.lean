import Gateway.Fetched.Value
import Gateway.Json.Printer

/-!
# Leaf values

A leaf value has to be a value of its type: a member of an enum, or a value of the right shape for a
built-in scalar. Integers stand for identifiers. Custom scalars are kept as they are.
-/

namespace Gateway

/-- The leaf that a value of a built-in scalar is fetched as, if it is one. -/
def scalarLeaf? (scalar : Name) (json : Json) : Option Json :=
  match scalar, json with
  | "Int", .int n => if Json.fitsInt32 n then some json else none
  | "Int", _ => none
  | "Float", .int _ => some json
  | "Float", .float _ => some json
  | "Float", _ => none
  | "String", .string _ => some json
  | "String", _ => none
  | "Boolean", .bool _ => some json
  | "Boolean", _ => none
  | "ID", .int n => if Json.fitsInt64 n then some (.string (toString n)) else none
  | "ID", .string _ => some json
  | "ID", _ => none
  | _, json => some json

/-- The leaf that a value of a type is fetched as, if it is a value of the type. -/
def leafValue? (schema : Schema) (type : Name) (json : Json) : Option Json :=
  match schema.body? type with
  | some (.enum values) =>
    match json with
    | .string name => if values.any (·.name = name) then some json else none
    | _ => none
  | some .scalar => scalarLeaf? type json
  | _ => some json

/-- The error of a value that is not one of its type. -/
def leafError (type : Name) (json : Json) : GraphError :=
  (GraphError.ofMessage (type ++ " cannot represent value: " ++ json.render)).withCode
    "INVALID_LEAF_VALUE"

/-- The value at a position of a leaf type. -/
def FetchedValue.ofLeaf (schema : Schema) (type : Name) (json : Json) : FetchedValue :=
  match leafValue? schema type json with
  | some value => .leaf value
  | none => .error (.single (leafError type json))

end Gateway
