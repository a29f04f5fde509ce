import Gateway.Execution.Arguments
import Gateway.Execution.Mock
import Gateway.Validation.Kept

/-!
# Completed values

A value is completed for the declared type of its field: leaf values have to be values of the type,
and the selected fields of an object are executed in turn.
-/

namespace Gateway.Execution

open Completion (fail orNull)

/-- How a value becomes the value of a field: by the declared type, the nodes that select the field
and the path. -/
abbrev Completer := TypeRef → List Field → Path → Completion Json

/-- The introspection fields, which are not answered. -/
def introspectionFields : List Name := ["__schema", "__type"]

/-- Executes one field of an object, given how a field is resolved from its arguments. -/
def executeField (scope : Scope) (resolve : Name → Entries Json → Except String Completer)
    (definition : FieldDefinition) (node : Field) (nodes : List Field) (path : Path) :
    Completion Json :=
  orNull definition.type do
    let arguments ←
      argumentValues scope.schema scope.vars path definition.arguments node
    let resolved :=
      if introspectionFields.contains node.name then .error "schema introspection is disabled"
      else resolve node.name arguments
    match resolved with
    | .error text => fail path ("resolver error: " ++ text)
    | .ok complete => complete definition.type nodes path

/-- Executes the fields selected on an object, in order, up to one whose error leaves no object. -/
def executeFields (scope : Scope) (type : Name)
    (resolve : Name → Entries Json → Except String Completer)
    (fields : Entries (List Field)) (path : Path) : Completion (Entries Json) :=
  fields.filterMapM fun (key, nodes) =>
    match nodes with
    | [] => pure none
    | node :: _ =>
      match scope.schema.selectable? type node.name with
      | none => pure none
      | some definition =>
        if node.name = typenameField then pure (some (key, .string type))
        else do
          let value ← executeField scope resolve definition node nodes (path.join (.key key))
          return some (key, value)

/-- What is wrong with the type of an object for a declared type. -/
def objectMismatch? (scope : Scope) (declared type : Name) : Option String :=
  let returned := "resolver returned an object of type " ++ type
  match scope.schema.body? declared with
  | some (.object ..) =>
    if type = declared then none else some (returned ++ ", expected " ++ declared)
  | some (.union members) =>
    if !scope.schema.isObject type then some (returned ++ " not defined in the schema")
    else if members.contains type then none
    else some (returned ++ ", expected a member of union type " ++ declared)
  | some (.interface ..) =>
    if !scope.schema.isObject type then some (returned ++ " not defined in the schema")
    else if (scope.schema.interfaces type).contains declared then none
    else some (returned ++ " which does not implement interface " ++ declared)
  | _ => some ("resolver returned a an object of type " ++ type ++ ", expected " ++ declared)

/-- What is wrong with a leaf value for a built-in scalar; other scalars have all leaf values. -/
def scalarMismatch? (scalar : Name) (json : Json) : Option String :=
  let mismatch : Option String :=
    some ("resolver returned " ++ json.render ++ ", expected " ++ scalar)
  match scalar, json with
  | "Int", .int n =>
    if Json.fitsInt32 n then none
    else if Json.fitsInt64 n then
      some ("resolver returned " ++ json.render ++ " which overflows Int")
    else mismatch
  | "Int", _ => mismatch
  | "Float", .float _ => none
  | "Float", _ => mismatch
  | "String", .string _ => none
  | "String", _ => mismatch
  | "Boolean", .bool _ => none
  | "Boolean", _ => mismatch
  | "ID", .string _ => none
  | "ID", .int n => if Json.fitsInt64 n then none else mismatch
  | "ID", _ => mismatch
  | _, _ => none

/-- What is wrong with a leaf value for a declared type. -/
def leafMismatch? (scope : Scope) (declared : Name) (json : Json) : Option String :=
  match scope.schema.body? declared, json with
  | some (.enum values), .string name =>
    if values.any (·.name = name) then none else some (enumText json)
  | some (.enum _), json => some (enumText json)
  | some .scalar, json => scalarMismatch? declared json
  | _, _ =>
    some ("resolver returned a leaf value but expected an object for type " ++ declared)
where
  /-- What is reported for a value that an enum does not have. -/
  enumText (json : Json) : String :=
    "resolver returned " ++ json.render ++ ", expected enum " ++ declared

/-- What is reported for a list type whose value is no list. -/
def listText (type : TypeRef) : String :=
  "list type " ++ type.print ++ " resolved to an object"

/-- Whether a value stands for a failure. -/
def isFailure : Json → Bool
  | .object members => (failureOf? members).isSome
  | _ => false

/-- Completes null. -/
def completeNull : Completer := fun type _ path =>
  if type.isNonNull then fail path ("non-null type " ++ type.print ++ " resolved to null")
  else pure .null

mutual

/-- Completes a value; the failure for which an object stands is reported. -/
def complete (scope : Scope) : Json → Completer
  | .null => completeNull
  | .array items => fun type nodes path =>
    match type.item? with
    | some item => .array <$> completeItems scope items 0 item nodes path
    | none => fail path ("Non-list type " ++ type.print ++ " resolved to a list")
  | .object members => fun type nodes path =>
    match failureOf? members with
    | some text => fail path ("resolver error: " ++ text)
    | none =>
      let objectType := objectType type.innerName members
      if type.isList then fail path (listText type)
      else
        match objectMismatch? scope type.innerName objectType with
        | some text => fail path text
        | none =>
          let completers := completeMembers scope members
          let resolve (field : Name) (_ : Entries Json) : Except String Completer :=
            .ok ((completers.get? field).getD completeNull)
          .object <$>
            executeFields scope objectType resolve (scope.subFields objectType nodes) path
  | json => fun type _ path =>
    if type.isList then fail path (listText type)
    else
      match leafMismatch? scope type.innerName json with
      | some text => fail path text
      | none => pure json

/-- Completes the items of a list from a position on; a failing item fails the list. -/
def completeItems (scope : Scope) :
    List Json → Nat → TypeRef → List Field → Path → Completion (List Json)
  | [], _, _, _, _ => pure []
  | item :: rest, position, type, nodes, path => do
    let step := complete scope item type nodes (path.join (.index position))
    let value ← if isFailure item then step else orNull type step
    return value :: (← completeItems scope rest (position + 1) type nodes path)

/-- How each member of an object is completed. -/
def completeMembers (scope : Scope) : List (String × Json) → Entries Completer
  | [] => []
  | (key, json) :: rest => (key, complete scope json) :: completeMembers scope rest

end

end Gateway.Execution
