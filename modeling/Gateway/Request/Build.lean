import Gateway.Input.Literal
import Gateway.Input.Serialize
import Gateway.Operation.Info
import Gateway.Request.Bindings

/-!
# Requests for gateway fields

The request sent for a delegated field: one anonymous operation that selects one root field,
followed by all fragments of the gateway operation. Declared defaults of arguments that are not
given are sent as variables. The request need not be valid for the target yet.
-/

namespace Gateway

/-- Where a delegated request comes from. -/
structure RequestSource where
  /-- The gateway schema, if values can be serialized. -/
  schema? : Option Schema
  /-- The type that declares the gateway field. -/
  parentType? : Option Name
  /-- The gateway field. -/
  fieldName? : Option Name
  /-- The fragments of the gateway operation. -/
  fragments : Entries Fragment
  /-- The variables that the gateway operation declares. -/
  definitions : List VariableDefinition
  /-- Their values. -/
  values : Entries Json
  /-- The kind of the operation to send. -/
  kind : OperationKind
  /-- The root field to query; the field of the first node when absent. -/
  target? : Option Name
  /-- What to select in place of the selections of the nodes. -/
  selections? : Option (List Selection)
  /-- The nodes of the gateway field. -/
  nodes : List Field

namespace RequestSource

/-- The selections under the root field. -/
def selections (source : RequestSource) : List Selection :=
  match source.selections? with
  | some selections => selections
  | none => source.nodes.flatMap FieldOf.selections

/-- The arguments of the first node, unless other selections replace those of the nodes. -/
def arguments (source : RequestSource) : Entries Argument :=
  match source.selections?, source.nodes with
  | none, node :: _ => Bindings.argumentsByName node.arguments
  | _, _ => []

/-- The values of the declared variables, serialized for their types. -/
def serializedValues (source : RequestSource) : Entries Json :=
  match source.schema? with
  | none => []
  | some schema => Entries.ofPairs <| source.definitions.filterMap fun definition => do
    let value ← source.values.get? definition.name
    return (definition.name, ← schema.serializeInput? definition.type value)

/-- The value that is sent for the default of an argument. -/
def defaultValue? (schema : Schema) (argument : InputValue) (default : Literal) : Option Json :=
  (default.toJson? []).bind (schema.serializeInput? argument.type)

/-- Binds the default of a declared argument that is not given. -/
def bindDefault (schema : Schema) (bindings : Bindings) (argument : InputValue) : Bindings :=
  match argument.default? with
  | some default =>
    if bindings.arguments.contains argument.name then bindings
    else bindings.bind argument.name argument.type (defaultValue? schema argument default)
  | none => bindings

/-- The arguments that the gateway field declares. -/
def declaredArguments (source : RequestSource) : List InputValue :=
  match source.schema?, source.parentType?, source.fieldName? with
  | some schema, some parentType, some fieldName =>
    ((schema.field? parentType fieldName).map FieldDefinition.arguments).getD []
  | _, _, _ => []

/-- The arguments and variables of the request. -/
def bindings (source : RequestSource) : Bindings :=
  let given : Bindings :=
    { arguments := source.arguments
      definitions := Bindings.definitionsByName source.definitions
      values := source.serializedValues }
  match source.schema? with
  | some schema => source.declaredArguments.foldl (bindDefault schema) given
  | none => given

/-- The root field to query. -/
def rootName? (source : RequestSource) : Option Name :=
  source.target?.or (source.nodes.head?.map FieldOf.name)

/-- Builds the request. -/
def request (source : RequestSource) : Except DelegationError Request :=
  match source.rootName? with
  | none => .error (.invalidRequest "no root field to delegate")
  | some name =>
    let bindings := source.bindings
    let field : Selection :=
      .field { name, arguments := bindings.arguments.values, selections := source.selections }
    let operation : Operation :=
      { kind := source.kind, vars := bindings.definitions.values, selections := [field] }
    .ok {
      document := .operation operation :: source.fragments.values.map Definition.fragment
      vars := bindings.values }

end RequestSource

/-- What can be changed in the request for a gateway field. -/
structure RequestOverrides where
  /-- The kind of the operation to send. -/
  kind? : Option OperationKind := none
  /-- The root field to query. -/
  target? : Option Name := none
  /-- What to select in place of the selections of the nodes. -/
  selections? : Option (List Selection) := none
  /-- The nodes in place of those of the gateway field. -/
  nodes? : Option (List Field) := none

namespace FieldInfo

/-- The source of the request for a gateway field: the operation whose root declares the field, and
the field itself, unless they are changed. -/
def requestSource (info : FieldInfo) (overrides : RequestOverrides) : RequestSource :=
  { schema? := some info.operation.schema
    parentType? := some info.parentType
    fieldName? := some info.fieldName
    fragments := info.operation.fragments
    definitions := info.operation.operation.vars
    values := info.operation.vars
    kind := overrides.kind?.getD (info.operation.schema.operationKindOf info.parentType)
    target? := some (overrides.target?.getD info.fieldName)
    selections? := overrides.selections?
    nodes := overrides.nodes?.getD info.nodes }

/-- The request for a gateway field. -/
def request (info : FieldInfo) (overrides : RequestOverrides) :
    Except DelegationError Request :=
  (info.requestSource overrides).request

end FieldInfo

end Gateway
