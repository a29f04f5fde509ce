import Gateway.Operation.Collect
import Gateway.Path
import Gateway.Request.Basic

/-!
# Gateway fields

The gateway operation to which a delegated field belongs, and the field itself: its parent type, its
merged nodes, its declared type and its position in the result.
-/

namespace Gateway

/-- An operation sent to the gateway, with all that it needs to be read. -/
structure GatewayOperation where
  /-- The schema of the gateway. -/
  schema : Schema
  /-- The operation. -/
  operation : Operation
  /-- The fragments of its document. -/
  fragments : Entries Fragment
  /-- The values of its variables. -/
  vars : Entries Json

namespace GatewayOperation

/-- The operation of the name, or the only one of the document when no name is given. -/
def select (document : Document) (name? : Option Name) : Except DelegationError Operation :=
  let candidates := document.operations.filter fun operation =>
    match name? with
    | some name => operation.name? = some name
    | none => true
  match candidates with
  | [operation] => .ok operation
  | [] => .error <| .invalidRequest <| match name? with
    | some name => "unknown operation named \"" ++ name ++ "\""
    | none => "document does not contain an operation"
  | _ => .error <| .invalidRequest
    "an operation name is required when the document contains several operations"

/-- Selects an operation of a document. -/
def ofDocument (schema : Schema) (document : Document) (name? : Option Name)
    (vars : Entries Json) : Except DelegationError GatewayOperation := do
  let operation ← select document name?
  return { schema, operation, fragments := document.fragmentsByName, vars }

/-- How the fields of the operation are collected. -/
def scope (operation : GatewayOperation) : Scope :=
  { schema := operation.schema, fragments := operation.fragments
    vars := operation.vars }

end GatewayOperation

/-- A field of a gateway operation. -/
structure FieldInfo where
  /-- The operation. -/
  operation : GatewayOperation
  /-- The type that declares the field. -/
  parentType : Name
  /-- The field. -/
  fieldName : Name
  /-- The nodes that select it under its response key. -/
  nodes : List Field
  /-- The declared type. -/
  returnType : TypeRef
  /-- The position in the result. -/
  path : Path

namespace FieldInfo

/-- The type of a field; the meta field has one on every type. -/
def returnType? (schema : Schema) (parentType fieldName : Name) : Option TypeRef :=
  if fieldName = typenameField then some (.nonNullNamed "String")
  else (schema.field? parentType fieldName).map FieldDefinition.type

/-- The field that the nodes select on a type. -/
def ofNodes (operation : GatewayOperation) (parentType : Name) (nodes : List Field)
    (path : Path) : Except DelegationError FieldInfo :=
  match nodes with
  | [] => .error (.invalidRequest "empty field selection")
  | node :: _ =>
    match returnType? operation.schema parentType node.name with
    | none => .error (.missingReturnType node.name)
    | some returnType =>
      .ok { operation, parentType, fieldName := node.name, nodes, returnType, path }

/-- The root field that the operation selects under a response key. -/
def root (operation : GatewayOperation) (responseKey : Name) :
    Except DelegationError FieldInfo :=
  let kind := operation.operation.kind
  match operation.schema.root? kind with
  | none => .error (.missingRootType "gateway" kind.keyword)
  | some rootType =>
    match (operation.scope.fieldsOf rootType operation.operation.selections).get? responseKey with
    | none => .error (.missingRootField rootType responseKey)
    | some nodes => ofNodes operation rootType nodes [.key responseKey]

/-- The key of the field in the result. -/
def responseKey (info : FieldInfo) : Name :=
  (info.nodes.head?.map FieldOf.responseKey).getD info.fieldName

/-- The fields selected on the field's value when it is of the type. -/
def subFields (info : FieldInfo) (type : Name) : Entries (List Field) :=
  info.operation.scope.subFields type info.nodes

/-- The field that the nodes select on the field's value of the type. -/
def child? (info : FieldInfo) (parentType responseKey : Name) (nodes : List Field) :
    Option FieldInfo :=
  (ofNodes info.operation parentType nodes (info.path.join (.key responseKey))).toOption

/-- The same field, at an item of its list. -/
def atIndex (info : FieldInfo) (position : Nat) : FieldInfo :=
  { info with path := info.path.join (.index position) }

end FieldInfo

end Gateway
