import Gateway.Language.Syntax

/-!
# Schemas

A schema holds its types in order, built-in types first, its directives and the root types of its
operations. Look-ups go by name; the meta field `__typename` is declared by no type.
-/

namespace Gateway

/-- The types, directives and root types of a service. -/
structure Schema where
  /-- The types, in order of definition. -/
  types : List TypeDefinition
  /-- The directives. -/
  directives : List DirectiveDefinition
  /-- The root types. -/
  roots : List (OperationKind × Name)
  /-- The directives given to the schema itself. -/
  given : List Directive := []
  deriving DecidableEq, Inhabited

namespace Schema

/-- The type of a name. -/
def type? (schema : Schema) (name : Name) : Option TypeDefinition :=
  schema.types.find? (·.name = name)

/-- What the type of a name is made of. -/
def body? (schema : Schema) (name : Name) : Option TypeBody :=
  (schema.type? name).map TypeDefinition.body

/-- Whether there is a type of the name. -/
def hasType (schema : Schema) (name : Name) : Bool :=
  (schema.type? name).isSome

/-- The directive of a name. -/
def directive? (schema : Schema) (name : Name) : Option DirectiveDefinition :=
  schema.directives.find? (·.name = name)

/-- The root type of a kind of operations. -/
def root? (schema : Schema) (kind : OperationKind) : Option Name :=
  (schema.roots.find? (·.1 = kind)).map Prod.snd

/-- The kind of operations whose root is the type; a query for every other type. -/
def operationKindOf (schema : Schema) (type : Name) : OperationKind :=
  if schema.root? .mutation = some type then .mutation
  else if schema.root? .subscription = some type then .subscription
  else .query

/-- Whether the type is an object type. -/
def isObject (schema : Schema) (name : Name) : Bool :=
  match schema.body? name with
  | some (.object ..) => true
  | _ => false

/-- Whether the type is an interface. -/
def isInterface (schema : Schema) (name : Name) : Bool :=
  match schema.body? name with
  | some (.interface ..) => true
  | _ => false

/-- Whether the type is an interface or a union. -/
def isAbstract (schema : Schema) (name : Name) : Bool :=
  match schema.body? name with
  | some (.interface ..) => true
  | some (.union _) => true
  | _ => false

/-- Whether values of the type have fields. -/
def isComposite (schema : Schema) (name : Name) : Bool :=
  schema.isObject name || schema.isAbstract name

/-- Whether the type is a scalar or an enum. -/
def isLeaf (schema : Schema) (name : Name) : Bool :=
  match schema.body? name with
  | some .scalar => true
  | some (.enum _) => true
  | _ => false

/-- Whether values of the type can be given as arguments. -/
def isInput (schema : Schema) (name : Name) : Bool :=
  match schema.body? name with
  | some .scalar => true
  | some (.enum _) => true
  | some (.input _) => true
  | _ => false

/-- Whether fields can have values of the type. -/
def isOutput (schema : Schema) (name : Name) : Bool :=
  schema.isLeaf name || schema.isComposite name

end Schema

/-- The fields of an object type or an interface. -/
def TypeBody.fields : TypeBody → List FieldDefinition
  | .object _ fields => fields
  | .interface _ fields => fields
  | _ => []

/-- The interfaces that an object type or an interface implements. -/
def TypeBody.interfaces : TypeBody → List Name
  | .object interfaces _ => interfaces
  | .interface interfaces _ => interfaces
  | _ => []

namespace Schema

/-- The fields that a type declares; unions declare none. -/
def fields (schema : Schema) (type : Name) : List FieldDefinition :=
  ((schema.body? type).map TypeBody.fields).getD []

/-- The interfaces that a type declares to implement. -/
def interfaces (schema : Schema) (type : Name) : List Name :=
  ((schema.body? type).map TypeBody.interfaces).getD []

/-- A field that an object type or an interface declares. -/
def field? (schema : Schema) (type field : Name) : Option FieldDefinition :=
  (schema.fields type).find? (·.name = field)

/-- The name of the type of a declared field; none for the meta field. -/
def fieldTypeName? (schema : Schema) (type field : Name) : Option Name :=
  if field = typenameField then none
  else (schema.field? type field).map (·.type.innerName)

/-- Whether the field can be selected on the type. -/
def hasField (schema : Schema) (type field : Name) : Bool :=
  if field = typenameField then schema.isComposite type
  else (schema.field? type field).isSome

end Schema

/-- An argument that a field declares. -/
def FieldDefinition.argument? (field : FieldDefinition) (name : Name) : Option InputValue :=
  field.arguments.find? (·.name = name)

end Gateway
