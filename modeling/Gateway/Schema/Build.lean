import Gateway.Schema.Validity
import Gateway.Language.Parser

/-!
# Building schemas

A schema is built from the definitions of a document: extensions are merged into what they extend,
and without a schema definition the types `Query`, `Mutation` and `Subscription` are the roots, of
which there has to be one.
-/

namespace Gateway

/-- The parts of an extended type, when both are of one kind. -/
def TypeBody.extend? : TypeBody → TypeBody → Option TypeBody
  | .scalar, .scalar => some .scalar
  | .object interfaces fields, .object moreInterfaces moreFields =>
    some (.object (interfaces ++ moreInterfaces) (fields ++ moreFields))
  | .interface interfaces fields, .interface moreInterfaces moreFields =>
    some (.interface (interfaces ++ moreInterfaces) (fields ++ moreFields))
  | .union members, .union moreMembers => some (.union (members ++ moreMembers))
  | .enum values, .enum moreValues => some (.enum (values ++ moreValues))
  | .input fields, .input moreFields => some (.input (fields ++ moreFields))
  | _, _ => none

/-- Whether the parts are those of an object type. -/
def TypeBody.isObject : TypeBody → Bool
  | .object .. => true
  | _ => false

/-- The type with an extension of its kind. -/
def TypeDefinition.extend? (type extension : TypeDefinition) : Option TypeDefinition := do
  let body ← type.body.extend? extension.body
  return { type with body, directives := type.directives ++ extension.directives }

namespace Schema

/-- The types with one of them extended; there has to be such a type. -/
def extendType? (extension : TypeDefinition) :
    List TypeDefinition → Option (List TypeDefinition)
  | [] => none
  | type :: rest =>
    if type.name = extension.name then do return (← type.extend? extension) :: rest
    else do return type :: (← extendType? extension rest)

/-- The root types by their customary names. -/
def defaultRoots (types : List TypeDefinition) : List (OperationKind × Name) :=
  [(.query, "Query"), (.mutation, "Mutation"), (.subscription, "Subscription")].filter fun root =>
    types.any fun type => type.name = root.2 && type.body.isObject

/-- The definitions of a type system; a document for requests has others. -/
def definitions? (document : Document) : Option (List TypeSystemDefinition) :=
  document.mapM fun
    | .typeSystem definition => some definition
    | _ => none

/-- The directives of a schema that defines some; a built-in directive can be defined anew. -/
def directivesWith (defined : List DirectiveDefinition) : List DirectiveDefinition :=
  (Builtin.directives.map fun builtin => (defined.find? (·.name = builtin.name)).getD builtin)
  ++ defined.filter fun directive => !Builtin.directives.any (·.name = directive.name)

/-- The schema of the definitions, before it is checked. -/
def ofDefinitions? (definitions : List TypeSystemDefinition) : Option Schema := do
  let defined := definitions.filterMap fun
    | .type type => some type
    | _ => none
  let extensions := definitions.filterMap fun
    | .typeExtension type => some type
    | _ => none
  let types ← extensions.foldlM (fun types extension => extendType? extension types)
    (Builtin.types ++ defined)
  let directives := definitions.filterMap fun
    | .directive directive => some directive
    | _ => none
  if !distinct (directives.map DirectiveDefinition.name) then none
  let schemas := definitions.filterMap fun
    | .schema schema => some schema
    | _ => none
  let schemaExtensions := definitions.filterMap fun
    | .schemaExtension schema => some schema
    | _ => none
  let schema ← match schemas with
    | [] =>
      match defaultRoots types with
      | [] => none
      | roots => some { roots }
    | [schema] => some schema
    | _ => none
  return {
    types
    directives := directivesWith directives
    roots := schema.roots ++ schemaExtensions.flatMap SchemaDefinition.roots
    given := schema.directives ++ schemaExtensions.flatMap SchemaDefinition.directives }

/-- The types to which arguments, fields and directives refer. -/
def referredTypes (schema : Schema) : List Name :=
  let ofInputs (inputs : List InputValue) : List Name := inputs.map (·.type.innerName)
  (schema.types.flatMap fun type => match type.body with
    | .input fields => ofInputs fields
    | body => body.fields.flatMap fun field => field.type.innerName :: ofInputs field.arguments)
  ++ schema.directives.flatMap fun directive => ofInputs directive.arguments

/-- The schema without built-in scalars to which nothing refers. -/
def dropUnusedScalars (schema : Schema) : Schema :=
  let used := schema.referredTypes
  { schema with
    types := schema.types.filter fun type =>
      !Builtin.isScalarName type.name || used.contains type.name }

/-- The valid schema that a text defines. -/
def parse? (text : String) : Option Schema := do
  let document ← Document.parse? text
  let definitions ← definitions? document
  let schema ← ofDefinitions? definitions
  if schema.isValid then some schema.dropUnusedScalars else none

end Schema

end Gateway
