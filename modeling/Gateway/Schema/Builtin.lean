import Gateway.Schema.Basic

/-!
# Built-in types and directives

The scalars, introspection types and directives that every schema has. A built-in scalar that a
schema does not refer to is not among its types.
-/

namespace Gateway.Builtin

/-- The names of the built-in scalars. -/
def scalarNames : List Name := ["Int", "Float", "String", "Boolean", "ID"]

/-- The definition of a scalar. -/
def scalar (name : Name) : TypeDefinition :=
  { name, body := .scalar }

/-- A field definition without arguments. -/
def field (name : Name) (type : TypeRef) : FieldDefinition :=
  { name, type }

/-- A field definition whose only argument asks for deprecated parts as well. -/
def fieldWithDeprecated (name : Name) (type : TypeRef) : FieldDefinition :=
  { name, type,
    arguments := [{ name := "includeDeprecated", type := .named "Boolean",
                    default? := some (.boolean false) }] }

/-- A list type without null items. -/
def listOf (name : Name) : TypeRef := .list (.nonNullNamed name)

/-- A list type without nulls. -/
def fullListOf (name : Name) : TypeRef := .nonNullList (.nonNullNamed name)

/-- An object type of its fields. -/
def object (name : Name) (fields : List FieldDefinition) : TypeDefinition :=
  { name, body := .object [] fields }

/-- An enum of its values. -/
def enum (name : Name) (values : List Name) : TypeDefinition :=
  { name, body := .enum (values.map fun value => { name := value }) }

/-- The types by which a schema describes itself. -/
def introspectionTypes : List TypeDefinition := [
  object "__Schema" [
    field "description" (.named "String"),
    field "types" (fullListOf "__Type"),
    field "queryType" (.nonNullNamed "__Type"),
    field "mutationType" (.named "__Type"),
    field "subscriptionType" (.named "__Type"),
    field "directives" (fullListOf "__Directive")],
  object "__Type" [
    field "kind" (.nonNullNamed "__TypeKind"),
    field "name" (.named "String"),
    field "description" (.named "String"),
    fieldWithDeprecated "fields" (listOf "__Field"),
    field "interfaces" (listOf "__Type"),
    field "possibleTypes" (listOf "__Type"),
    fieldWithDeprecated "enumValues" (listOf "__EnumValue"),
    fieldWithDeprecated "inputFields" (listOf "__InputValue"),
    field "ofType" (.named "__Type"),
    field "specifiedByURL" (.named "String")],
  enum "__TypeKind"
    ["SCALAR", "OBJECT", "INTERFACE", "UNION", "ENUM", "INPUT_OBJECT", "LIST", "NON_NULL"],
  object "__Field" [
    field "name" (.nonNullNamed "String"),
    field "description" (.named "String"),
    fieldWithDeprecated "args" (fullListOf "__InputValue"),
    field "type" (.nonNullNamed "__Type"),
    field "isDeprecated" (.nonNullNamed "Boolean"),
    field "deprecationReason" (.named "String")],
  object "__InputValue" [
    field "name" (.nonNullNamed "String"),
    field "description" (.named "String"),
    field "type" (.nonNullNamed "__Type"),
    field "defaultValue" (.named "String"),
    field "isDeprecated" (.nonNullNamed "Boolean"),
    field "deprecationReason" (.named "String")],
  object "__EnumValue" [
    field "name" (.nonNullNamed "String"),
    field "description" (.named "String"),
    field "isDeprecated" (.nonNullNamed "Boolean"),
    field "deprecationReason" (.named "String")],
  object "__Directive" [
    field "name" (.nonNullNamed "String"),
    field "description" (.named "String"),
    field "isRepeatable" (.nonNullNamed "Boolean"),
    field "locations" (fullListOf "__DirectiveLocation"),
    fieldWithDeprecated "args" (fullListOf "__InputValue")],
  enum "__DirectiveLocation"
    ["QUERY", "MUTATION", "SUBSCRIPTION", "FIELD", "FRAGMENT_DEFINITION", "FRAGMENT_SPREAD",
      "INLINE_FRAGMENT", "VARIABLE_DEFINITION", "SCHEMA", "SCALAR", "OBJECT", "FIELD_DEFINITION",
      "ARGUMENT_DEFINITION", "INTERFACE", "UNION", "ENUM", "ENUM_VALUE", "INPUT_OBJECT",
      "INPUT_FIELD_DEFINITION"]]

/-- The types that precede those that a service defines. -/
def types : List TypeDefinition :=
  introspectionTypes ++ scalarNames.map scalar

/-- Whether a type of the name is built in. -/
def isTypeName (name : Name) : Bool :=
  types.any (·.name = name)

/-- Whether a scalar of the name is built in. -/
def isScalarName (name : Name) : Bool :=
  scalarNames.contains name

/-- The directives on which a selection can depend. -/
def conditionalDirective (name : Name) : DirectiveDefinition :=
  { name, arguments := [{ name := "if", type := .nonNullNamed "Boolean" }],
    locations := ["FIELD", "FRAGMENT_SPREAD", "INLINE_FRAGMENT"] }

/-- The directives that precede those that a service defines. -/
def directives : List DirectiveDefinition := [
  conditionalDirective "skip",
  conditionalDirective "include",
  { name := "deprecated",
    arguments := [{ name := "reason", type := .named "String",
                    default? := some (.string "No longer supported") }],
    locations := ["FIELD_DEFINITION", "ARGUMENT_DEFINITION", "INPUT_FIELD_DEFINITION",
      "ENUM_VALUE"] },
  { name := "specifiedBy",
    arguments := [{ name := "url", type := .nonNullNamed "String" }],
    locations := ["SCALAR"] }]

/-- The meta field that gives a schema's description of itself. -/
def schemaField : FieldDefinition := field "__schema" (.nonNullNamed "__Schema")

/-- The meta field that gives the description of a type. -/
def typeField : FieldDefinition :=
  { name := "__type", type := .named "__Type",
    arguments := [{ name := "name", type := .nonNullNamed "String" }] }

/-- The meta field that names the concrete type of an object. -/
def typenameDefinition : FieldDefinition := field typenameField (.nonNullNamed "String")

end Gateway.Builtin
