import Gateway.Schema.Possible
import Gateway.Validation.Values

/-!
# Valid schemas

The rules that a schema has to keep: names are unique and not reserved, every type that is referred
to exists and can stand where it is used, types have the fields of their interfaces, and directives
are given where they are defined for. Definitions do not lead back to themselves.
-/

namespace Gateway.Schema

/-- Whether no name occurs twice. -/
def distinct (names : List Name) : Bool :=
  decide names.Nodup

/-- Whether the name is kept for introspection. -/
def isReserved (name : Name) : Bool :=
  name.startsWith "__"

/-- Whether directives can be given at a place: they are defined for it, each once unless it is
repeatable, and their arguments fit. -/
def directivesValid (schema : Schema) (location : Name) (directives : List Directive) : Bool :=
  let scope : ValueScope := { schema, vars := [] }
  (scope.checkDirectives location directives).isEmpty

/-- Whether arguments or input fields have distinct names that are not reserved, and input types. -/
def inputsValid (schema : Schema) (location : Name) (inputs : List InputValue) : Bool :=
  distinct (inputs.map InputValue.name)
    && inputs.all fun input =>
      !isReserved input.name && schema.isInput input.type.innerName
        && schema.directivesValid location input.directives

/-- Whether fields have distinct names that are not reserved, output types and valid arguments. -/
def fieldsValid (schema : Schema) (fields : List FieldDefinition) : Bool :=
  !fields.isEmpty && distinct (fields.map FieldDefinition.name)
    && fields.all fun field =>
      !isReserved field.name && schema.isOutput field.type.innerName
        && schema.inputsValid "ARGUMENT_DEFINITION" field.arguments
        && schema.directivesValid "FIELD_DEFINITION" field.directives

/-- Whether enum values have distinct names that are not reserved. -/
def valuesValid (schema : Schema) (values : List EnumValue) : Bool :=
  !values.isEmpty && distinct (values.map EnumValue.name)
    && values.all fun value =>
      !isReserved value.name && schema.directivesValid "ENUM_VALUE" value.directives

/-- Whether values of one type can stand where values of another are declared. -/
def isSubtypeRef (schema : Schema) : TypeRef → TypeRef → Bool
  | .nonNullNamed a, .nonNullNamed b => a == b || schema.isSubtype b a
  | .nonNullNamed a, .named b => a == b || schema.isSubtype b a
  | .named a, .named b => a == b || schema.isSubtype b a
  | .nonNullList a, .nonNullList b => schema.isSubtypeRef a b
  | .nonNullList a, .list b => schema.isSubtypeRef a b
  | .list a, .list b => schema.isSubtypeRef a b
  | _, _ => false

/-- Whether a field can implement a field of an interface: it has a type that fits, the same
arguments, and no further argument is required. -/
def implementsField (schema : Schema) (field declared : FieldDefinition) : Bool :=
  field.name = declared.name && schema.isSubtypeRef field.type declared.type
    && (declared.arguments.all fun argument =>
      field.arguments.any fun given => given.name = argument.name && given.type = argument.type)
    && field.arguments.all fun argument =>
      !argument.isRequired || (declared.argument? argument.name).isSome

/-- Whether a type implements all fields of its interfaces, and implements what these implement. -/
def interfacesValid (schema : Schema) (name : Name) (interfaces : List Name)
    (fields : List FieldDefinition) : Bool :=
  distinct interfaces && !interfaces.contains name
    && interfaces.all fun interface =>
      schema.isInterface interface
        && (schema.interfaces interface).all (fun inherited => interfaces.contains inherited)
        && (schema.fields interface).all fun declared =>
          fields.any fun field => schema.implementsField field declared

/-- Whether the parts of a type keep the rules. -/
def bodyValid (schema : Schema) (name : Name) : TypeBody → Bool
  | .scalar => true
  | .object interfaces fields =>
    schema.fieldsValid fields && schema.interfacesValid name interfaces fields
  | .interface interfaces fields =>
    schema.fieldsValid fields && schema.interfacesValid name interfaces fields
  | .union members =>
    !members.isEmpty && distinct members && members.all schema.isObject
  | .enum values => schema.valuesValid values
  | .input fields => !fields.isEmpty && schema.inputsValid "INPUT_FIELD_DEFINITION" fields

/-- The place where directives of a type are given. -/
def directiveLocation : TypeBody → Name
  | .scalar => "SCALAR"
  | .object .. => "OBJECT"
  | .interface .. => "INTERFACE"
  | .union _ => "UNION"
  | .enum _ => "ENUM"
  | .input _ => "INPUT_OBJECT"

/-! ## Nested definitions -/

/-- How many definitions can be nested in each other. -/
def maxNesting : Nat := 32

/-- The input types that a value of an input type cannot do without. -/
def neededInputs (schema : Schema) (name : Name) : List Name :=
  match schema.body? name with
  | some (.input fields) => fields.filterMap fun field =>
    match field.type with
    | .nonNullNamed type =>
      match schema.body? type with
      | some (.input _) => some type
      | _ => none
    | _ => none
  | _ => []

/-- Whether no chain of needed input types of the given length starts at a type. -/
def needsEnd (schema : Schema) : Nat → Name → Bool
  | 0, _ => false
  | fuel + 1, name => (schema.neededInputs name).all (schema.needsEnd fuel)

/-- A definition to which another one refers. -/
inductive Reference
  /-- A directive that is given. -/
  | directive (name : Name)
  /-- The type of an argument or an input field. -/
  | type (name : Name)

/-- The name of the definition. -/
def Reference.name : Reference → Name
  | .directive name => name
  | .type name => name

/-- The directives as references. -/
def directiveReferences (directives : List Directive) : List Reference :=
  directives.map fun directive => .directive directive.name

/-- What arguments or input fields refer to. -/
def inputReferences (inputs : List InputValue) : List Reference :=
  inputs.flatMap fun input =>
    directiveReferences input.directives ++ [.type input.type.innerName]

/-- What a definition refers to, if there is one. -/
def references? (schema : Schema) : Reference → Option (List Reference)
  | .directive name =>
    (schema.directive? name).map fun directive => inputReferences directive.arguments
  | .type name => (schema.type? name).map fun type =>
    directiveReferences type.directives ++ match type.body with
      | .enum values => values.flatMap fun value => directiveReferences value.directives
      | .input fields => inputReferences fields
      | _ => []

/-- Whether a reference inside of other definitions, the innermost first, does not lead back to the
outermost, which is a directive, and is not nested too deep. -/
def leadsElsewhere (schema : Schema) (outermost : Name) (fuel : Nat) (within : List Name)
    (reference : Reference) : Bool :=
  if within.contains reference.name then !isOutermost reference
  else
    match schema.references? reference, fuel with
    | none, _ => true
    | some _, 0 => false
    | some references, fuel + 1 =>
      references.all (schema.leadsElsewhere outermost fuel (reference.name :: within))
where
  /-- Whether the reference is one to the outermost directive. -/
  isOutermost : Reference → Bool
    | .directive name => name = outermost
    | .type _ => false

/-! ## Whole schemas -/

/-- Whether a type keeps the rules. -/
def typeValid (schema : Schema) (type : TypeDefinition) : Bool :=
  (Builtin.isTypeName type.name || !isReserved type.name)
    && schema.directivesValid (directiveLocation type.body) type.directives
    && schema.bodyValid type.name type.body
    && schema.needsEnd maxNesting type.name

/-- Whether a directive keeps the rules; it is not given inside its own definition. -/
def directiveValid (schema : Schema) (directive : DirectiveDefinition) : Bool :=
  !isReserved directive.name && schema.inputsValid "ARGUMENT_DEFINITION" directive.arguments
    && (inputReferences directive.arguments).all
      (schema.leadsElsewhere directive.name (maxNesting - 1) [directive.name])

/-- Whether there is a query root, and every kind of operations has an object type of its own as its
root. -/
def rootsValid (schema : Schema) : Bool :=
  decide (schema.roots.map Prod.fst).Nodup && decide (schema.roots.map Prod.snd).Nodup
    && (schema.root? .query).isSome && schema.roots.all fun root => schema.isObject root.2

/-- Whether the schema keeps all rules. -/
def isValid (schema : Schema) : Bool :=
  distinct (schema.types.map TypeDefinition.name)
    && distinct (schema.directives.map DirectiveDefinition.name)
    && schema.directivesValid "SCHEMA" schema.given
    && schema.rootsValid && schema.types.all schema.typeValid
    && schema.directives.all schema.directiveValid

end Gateway.Schema
