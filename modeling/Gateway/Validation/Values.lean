import Gateway.Json.Parser
import Gateway.Schema.Builtin
import Gateway.Validation.Diagnostic

/-!
# Checking values

Whether literals and variables fit the types of the arguments for which they are given, and whether
directives are defined and given where they may stand.
-/

namespace Gateway

/-- Whether the text of a number is a finite double. -/
def isFiniteNumber (text : String) : Bool :=
  match Json.readNumber text.toList with
  | some (.float x, []) => x.isFinite
  | some (.int _, []) => true
  | _ => false

/-- Whether the text of an integer fits in a signed 32-bit word. -/
def isInt32Text (text : String) : Bool :=
  match text.toInt? with
  | some n => Json.fitsInt32 n
  | none => false

/-- What values are checked against. -/
structure ValueScope where
  /-- The schema that declares the types. -/
  schema : Schema
  /-- The variables in scope. -/
  vars : List VariableDefinition

namespace ValueScope

/-- The definition of a variable. -/
def definition? (scope : ValueScope) (name : Name) : Option VariableDefinition :=
  scope.vars.find? (·.name = name)

/-- The kinds of literals of which built-in scalars accept values. -/
def scalarAccepts (scalar : Name) : Literal → Bool
  | .int _ => scalar == "ID" || scalar == "Int" || scalar == "Float"
  | .float _ => scalar == "Float"
  | .string _ => scalar == "String" || scalar == "ID"
  | .boolean _ => scalar == "Boolean"
  | _ => false

/-- The findings about a number that has the right kind for a built-in scalar. -/
def scalarRange (scalar : Name) : Literal → List Diagnostic
  | .int text =>
    if scalar = "Int" ∧ !isInt32Text text then [.integerOutOfRange]
    else if scalar = "Float" ∧ !isFiniteNumber text then [.floatOutOfRange]
    else []
  | .float text => if isFiniteNumber text then [] else [.floatOutOfRange]
  | _ => []

/-- The findings about a literal that is no list, object, null or variable. -/
def checkPlain (type : TypeRef) (body : TypeBody) (value : Literal) : List Diagnostic :=
  let isBuiltin := Builtin.isScalarName type.innerName
  match body, value with
  | .scalar, .enum _ => if isBuiltin then [.wrongValue type value] else []
  | .scalar, value =>
    if !isBuiltin then []
    else if scalarAccepts type.innerName value then scalarRange type.innerName value
    else [.wrongValue type value]
  | .enum values, .enum name =>
    if values.any (·.name = name) then [] else [.undefinedEnumValue name type.innerName]
  | _, _ => [.wrongValue type value]

/-- The findings about required fields of an input object that are absent or null. -/
def missingFields (type : Name) (fields : List InputValue) (given : List (Name × Literal)) :
    List Diagnostic :=
  fields.filterMap fun field =>
    let isGiven := given.any fun entry => entry.1 = field.name
    let isNull := given.any fun entry => entry.1 = field.name && entry.2.isNull
    if field.isRequired && (!isGiven || isNull) then some (.missingInputField type field.name)
    else none

mutual

/-- The findings about a value for a type. A variable is compared by its named type; its default
was checked where it is defined. -/
def checkValue (scope : ValueScope) (type : TypeRef) : Literal → List Diagnostic
  | .null => if type.isNonNull then [.wrongValue type .null] else []
  | .var name =>
    match scope.schema.body? type.innerName with
    | none => []
    | some _ =>
      if scope.schema.isInput type.innerName then
        match scope.definition? name with
        | some definition =>
          if definition.type.innerName ≠ type.innerName then [.wrongValue type (.var name)]
          else []
        | none => [.undefinedVariable name]
      else [.wrongValue type (.var name)]
  | .list items =>
    match scope.schema.body? type.innerName with
    | none => []
    | some body =>
      let isCustomScalar := body = .scalar && !Builtin.isScalarName type.innerName
      if type.isList || isCustomScalar then
        if scope.schema.isInput type.innerName then
          checkItems scope (type.item?.getD type) items
        else [.wrongValue (type.item?.getD type) (.list items)]
      else [.wrongValue type (.list items)]
  | .object given =>
    match scope.schema.body? type.innerName with
    | none => []
    | some (.input fields) =>
      let undefined := match given.find? fun entry => !fields.any (·.name = entry.1) with
        | some entry => [Diagnostic.undefinedInputField entry.1 type.innerName]
        | none => []
      undefined ++ missingFields type.innerName fields given ++ checkFields scope fields [] given
    | some body =>
      if body = .scalar && !Builtin.isScalarName type.innerName then []
      else [.wrongValue type (.object given)]
  | value =>
    match scope.schema.body? type.innerName with
    | none => []
    | some body => checkPlain type body value

/-- The findings about the items of a list. -/
def checkItems (scope : ValueScope) (type : TypeRef) : List Literal → List Diagnostic
  | [] => []
  | item :: rest => checkValue scope type item ++ checkItems scope type rest

/-- The findings about the declared fields among those that are given, behind those of some names;
only the first field of a name is checked. -/
def checkFields (scope : ValueScope) (fields : List InputValue) (checked : List Name) :
    List (Name × Literal) → List Diagnostic
  | [] => []
  | (name, value) :: rest =>
    (match fields.find? fun field => field.name = name && !checked.contains name with
      | some field => checkValue scope field.type value
      | none => []) ++ checkFields scope fields (name :: checked) rest

end

/-- Whether a variable may be used where a value is declared: a nullable variable for a non-null
type needs a default on either side. -/
def usageAllowed (definition : VariableDefinition) (expected : InputValue) : Bool :=
  if expected.type.isNonNull && !definition.type.isNonNull then
    (definition.default?.isSome || expected.default?.isSome)
      && definition.type.isAssignable expected.type.nullable
  else definition.type.isAssignable expected.type

/-- The findings about an argument that is declared. -/
def checkArgument (scope : ValueScope) (expected : InputValue) (value : Literal) :
    List Diagnostic :=
  match value with
  | .var name =>
    match scope.definition? name with
    | none => [.undefinedVariable name]
    | some definition =>
      if usageAllowed definition expected then scope.checkValue expected.type value
      else [.variableNotAllowed name definition.type expected.name expected.type]
  | value => scope.checkValue expected.type value

/-- The names that occur again behind their first occurrence. -/
def repeated : List Name → List Name
  | [] => []
  | name :: rest => (if rest.contains name then [name] else []) ++ repeated rest

/-- The findings about required arguments that are absent or null; the coordinate names the field or
directive that declares them. -/
def missingArguments (coordinate : String) (declared : List InputValue) (given : List Argument) :
    List Diagnostic :=
  declared.filterMap fun expected =>
    let isAbsent := match given.find? (·.name = expected.name) with
      | some argument => argument.value.isNull
      | none => true
    if expected.isRequired && isAbsent then
      some (.missingArgument (coordinate ++ "(" ++ expected.name ++ ":)"))
    else none

/-- The findings about the arguments given where some are declared. -/
def givenArguments (scope : ValueScope) (coordinate : String) (declared : List InputValue)
    (given : List Argument) : List Diagnostic :=
  (repeated (given.map Argument.name)).map Diagnostic.repeatedArgument
  ++ given.flatMap fun argument =>
      match declared.find? (·.name = argument.name) with
      | some expected => scope.checkArgument expected argument.value
      | none => [.undefinedArgument argument.name coordinate]

/-- The findings about the directives given at a place. -/
def checkDirectives (scope : ValueScope) (location : Name) (directives : List Directive) :
    List Diagnostic :=
  ((repeated (directives.map Directive.name)).filterMap fun name =>
      match scope.schema.directive? name with
      | some definition => if definition.repeatable then none else some (.repeatedDirective name)
      | none => none)
  ++ directives.flatMap fun directive =>
      match scope.schema.directive? directive.name with
      | none =>
        .undefinedDirective directive.name
          :: (repeated (directive.arguments.map Argument.name)).map Diagnostic.repeatedArgument
      | some definition =>
        (if definition.locations.contains location then []
          else [.misplacedDirective directive.name location])
        ++ missingArguments ("@" ++ directive.name) definition.arguments directive.arguments
        ++ scope.givenArguments ("@" ++ directive.name) definition.arguments directive.arguments

/-- The findings about the variables that an operation declares. -/
def checkDefinitions (scope : ValueScope) : List Diagnostic :=
  (repeated (scope.vars.map VariableDefinition.name)).map Diagnostic.repeatedVariable
  ++ scope.vars.flatMap fun definition =>
      scope.checkDirectives "VARIABLE_DEFINITION" definition.directives
      ++ (match scope.schema.body? definition.type.innerName with
        | none => [Diagnostic.undefinedType definition.type.innerName]
        | some _ =>
          if scope.schema.isInput definition.type.innerName then
            match definition.default? with
            | some value =>
              let constant : ValueScope := { scope with vars := [] }
              constant.checkValue definition.type value
            | none => []
          else [.variableOfOutputType definition.name])

end ValueScope

end Gateway
