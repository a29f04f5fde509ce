import Gateway.Input.Literal
import Gateway.Json.Printer
import Gateway.Language.Printer
import Gateway.Schema.Basic

/-!
# Values of variables

The values that an execution uses for the variables of an operation: those supplied, made to fit the
declared types, and the declared defaults of the others.
-/

namespace Gateway.Execution

/-- Why a constant has no JSON value. -/
inductive ConstantFault
  | variable
  | intOverflow
  | floatOverflow
  deriving DecidableEq

namespace ConstantFault

/-- What is reported about a constant for a subject. -/
def message (subject : String) : ConstantFault → String
  | .variable => "variable in default value of " ++ subject ++ "."
  | .intOverflow => "int value overflow in " ++ subject
  | .floatOverflow => "float value overflow in " ++ subject

/-- Variables in constants should have been found before the execution. -/
def extensions : ConstantFault → Entries Json
  | .variable => [("APOLLO_SUSPECTED_VALIDATION_BUG", .bool true)]
  | _ => []

end ConstantFault

/-- The JSON value of the text of a number, with the precision of JSON; a double must be finite. -/
def constantNumber (overflow : ConstantFault) (text : String) : Except ConstantFault Json :=
  match Json.readNumber text.toList with
  | some (.float x, []) => if x.isFinite then .ok (.float x) else .error overflow
  | some (json, []) => .ok json
  | _ => .error overflow

mutual

/-- The JSON value of a literal in which no variable occurs. -/
def constantValue : Literal → Except ConstantFault Json
  | .null => .ok .null
  | .boolean value => .ok (.bool value)
  | .enum name => .ok (.string name)
  | .string text => .ok (.string text)
  | .int text => constantNumber .intOverflow text
  | .float text => constantNumber .floatOverflow text
  | .var _ => .error .variable
  | .list items => .array <$> constantItems items
  | .object fields => .object <$> constantFields [] fields

/-- The JSON values of the items of a list. -/
def constantItems : List Literal → Except ConstantFault (List Json)
  | [] => .ok []
  | item :: rest => do return (← constantValue item) :: (← constantItems rest)

/-- The JSON values of the fields of an object, behind those that are done; the last field of a
name counts. -/
def constantFields (done : Entries Json) :
    List (Name × Literal) → Except ConstantFault (Entries Json)
  | [] => .ok done
  | (name, item) :: rest => do constantFields (done.insert name (← constantValue item)) rest

end

/-- The value of a default for a subject, or what is reported about it. -/
def defaultValue (subject : String) (default : Literal) : Except String Json :=
  (constantValue default).mapError (·.message subject)

/-- The integers from which doubles count without gaps end here. -/
def safeIntegerBound : Nat := Nat.pow 2 53 - 1

/-- Whether a value can be supplied for a built-in scalar; other scalars take every value. -/
def scalarTakes (scalar : Name) (json : Json) : Bool :=
  match scalar, json with
  | "Int", .int n => Json.fitsInt32 n
  | "Int", _ => false
  | "Float", .float _ => true
  | "Float", .int n => decide (n.natAbs < safeIntegerBound)
  | "Float", _ => false
  | "String", .string _ => true
  | "String", _ => false
  | "Boolean", .bool _ => true
  | "Boolean", _ => false
  | "ID", .string _ => true
  | "ID", .int n => Json.fitsInt64 n
  | "ID", _ => false
  | _, _ => true

/-- The items of a list; any other value is a list of one. -/
def itemsOf : Json → List Json
  | .array items => items
  | json => [json]

/-- Makes a value fit a type, given how values are made to fit named types. -/
def coerceRef (named : Name → Json → Except String Json) (subject : String) :
    TypeRef → Json → Except String Json
  | .named name, json => if json.isNull then .ok .null else named name json
  | .nonNullNamed name, json =>
    if json.isNull then .error (nullText (.nonNullNamed name)) else named name json
  | .list item, json =>
    if json.isNull then .ok .null
    else .array <$> (itemsOf json).mapM fun json => coerceRef named subject item json
  | .nonNullList item, json =>
    if json.isNull then .error (nullText (.nonNullList item))
    else .array <$> (itemsOf json).mapM fun json => coerceRef named subject item json
where
  /-- What is reported for a null that is no value of the type. -/
  nullText (type : TypeRef) : String :=
    "null value for " ++ subject ++ " of non-null type " ++ type.print

/-- Makes the members of an object fit the declared fields, in their order; absent fields with a
default are added. -/
def coerceMembers (type : Name) (coerce : String → TypeRef → Json → Except String Json)
    (fields : List InputValue) (members : Entries Json) : Except String (Entries Json) :=
  fields.foldlM (fun members field =>
    let subject := "input field " ++ type ++ "." ++ field.name
    match members.get? field.name, field.default? with
    | some json, _ => do return members.insert field.name (← coerce subject field.type json)
    | none, some default => do
      return members.insert field.name (← defaultValue subject default)
    | none, none =>
      if field.type.isNonNull then
        .error ("Missing value for non-null input object field " ++ type ++ "." ++ field.name)
      else .ok members) members

/-- Makes a value fit a named type; input objects are nested at most as deep as the fuel. -/
def coerceNamed (schema : Schema) : Nat → String → Name → Json → Except String Json
  | 0, subject, type, json => .error (refusal subject type json)
  | fuel + 1, subject, type, json =>
    match schema.body? type, json with
    | some .scalar, json =>
      if scalarTakes type json then .ok json else .error (refusal subject type json)
    | some (.enum values), .string name =>
      if values.any (·.name = name) then .ok json else .error (refusal subject type json)
    | some (.input fields), .object members =>
      match members.find? fun member => !fields.any (·.name = member.1) with
      | some member =>
        .error ("Input object has key " ++ member.1 ++ " not in type " ++ type)
      | none =>
        .object <$> coerceMembers type
          (fun subject => coerceRef (coerceNamed schema fuel subject) subject) fields members
    | _, _ => .error (refusal subject type json)
where
  /-- What is reported for a value that does not fit. -/
  refusal (subject : String) (type : Name) (json : Json) : String :=
    "could not coerce " ++ subject ++ ": " ++ json.render ++ " to type " ++ type

/-- How reports name a variable. -/
def variableSubject (definition : VariableDefinition) : String :=
  "variable " ++ definition.name

/-- Makes the value supplied for a variable fit its type. -/
def coerceVariable (schema : Schema) (definition : VariableDefinition) (json : Json) :
    Except String Json :=
  let subject := variableSubject definition
  coerceRef (coerceNamed schema (json.depth + 1) subject) subject definition.type json

/-- The values of the variables that an operation declares. -/
def variableValues (schema : Schema) (definitions : List VariableDefinition)
    (supplied : Entries Json) : Except String (Entries Json) :=
  definitions.foldlM (fun values definition =>
    match supplied.get? definition.name, definition.default? with
    | some json, _ => do
      return Entries.insert values definition.name (← coerceVariable schema definition json)
    | none, some default => do
      return Entries.insert values definition.name
        (← defaultValue (variableSubject definition) default)
    | none, none =>
      if definition.type.isNonNull then
        .error ("missing value for non-null variable '" ++ definition.name ++ "'")
      else .ok values) ([] : Entries Json)

end Gateway.Execution
