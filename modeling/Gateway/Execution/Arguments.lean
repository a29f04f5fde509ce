import Gateway.Execution.Completion
import Gateway.Input.Serialize

/-!
# Values of arguments

The values that a field gets for its arguments: those given, with variables filled in, and the
declared defaults of the others.
-/

namespace Gateway.Execution

open Completion (fail)

/-- As many lists of one around a value as a type has lists. -/
def nest : TypeRef → Json → Json
  | .list item, json => .array [nest item json]
  | .nonNullList item, json => .array [nest item json]
  | _, json => json

/-- The value of a constant for a subject. -/
def constant (path : Path) (subject : String) (literal : Literal) : Completion Json :=
  match constantValue literal with
  | .ok json => pure json
  | .error fault => fail path (fault.message subject) fault.extensions

/-- The value of a literal that is no input object, for a type whose values are not lists; input
objects are refused. -/
def plainValue (schema : Schema) (path : Path) (subject : String) (type : Name)
    (literal : Literal) : Completion Json :=
  match schema.inputFields? type with
  | some _ =>
    fail path ("could not coerce " ++ subject ++ ": " ++ literal.print ++ " to type " ++ type)
  | none => constant path subject literal

/-- How reports name a field of an input object. -/
def fieldSubject (type field : Name) : String :=
  "input field " ++ type ++ "." ++ field

/-- The members of an input object in the order of the declared fields, from the values of the
fields that are given; absent fields with a default are added. -/
def inputMembers (path : Path) (type : Name) (declared : List InputValue)
    (given : Entries (Completion Json)) : Completion (Entries Json) :=
  declared.foldlM (fun members field =>
    match given.get? field.name, field.default? with
    | some value, _ => do return Entries.insert members field.name (← value)
    | none, some default => do
      let json ← constant path (fieldSubject type field.name) default
      return Entries.insert members field.name json
    | none, none =>
      if field.type.isNonNull then
        fail path ("Missing value for non-null input object field " ++ type ++ "." ++ field.name)
      else pure members) ([] : Entries Json)

mutual

/-- The value of a literal for a declared type. -/
def argumentValue (schema : Schema) (vars : Entries Json) (path : Path) (subject : String) :
    Literal → TypeRef → Completion Json
  | .null, type =>
    if type.isNonNull then fail path ("null value for non-null " ++ subject) else pure .null
  | .var name, type =>
    match vars.get? name with
    | some json =>
      if json.isNull && type.isNonNull then
        fail path ("null variable value for non-null " ++ subject)
      else pure json
    | none =>
      if type.isNonNull then fail path ("missing variable for non-null " ++ subject)
      else pure .null
  | .list items, type =>
    match type.item? with
    | some item => .array <$> argumentItems schema vars path subject item items
    | none => plainValue schema path subject type.innerName (.list items)
  | .object fields, type =>
    match schema.inputFields? type.innerName with
    | some declared => do
      if let some (name, _) := fields.find? fun field => !declared.any (·.name = field.1) then
        fail path ("Input object has key " ++ name ++ " not in type " ++ type.innerName)
      let given := argumentFields schema vars path type.innerName declared [] fields
      return nest type (.object (← inputMembers path type.innerName declared given))
    | none => nest type <$> constant path subject (.object fields)
  | literal, type => nest type <$> plainValue schema path subject type.innerName literal

/-- The values of the items of a list. -/
def argumentItems (schema : Schema) (vars : Entries Json) (path : Path) (subject : String)
    (type : TypeRef) : List Literal → Completion (List Json)
  | [] => pure []
  | item :: rest => do
    let value ← argumentValue schema vars path subject item type
    return value :: (← argumentItems schema vars path subject type rest)

/-- The steps that give the values of the fields of an input object, behind those that are done; the
last field of a name counts. -/
def argumentFields (schema : Schema) (vars : Entries Json) (path : Path) (type : Name)
    (declared : List InputValue) (done : Entries (Completion Json)) :
    List (Name × Literal) → Entries (Completion Json)
  | [] => done
  | (name, literal) :: rest =>
    match declared.find? (·.name = name) with
    | some field =>
      let step :=
        argumentValue schema vars path (fieldSubject type name) literal field.type
      argumentFields schema vars path type declared (done.insert name step) rest
    | none => argumentFields schema vars path type declared done rest

end

/-- The value of a declared argument, if it gets one. -/
def declaredArgument (schema : Schema) (vars : Entries Json) (path : Path)
    (given : List Argument) (declared : InputValue) : Completion (Option Json) :=
  let subject := "argument " ++ declared.name
  let absent : Completion (Option Json) :=
    match declared.default? with
    | some default => some <$> constant path subject default
    | none =>
      if declared.type.isNonNull then
        fail path ("missing value for required argument " ++ declared.name)
      else pure none
  let refuse : Completion (Option Json) :=
    fail path ("null value for non-nullable argument " ++ declared.name)
  match given.find? (·.name = declared.name) with
  | none => absent
  | some ⟨_, .var name⟩ =>
    match vars.get? name with
    | some json => if json.isNull && declared.type.isNonNull then refuse else pure (some json)
    | none => absent
  | some ⟨_, literal⟩ =>
    if literal.isNull && declared.type.isNonNull then refuse
    else some <$> argumentValue schema vars path subject literal declared.type

/-- The values of the arguments of a field node, in the order in which they are declared. -/
def argumentValues (schema : Schema) (vars : Entries Json) (path : Path)
    (declared : List InputValue) (node : Field) : Completion (Entries Json) :=
  declared.filterMapM fun argument => do
    let value? ← declaredArgument schema vars path node.arguments argument
    return value?.map fun value => (argument.name, value)

end Gateway.Execution
