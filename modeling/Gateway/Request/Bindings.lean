import Gateway.Json.Basic
import Gateway.Language.Syntax

/-!
# Arguments bound to variables

Arguments of a field, the variables that a request defines and their values, kept together while
arguments are made to read variables of their own.
-/

namespace Gateway

/-- The arguments of a field with the variables of its request. -/
structure Bindings where
  /-- The arguments by name. -/
  arguments : Entries Argument := []
  /-- The variable definitions by name. -/
  definitions : Entries VariableDefinition := []
  /-- The values of variables. -/
  values : Entries Json := []

namespace Bindings

/-- Arguments by name; of two with one name the later counts. -/
def argumentsByName (arguments : List Argument) : Entries Argument :=
  Entries.ofPairs (arguments.map fun argument => (argument.name, argument))

/-- Variable definitions by name; of two with one name the later counts. -/
def definitionsByName (definitions : List VariableDefinition) : Entries VariableDefinition :=
  Entries.ofPairs (definitions.map fun definition => (definition.name, definition))

/-- The generated name of a variable for an argument. -/
def variableName (argument : Name) (number : Nat) : Name :=
  "_v" ++ toString number ++ "_" ++ argument

/-- The generated name of least number that is not defined. Among one more numbers than there are
definitions some name is free. -/
def freshVariable (defined : List Name) (argument : Name) : Name :=
  (((List.range (defined.length + 1)).map (variableName argument)).find? fun name =>
    !defined.contains name).getD argument

/-- Makes an argument read a variable of its own with the type and value; without a value nothing is
sent for it, and a stale one is dropped. -/
def bind (bindings : Bindings) (argument : Name) (type : TypeRef) (value? : Option Json) :
    Bindings :=
  let name := freshVariable bindings.definitions.keys argument
  { arguments := bindings.arguments.insert argument ⟨argument, .var name⟩
    definitions := bindings.definitions.insert name { name, type }
    values := bindings.values.assign name value? }

end Bindings

end Gateway
