import Gateway.Execution.Variables
import Gateway.GraphError
import Gateway.Operation.Collect

/-!
# Steps of an execution

A step reports the errors of the values that it cannot give; null takes the place of such a value,
at the nearest position that allows null.
-/

namespace Gateway.Execution

/-- A step of an execution: it reports errors, and may leave nothing but null. -/
abbrev Completion (α : Type) := OptionT (StateM (List GraphError)) α

namespace Completion

/-- Reports an error about a value, which becomes null. -/
def fail {α : Type} (path : Path) (message : String) (extensions : Entries Json := []) :
    Completion α := do
  modify (· ++ [{ message, path := some path, extensions }])
  failure

/-- The value, or null where the type allows null. -/
def orNull (type : TypeRef) (step : Completion Json) : Completion Json :=
  if type.isNonNull then step else step <|> pure .null

end Completion

end Gateway.Execution
