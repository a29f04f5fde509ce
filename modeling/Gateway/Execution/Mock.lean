import Gateway.Json.Printer
import Gateway.Language.Name

/-!
# Root values

A root value answers the root fields of an execution from their arguments. Objects inside an answer
may name their type under `__typename`, and an object with the key `__error` stands for a failure.
-/

namespace Gateway.Execution

/-- How a root field is answered. -/
inductive RootField
  /-- The text of the arguments. -/
  | echo
  /-- A value in which arguments are filled in. -/
  | template (value : Json)
  /-- A value chosen by the text of an argument. -/
  | byArgument (argument : Name) (cases : Entries Json) (default : Json)

/-- The text that a template holds in place of an argument starts like this. -/
def argumentMark : String := "$arg:"

/-- The text in place of an argument, or the text itself. -/
def fillText (arguments : Entries Json) (text : String) : Json :=
  if text.startsWith argumentMark then
    (arguments.get? (text.drop argumentMark.length).toString).getD .null
  else .string text

mutual

/-- Fills arguments into a template. -/
def fill (arguments : Entries Json) : Json → Json
  | .string text => fillText arguments text
  | .array items => .array (fillItems arguments items)
  | .object members => .object (fillMembers arguments members)
  | json => json

/-- Fills arguments into items. -/
def fillItems (arguments : Entries Json) : List Json → List Json
  | [] => []
  | item :: rest => fill arguments item :: fillItems arguments rest

/-- Fills arguments into members. -/
def fillMembers (arguments : Entries Json) : List (String × Json) → Entries Json
  | [] => []
  | (key, item) :: rest => (key, fill arguments item) :: fillMembers arguments rest

end

/-- The text by which an argument chooses an answer. -/
def choiceText : Option Json → String
  | none => "<none>"
  | some (.string text) => text
  | some json => json.sortKeys.render

namespace RootField

/-- The value of the field for its arguments. -/
def answer (arguments : Entries Json) : RootField → Json
  | .echo => .string (Json.object arguments).sortKeys.render
  | .template value => fill arguments value
  | .byArgument argument cases default =>
    fill arguments ((cases.get? (choiceText (arguments.get? argument))).getD default)

end RootField

/-- The root fields that are answered. -/
structure RootValue where
  /-- The fields by name. -/
  fields : Entries RootField

namespace RootValue

/-- The value of a root field for its arguments. -/
def answer (root : RootValue) (field : Name) (arguments : Entries Json) : Except String Json :=
  match root.fields.get? field with
  | some found => .ok (found.answer arguments)
  | none => .error ("field '" ++ field ++ "' is not mocked")

end RootValue

/-- The failure for which an object stands. -/
def failureOf? (members : Entries Json) : Option String :=
  (members.get? "__error").map fun text => text.asString?.getD "mocked error"

/-- The type that an object names, or the declared one. -/
def objectType (declared : Name) (members : Entries Json) : Name :=
  ((members.get? "__typename").bind Json.asString?).getD declared

end Gateway.Execution
