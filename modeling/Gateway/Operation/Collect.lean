import Gateway.Json.Basic
import Gateway.Schema.Possible

/-!
# Collected fields

The fields that a selection set selects on an object, by response key. Fragments are followed where
their condition applies to the type of the object, each at most once, so collecting ends on every
graph of fragments.
-/

namespace Gateway

/-- The truth value of a literal, if it has one. -/
def Literal.truth? (vars : Entries Json) : Literal → Option Bool
  | .boolean value => some value
  | .var name => (vars.get? name).bind Json.asBool?
  | _ => none

/-- The condition of a directive that skips or includes, if the directive is given with one. -/
def conditionOf? (name : Name) (directives : List Directive) : Option Literal := do
  let directive ← directives.find? (·.name = name)
  let argument ← directive.arguments.find? (·.name = "if")
  return argument.value

/-- Whether the directives include what they are given for; a condition without truth value is
false. -/
def isIncluded (directives : List Directive) (vars : Entries Json) : Bool :=
  let holds (condition : Literal) : Bool := (condition.truth? vars).getD false
  !(((conditionOf? "skip" directives).map holds).getD false)
    && ((conditionOf? "include" directives).map holds).getD true

/-- Whether the directives include what they are given for; a condition without truth value does not
count. -/
def isIncludedLeniently (directives : List Directive) (vars : Entries Json) : Bool :=
  let truth? (condition : Literal) : Option Bool := condition.truth? vars
  !(((conditionOf? "skip" directives).bind truth?).getD false)
    && ((conditionOf? "include" directives).bind truth?).getD true

/-- The fragments of a document by name; of two with one name the later counts. -/
def Document.fragmentsByName (document : Document) : Entries Fragment :=
  Entries.ofPairs (document.fragments.map fun fragment => (fragment.name, fragment))

/-- What is needed to know which fields are selected on an object. -/
structure Scope where
  /-- The schema that relates types. -/
  schema : Schema
  /-- The fragments by name. -/
  fragments : Entries Fragment
  /-- The values of variables. -/
  vars : Entries Json
  /-- How a selection with directives is included, for the values of variables. -/
  includes : List Directive → Entries Json → Bool := isIncluded

/-- The fields collected so far. -/
structure Collected where
  /-- The field nodes by response key. -/
  fields : Entries (List Field) := []
  /-- The fragments that have been spread. -/
  visited : List Name := []

namespace Collected

/-- Adds a node under its response key. -/
def addField (collected : Collected) (node : Field) : Collected :=
  { collected with fields := collected.fields.push node.responseKey node }

/-- Notes that a fragment has been spread. -/
def visit (collected : Collected) (fragment : Name) : Collected :=
  { collected with visited := fragment :: collected.visited }

end Collected

namespace Scope

/-- Whether a fragment with the condition applies to the type; one without condition always does. -/
def applies (scope : Scope) (type : Name) : Option Name → Bool
  | none => true
  | some condition => scope.schema.fragmentApplies condition type

mutual

/-- Collects from a selection, following a spread fragment in the given way. -/
def collectSelection (scope : Scope) (type : Name) (follow : Fragment → Collected → Collected) :
    Selection → Collected → Collected
  | .field ⟨alias?, name, arguments, directives, selections⟩, collected =>
    if scope.includes directives scope.vars then
      collected.addField ⟨alias?, name, arguments, directives, selections⟩
    else collected
  | .inline condition directives selections, collected =>
    if scope.includes directives scope.vars && scope.applies type condition then
      collectSelections scope type follow selections collected
    else collected
  | .spread fragment directives, collected =>
    if scope.includes directives scope.vars && !collected.visited.contains fragment then
      match scope.fragments.get? fragment with
      | some definition =>
        if scope.applies type (some definition.condition) then
          follow definition (collected.visit fragment)
        else collected.visit fragment
      | none => collected.visit fragment
    else collected

/-- Collects from selections in order. -/
def collectSelections (scope : Scope) (type : Name) (follow : Fragment → Collected → Collected) :
    List Selection → Collected → Collected
  | [], collected => collected
  | selection :: rest, collected =>
    collectSelections scope type follow rest
      (collectSelection scope type follow selection collected)

end

/-- Collects from selections, following spreads nested at most as deep as the fuel. -/
def collectWithin (scope : Scope) (type : Name) : Nat → List Selection → Collected → Collected
  | 0 => collectSelections scope type fun _ collected => collected
  | fuel + 1 => collectSelections scope type fun fragment =>
    collectWithin scope type fuel fragment.selections

/-- Collects the fields selected on an object of the type. No chain of spreads follows more
fragments than there are. -/
def collect (scope : Scope) (type : Name) (selections : List Selection) (collected : Collected) :
    Collected :=
  scope.collectWithin type scope.fragments.length selections collected

/-- The fields that a selection set selects on an object of the type. -/
def fieldsOf (scope : Scope) (type : Name) (selections : List Selection) :
    Entries (List Field) :=
  (scope.collect type selections {}).fields

/-- The fields selected under any of the nodes on an object of the type. -/
def subFields (scope : Scope) (type : Name) (nodes : List Field) : Entries (List Field) :=
  (nodes.foldl (fun collected node => scope.collect type node.selections collected) {}).fields

end Scope

end Gateway
