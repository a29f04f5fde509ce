import Gateway.DelegationError
import Gateway.Schema.Basic

/-!
# Revising along types

Selection sets are revised from the inside outwards, each with the type that it selects from.
Selections under a field of unknown type are kept as they are.
-/

namespace Gateway

/-- How selection sets are revised. -/
structure Revision where
  /-- The type of the value of a field, when it is known. -/
  fieldType? : Name → Name → Option Name
  /-- The selections that take the place of those selected from a type, once these are revised. -/
  finish : Name → List Selection → List Selection

namespace Revision

mutual

/-- Revises the selection sets inside a selection from a type. -/
def selection (revision : Revision) (parent : Name) : Selection → Selection
  | .field ⟨alias?, name, arguments, directives, selections⟩ =>
    match revision.fieldType? parent name, selections with
    | some type, first :: rest =>
      .field ⟨alias?, name, arguments, directives,
        revision.finish type (inner revision type (first :: rest))⟩
    | _, selections => .field ⟨alias?, name, arguments, directives, selections⟩
  | .spread fragment directives => .spread fragment directives
  | .inline condition directives selections =>
    let type := condition.getD parent
    .inline condition directives (revision.finish type (inner revision type selections))

/-- Revises the selection sets inside selections from a type. -/
def inner (revision : Revision) (parent : Name) : List Selection → List Selection
  | [] => []
  | first :: rest => selection revision parent first :: inner revision parent rest

end

/-- Revises a selection set on a type, from the inside outwards. -/
def selections (revision : Revision) (parent : Name) (selections : List Selection) :
    List Selection :=
  revision.finish parent (inner revision parent selections)

end Revision

/-- Revises the selection set of each definition of a document. The revision is told the root type
of the latest operation and the type that is selected from. -/
def Document.revise (schema : Schema)
    (revise : Option Name → Name → List Selection → List Selection) :
    Option Name → Document → Except DelegationError Document
  | _, [] => .ok []
  | _, .operation operation :: rest =>
    match schema.root? operation.kind with
    | none => .error (.transform ("missing " ++ operation.kind.keyword ++ " root type"))
    | some root => do
      let selections := revise (some root) root operation.selections
      return .operation { operation with selections } ::
        (← Document.revise schema revise (some root) rest)
  | root?, .fragment fragment :: rest => do
    let selections := revise root? fragment.condition fragment.selections
    return .fragment { fragment with selections } ::
      (← Document.revise schema revise root? rest)
  | root?, .typeSystem definition :: rest => do
    return .typeSystem definition :: (← Document.revise schema revise root? rest)

end Gateway
