import Gateway.Request.Revise
import Gateway.Schema.Possible

/-!
# Expanded abstract types

A fragment on a type that is abstract for the gateway but not for the target is replaced by
fragments on the object types that the abstract type stands for. Selections on such an object type
select `__typename`.
-/

namespace Gateway.Transform

/-- The object types that take the place of abstract types. -/
abbrev Expansion := Entries (List Name)

namespace Expansion

/-- The abstract types of a source schema that are not abstract in a target schema, each with those
of its possible types that are object types of the target. -/
def between (source target : Schema) : Expansion :=
  source.types.filterMap fun type =>
    if source.isAbstract type.name && !target.isAbstract type.name then
      some (type.name, (source.possibleTypes type.name).filter target.isObject)
    else none

/-- Whether an object type takes the place of some abstract type. -/
def isPlaced (expansion : Expansion) (type : Name) : Bool :=
  expansion.any fun entry => entry.2.contains type

end Expansion

/-- A fragment with the object type to which it is narrowed. -/
structure Replacement where
  /-- The new fragment. -/
  name : Name
  /-- The object type. -/
  type : Name

/-- The name of a new fragment. -/
def replacementName (type : Name) (number : Nat) : Name :=
  "_" ++ type ++ "_Fragment" ++ toString number

/-- The least number, from the given one on, with which a new fragment is not named like an existing
one. Among one more numbers than there are fragments some name is free. -/
def freshNumber (existing : List Name) (type : Name) (number : Nat) : Nat :=
  ((List.range' number (existing.length + 1)).find? fun candidate =>
    !existing.contains (replacementName type candidate)).getD number

/-- New fragments and the names that are taken while they are made. -/
structure Replacements where
  /-- The names of all fragments. -/
  names : List Name
  /-- The next number to try. -/
  next : Nat := 0
  /-- The new fragments by the fragment that they replace. -/
  byFragment : Entries (List Replacement) := []
  /-- The definitions of the new fragments. -/
  definitions : List Fragment := []

namespace Replacements

/-- Adds the fragment that narrows a fragment to an object type. -/
def addType (replacements : Replacements) (fragment : Fragment) (type : Name) : Replacements :=
  let number := freshNumber replacements.names type replacements.next
  let name := replacementName type number
  { names := name :: replacements.names
    next := number + 1
    byFragment := replacements.byFragment.push fragment.name ⟨name, type⟩
    definitions := replacements.definitions ++ [{ fragment with name, condition := type }] }

/-- Adds the fragments that take the place of a fragment on a replaced abstract type. -/
def addFragment (expansion : Expansion) (replacements : Replacements) (fragment : Fragment) :
    Replacements :=
  match expansion.get? fragment.condition with
  | none => replacements
  | some types =>
    let present := (replacements.byFragment.get? fragment.name).getD []
    types.foldl (fun replacements type => replacements.addType fragment type)
      { replacements with
        byFragment := replacements.byFragment.insert fragment.name present }

/-- The fragments that take the place of those of a document. -/
def ofDocument (expansion : Expansion) (document : Document) : Replacements :=
  document.fragments.foldl (addFragment expansion)
    { names := document.fragments.map Fragment.name }

end Replacements

/-- What is needed to expand selections. -/
structure Expander where
  /-- The target schema. -/
  schema : Schema
  /-- The object types that take the place of abstract types. -/
  expansion : Expansion
  /-- The fragments that take the place of fragments. -/
  replacements : Entries (List Replacement)

namespace Expander

/-- The selections with the meta field selected, when the type takes the place of an abstract
one. -/
def finish (expander : Expander) (type : Name) (selections : List Selection) :
    List Selection :=
  if expander.expansion.isPlaced type && !selectsTypename selections then
    selections ++ [selectTypename]
  else selections

mutual

/-- The selections that take the place of a selection from a type. -/
def selection (expander : Expander) (parent : Name) : Selection → List Selection
  | .field ⟨alias?, name, arguments, directives, selections⟩ =>
    match expander.schema.fieldTypeName? parent name, selections with
    | some type, first :: rest =>
      [.field ⟨alias?, name, arguments, directives,
        expander.finish type (inner expander type (first :: rest))⟩]
    | _, selections => [.field ⟨alias?, name, arguments, directives, selections⟩]
  | .spread fragment directives =>
    match expander.replacements.get? fragment with
    | some replacements =>
      (replacements.filter fun replacement =>
          expander.schema.typesOverlap parent replacement.type).map fun replacement =>
        .spread replacement.name directives
    | none => [.spread fragment directives]
  | .inline none directives selections =>
    [.inline none directives (expander.finish parent (inner expander parent selections))]
  | .inline (some condition) directives selections =>
    match expander.expansion.get? condition with
    | some types =>
      (types.filter (expander.schema.typesOverlap parent)).map fun type =>
        .inline (some type) directives (expander.finish type (inner expander type selections))
    | none =>
      [.inline (some condition) directives
        (expander.finish condition (inner expander condition selections))]

/-- The selections that take the place of selections from a type. -/
def inner (expander : Expander) (parent : Name) : List Selection → List Selection
  | [] => []
  | first :: rest => selection expander parent first ++ inner expander parent rest

end

/-- The selections that take the place of a selection set on a type. -/
def selections (expander : Expander) (parent : Name) (selections : List Selection) :
    List Selection :=
  expander.finish parent (inner expander parent selections)

end Expander

/-- Expands the abstract types of a document; the new fragments follow its definitions. -/
def expandAbstract (source target : Schema) (document : Document) :
    Except DelegationError Document :=
  let expansion := Expansion.between source target
  if expansion.isEmpty then .ok document
  else
    let replacements := Replacements.ofDocument expansion document
    let expander : Expander := ⟨target, expansion, replacements.byFragment⟩
    Document.revise target (fun _ => expander.selections) none
      (document ++ replacements.definitions.map Definition.fragment)

end Gateway.Transform
