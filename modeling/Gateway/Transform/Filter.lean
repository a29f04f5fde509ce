import Gateway.DelegationError
import Gateway.Operation.Collect

/-!
# Filtered documents

A document is reduced to what a target schema declares: other fields and arguments are dropped, and
so are fragments that cannot apply, what is left without selections, and variables that are no
longer used.
-/

namespace Gateway.Transform

/-- What selections are filtered by. -/
structure Filter where
  /-- The target schema. -/
  schema : Schema
  /-- The fragments that can be spread. -/
  fragments : Entries Fragment

namespace Filter

/-- Whether a fragment on a type of the schema can apply inside selections from a type. -/
def applies (filter : Filter) (parent condition : Name) : Bool :=
  filter.schema.hasType condition && filter.schema.typesOverlap parent condition

/-- The arguments that a field declares. -/
def arguments (definition : FieldDefinition) (given : List Argument) : List Argument :=
  given.filter fun argument => definition.arguments.any (·.name = argument.name)

mutual

/-- What is left of a selection from a type. -/
def selection? (filter : Filter) (parent : Name) : Selection → Option Selection
  | .field ⟨alias?, name, given, directives, selections⟩ =>
    if name = typenameField then some (.field ⟨alias?, name, given, directives, selections⟩)
    else
      match filter.schema.field? parent name with
      | none => none
      | some definition =>
        let declared := arguments definition given
        let type := definition.type.innerName
        if filter.schema.isComposite type then
          match filterAll filter type selections with
          | [] => none
          | first :: rest => some (.field ⟨alias?, name, declared, directives, first :: rest⟩)
        else some (.field ⟨alias?, name, declared, directives, []⟩)
  | .spread fragment directives =>
    match filter.fragments.get? fragment with
    | none => none
    | some definition =>
      if filter.applies parent definition.condition then some (.spread fragment directives)
      else none
  | .inline none directives selections =>
    match filterAll filter parent selections with
    | [] => none
    | first :: rest => some (.inline none directives (first :: rest))
  | .inline (some condition) directives selections =>
    if filter.applies parent condition then
      match filterAll filter condition selections with
      | [] => none
      | first :: rest => some (.inline (some condition) directives (first :: rest))
    else none

/-- What is left of selections from a type. -/
def filterAll (filter : Filter) (parent : Name) : List Selection → List Selection
  | [] => []
  | selection :: rest =>
    match selection? filter parent selection with
    | some kept => kept :: filterAll filter parent rest
    | none => filterAll filter parent rest

end

/-- What is left of a fragment. -/
def fragment (filter : Filter) (fragment : Fragment) : Fragment :=
  { fragment with selections := filter.filterAll fragment.condition fragment.selections }

/-- The fragments that keep selections when the given ones can be spread. -/
def nonEmpty (schema : Schema) (fragments : Entries Fragment) : Entries Fragment :=
  fragments.filter fun entry =>
    !((Filter.mk schema fragments).fragment entry.2).selections.isEmpty

/-- Drops fragments without selections for some rounds, or until none is left to drop. -/
def pruneWithin (schema : Schema) : Nat → Entries Fragment → Entries Fragment
  | 0, fragments => fragments
  | rounds + 1, fragments =>
    let kept := nonEmpty schema fragments
    if kept.length = fragments.length then fragments else pruneWithin schema rounds kept

/-- The fragments that keep selections when only they can be spread. Each round but the last drops a
fragment. -/
def prune (schema : Schema) (fragments : Entries Fragment) : Entries Fragment :=
  pruneWithin schema fragments.length fragments

/-- The filter for a document: fragments on types of the schema that keep selections. -/
def ofDocument (schema : Schema) (document : Document) : Filter where
  schema := schema
  fragments := prune schema <| Entries.ofPairs <| document.fragments.filterMap fun fragment =>
    if schema.hasType fragment.condition then some (fragment.name, fragment) else none

end Filter

/-! ## What filtered selections use -/

mutual

/-- The fragments that a filtered selection spreads, in order. -/
def usedFragments : Selection → List Name
  | .field ⟨_, name, _, _, selections⟩ =>
    if name = typenameField then [] else usedFragmentsOfAll selections
  | .spread fragment _ => [fragment]
  | .inline _ _ selections => usedFragmentsOfAll selections

/-- The fragments that filtered selections spread, in order. -/
def usedFragmentsOfAll : List Selection → List Name
  | [] => []
  | selection :: rest => usedFragments selection ++ usedFragmentsOfAll rest

end

mutual

/-- The variables that a filtered selection uses. -/
def usedVariables : Selection → List Name
  | .field ⟨_, name, arguments, directives, selections⟩ =>
    if name = typenameField then directiveVariables directives
    else
      argumentVariables arguments ++ directiveVariables directives
        ++ usedVariablesOfAll selections
  | .spread _ directives => directiveVariables directives
  | .inline _ directives selections =>
    directiveVariables directives ++ usedVariablesOfAll selections

/-- The variables that filtered selections use. -/
def usedVariablesOfAll : List Selection → List Name
  | [] => []
  | selection :: rest => usedVariables selection ++ usedVariablesOfAll rest

end

namespace Filter

/-- Follows spreads depth first, in order, from the fragments that wait; the fragments reached come
out in the order in which they are first met. -/
def reachWithin (filter : Filter) : Nat → List Name → List Name → List Name
  | 0, _, reached => reached
  | _ + 1, [], reached => reached
  | fuel + 1, name :: waiting, reached =>
    if reached.contains name then reachWithin filter fuel waiting reached
    else
      match filter.fragments.get? name with
      | none => reachWithin filter fuel waiting reached
      | some definition =>
        let spreads :=
          (usedFragmentsOfAll (filter.fragment definition).selections).eraseDups
        reachWithin filter fuel (spreads ++ waiting) (reached ++ [name])

/-- A bound on how many names wait over the whole run: every fragment is opened at most once. -/
def reachBound (filter : Filter) (start : List Name) : Nat :=
  start.length + (filter.fragments.values.map fun definition =>
    (usedFragmentsOfAll (filter.fragment definition).selections).length).foldr (· + ·) 0 + 1

/-- The fragments reached through spreads from filtered selections. -/
def reached (filter : Filter) (selections : List Selection) : List Fragment :=
  let start := (usedFragmentsOfAll selections).eraseDups
  (filter.reachWithin (filter.reachBound start) start []).filterMap fun name =>
    (filter.fragments.get? name).map filter.fragment

/-- The variables that a filtered operation and the fragments that it reaches use. -/
def variablesOf (operation : Operation) (fragments : List Fragment) : List Name :=
  usedVariablesOfAll operation.selections ++ directiveVariables operation.directives
    ++ fragments.flatMap fun fragment =>
      usedVariablesOfAll fragment.selections ++ directiveVariables fragment.directives

/-- What is left of an operation, and the fragments that it reaches. -/
def operation (filter : Filter) (operation : Operation) :
    Except DelegationError (Operation × List Fragment) :=
  match filter.schema.root? operation.kind with
  | none => .error <| .transform <|
    "target schema has no " ++ operation.kind.keyword ++ " root type"
  | some root =>
    let kept := { operation with selections := filter.filterAll root operation.selections }
    let fragments := filter.reached kept.selections
    let used := variablesOf kept fragments
    .ok ({ kept with
      vars := operation.vars.filter fun declared => used.contains declared.name },
      fragments)

end Filter

/-- The fragments with more of them at the end, each unless one of its name is there already. -/
def unionFragments (fragments more : List Fragment) : List Fragment :=
  more.foldl (fun union fragment =>
    if union.any (·.name = fragment.name) then union else union ++ [fragment]) fragments

/-- Reduces a document to what a schema declares: the operations, followed by the fragments that
they reach. -/
def filterToSchema (schema : Schema) (document : Document) : Except DelegationError Document := do
  let filter := Filter.ofDocument schema document
  let kept ← document.operations.mapM filter.operation
  let fragments := (kept.map Prod.snd).foldl unionFragments []
  return kept.map (fun entry => .operation entry.1) ++ fragments.map Definition.fragment

end Gateway.Transform
