import Gateway.Validation.Kept

/-!
# Spread fragments

Which fragments and variables the operations of a document use, over fragments that they spread, and
which fragments lead back to themselves. Paths are followed only so far.
-/

namespace Gateway

namespace Selection

mutual

/-- The fragments spread anywhere in a selection, in order. -/
def spreads : Selection → List Name
  | .field ⟨_, _, _, _, selections⟩ => spreadsOfAll selections
  | .spread fragment _ => [fragment]
  | .inline _ _ selections => spreadsOfAll selections

/-- The fragments spread anywhere in selections, in order. -/
def spreadsOfAll : List Selection → List Name
  | [] => []
  | selection :: rest => spreads selection ++ spreadsOfAll rest

end

mutual

/-- The variables used anywhere in a selection, in order. -/
def vars : Selection → List Name
  | .field ⟨_, _, arguments, directives, selections⟩ =>
    argumentVariables arguments ++ directiveVariables directives ++ variablesOfAll selections
  | .spread _ directives => directiveVariables directives
  | .inline _ directives selections => directiveVariables directives ++ variablesOfAll selections

/-- The variables used anywhere in selections, in order. -/
def variablesOfAll : List Selection → List Name
  | [] => []
  | selection :: rest => vars selection ++ variablesOfAll rest

end

end Selection

namespace KeptDocument

/-- The fragments that a fragment spreads directly. -/
def spreadsOf (kept : KeptDocument) (fragment : Name) : List Name :=
  match kept.fragments.get? fragment with
  | some definition => Selection.spreadsOfAll definition.selections
  | none => []

/-! ## Reached fragments -/

/-- The fragments reached from selections, behind those that are known; gets a way to go on below a
selection, which can fail. -/
def reachWith (kept : KeptDocument) (below : List Selection → List Name → Option (List Name))
    (selections : List Selection) (known : List Name) : Option (List Name) :=
  selections.foldlM (fun known selection =>
    match selection with
    | .field node => below node.selections known
    | .inline _ _ selections => below selections known
    | .spread fragment _ =>
      if known.contains fragment then some known
      else
        match kept.fragments.get? fragment with
        | some definition => below definition.selections (fragment :: known)
        | none => some (fragment :: known)) known

/-- The fragments reached from selections, unless there are selections nested deeper than given. -/
def reachWithin (kept : KeptDocument) : Nat → List Selection → List Name → Option (List Name)
  | 0 => kept.reachWith fun _ _ => none
  | depth + 1 => kept.reachWith (kept.reachWithin depth)

/-- How deep the selections of an operation can be nested, over the fragments that they spread. -/
def maxReach : Nat := 500

/-- The fragments reached from an operation, unless its selections are nested too deep. -/
def reachedFrom? (kept : KeptDocument) (operation : Operation) : Option (List Name) :=
  kept.reachWithin maxReach operation.selections []

/-- The kept fragments among some names. -/
def fragmentsNamed (kept : KeptDocument) (names : List Name) : List Fragment :=
  names.filterMap kept.fragments.get?

/-- The findings about variables that an operation declares and never uses. -/
def unusedVariables (kept : KeptDocument) (operation : Operation) : List Diagnostic :=
  match kept.reachedFrom? operation with
  | none => [.deepSelections]
  | some fragments =>
    let used := directiveVariables operation.directives
      ++ Selection.variablesOfAll operation.selections
      ++ (kept.fragmentsNamed fragments).flatMap fun fragment =>
        directiveVariables fragment.directives ++ Selection.variablesOfAll fragment.selections
    (operation.vars.map VariableDefinition.name).eraseDups.filterMap fun name =>
      if used.contains name then none else some (.unusedVariable name)

/-- The findings about fragments that no operation reaches. -/
def unusedFragments (kept : KeptDocument) : List Diagnostic :=
  match kept.operations.mapM kept.reachedFrom? with
  | none => [.deepSelections]
  | some reached =>
    kept.fragments.keys.filterMap fun fragment =>
      if reached.flatten.contains fragment then none else some (.unusedFragment fragment)

/-! ## Nested fragments -/

/-- The first finding about fragments below an outermost one on a path of fragments, the innermost
first: one that leads back to the outermost, or one that is nested too deep. -/
def nestingFrom? (kept : KeptDocument) (outermost : Name) (depth : Nat) (path : List Name)
    (fragment : Name) : Option Diagnostic :=
  (kept.spreadsOf fragment).findSome? fun spread =>
    if path.contains spread then
      if spread = outermost then some (.recursiveFragment outermost) else none
    else
      match kept.fragments.get? spread, depth with
      | none, _ => none
      | some _, 0 => some (.deepFragment outermost)
      | some _, depth + 1 => kept.nestingFrom? outermost depth (spread :: path) spread

/-- How many fragments can be nested in each other. -/
def maxFragments : Nat := 100

/-- The finding about how a fragment is nested, if there is one. -/
def nestingFinding? (kept : KeptDocument) (fragment : Name) : Option Diagnostic :=
  kept.nestingFrom? fragment (maxFragments - 1) [fragment] fragment

end KeptDocument

end Gateway
