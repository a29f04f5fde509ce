import Gateway.Proofs.Language.Nesting
import Gateway.Transform.Filter

/-!
# What a filter keeps

`Filter.Leaves` says what a filter makes of a selection from a type: five rules, one for each kind
of selection that it keeps. `selection?_eq_some_iff` shows that the filter follows these rules, and
all further lemmas go by their cases.

What a filter has made of selections it leaves as it is, and so does every filter by fragments with
the same conditions (`fixes_filterAll`); `Stays` says which selections these are. With fewer
fragments to spread, no more is kept (`filterAll_eq_nil_of_alike`).
-/

namespace Gateway

/-- A declared field has the type of its declaration. -/
theorem Schema.fieldTypeName?_of_field? {schema : Schema} {type field : Name}
    {definition : FieldDefinition} (hname : field ≠ typenameField)
    (h : schema.field? type field = some definition) :
    schema.fieldTypeName? type field = some definition.type.innerName := by
  rw [fieldTypeName?, if_neg hname, h, Option.map_some]

namespace Transform

namespace Filter

/-! ## The rules -/

/-- What is left of a list of selections is what is left of each. -/
theorem filterAll_eq_filterMap (filter : Filter) (parent : Name) (selections : List Selection) :
    filter.filterAll parent selections = selections.filterMap (filter.selection? parent) := by
  induction selections with
  | nil => rw [filterAll, List.filterMap_nil]
  | cons first rest ih =>
    rw [filterAll, List.filterMap_cons, ih]
    cases filter.selection? parent first <;> rfl

/-- What a filter leaves of a selection from a type. -/
inductive Leaves (filter : Filter) (parent : Name) : Selection → Selection → Prop
  /-- The meta field is kept as it is. -/
  | typename {node : Field} (named : node.name = typenameField) :
    Leaves filter parent (.field node) (.field node)
  /-- A declared field without sub-fields is kept with its declared arguments. -/
  | leaf {node : Field} {definition : FieldDefinition} (named : node.name ≠ typenameField)
    (declared : filter.schema.field? parent node.name = some definition)
    (simple : filter.schema.isComposite definition.type.innerName = false) :
    Leaves filter parent (.field node)
      (.field { node with arguments := arguments definition node.arguments, selections := [] })
  /-- A declared field with sub-fields is kept when some of its selections are. -/
  | composite {node : Field} {definition : FieldDefinition} (named : node.name ≠ typenameField)
    (declared : filter.schema.field? parent node.name = some definition)
    (composite : filter.schema.isComposite definition.type.innerName = true)
    (left : filter.filterAll definition.type.innerName node.selections ≠ []) :
    Leaves filter parent (.field node)
      (.field { node with
        arguments := arguments definition node.arguments
        selections := filter.filterAll definition.type.innerName node.selections })
  /-- A spread is kept when its fragment can be spread and applies. -/
  | spread {fragment : Name} {directives : List Directive} {definition : Fragment}
    (found : filter.fragments.get? fragment = some definition)
    (applies : filter.applies parent definition.condition = true) :
    Leaves filter parent (.spread fragment directives) (.spread fragment directives)
  /-- An inline fragment is kept when it applies and some of its selections are kept. -/
  | inline {condition : Option Name} {directives : List Directive} {selections : List Selection}
    (applies : ∀ name, condition = some name → filter.applies parent name = true)
    (left : filter.filterAll (condition.getD parent) selections ≠ []) :
    Leaves filter parent (.inline condition directives selections)
      (.inline condition directives (filter.filterAll (condition.getD parent) selections))

variable {filter : Filter} {parent : Name}

/-- What is left of a field. -/
theorem selection?_field_eq (filter : Filter) (parent : Name) (node : Field) :
    filter.selection? parent (.field node) =
      if node.name = typenameField then some (.field node)
      else (filter.schema.field? parent node.name).bind fun definition =>
        if filter.schema.isComposite definition.type.innerName then
          if filter.filterAll definition.type.innerName node.selections = [] then none
          else some (.field { node with
            arguments := arguments definition node.arguments
            selections := filter.filterAll definition.type.innerName node.selections })
        else some (.field { node with
          arguments := arguments definition node.arguments, selections := [] }) := by
  obtain ⟨alias?, name, given, directives, selections⟩ := node
  rw [selection?]
  cases filter.schema.field? parent name with
  | none => rfl
  | some definition =>
    dsimp only [Option.bind_some]
    cases filter.filterAll definition.type.innerName selections <;> rfl

/-- What is left of a spread. -/
theorem selection?_spread_eq (filter : Filter) (parent fragment : Name)
    (directives : List Directive) :
    filter.selection? parent (.spread fragment directives) =
      (filter.fragments.get? fragment).bind fun definition =>
        if filter.applies parent definition.condition then some (.spread fragment directives)
        else none := by
  rw [selection?]
  cases filter.fragments.get? fragment <;> rfl

/-- What is left of an inline fragment. -/
theorem selection?_inline_eq (filter : Filter) (parent : Name) (condition : Option Name)
    (directives : List Directive) (selections : List Selection) :
    filter.selection? parent (.inline condition directives selections) =
      if condition.all (filter.applies parent) then
        if filter.filterAll (condition.getD parent) selections = [] then none
        else some (.inline condition directives
          (filter.filterAll (condition.getD parent) selections))
      else none := by
  cases condition with
  | none =>
    rw [selection?, Option.getD_none]
    cases filter.filterAll parent selections <;> rfl
  | some condition =>
    rw [selection?, Option.getD_some]
    cases filter.filterAll condition selections <;> rfl

/-- The meta field is kept. -/
theorem selection?_typename {node : Field} (hname : node.name = typenameField) :
    filter.selection? parent (.field node) = some (.field node) := by
  rw [selection?_field_eq, if_pos hname]

/-- A field that the type does not declare is dropped. -/
theorem selection?_undeclared {node : Field} (hname : node.name ≠ typenameField)
    (hnone : filter.schema.field? parent node.name = none) :
    filter.selection? parent (.field node) = none := by
  rw [selection?_field_eq, if_neg hname, hnone, Option.bind_none]

/-- A declared field without sub-fields is kept with its declared arguments. -/
theorem selection?_leaf {node : Field} {definition : FieldDefinition}
    (hname : node.name ≠ typenameField)
    (hdeclared : filter.schema.field? parent node.name = some definition)
    (hsimple : filter.schema.isComposite definition.type.innerName = false) :
    filter.selection? parent (.field node) =
      some (.field { node with
        arguments := arguments definition node.arguments, selections := [] }) := by
  rw [selection?_field_eq, if_neg hname, hdeclared, Option.bind_some]
  exact if_neg (Bool.eq_false_iff.mp hsimple)

/-- A declared field with sub-fields is kept unless nothing is left below it. -/
theorem selection?_composite {node : Field} {definition : FieldDefinition}
    (hname : node.name ≠ typenameField)
    (hdeclared : filter.schema.field? parent node.name = some definition)
    (hcomposite : filter.schema.isComposite definition.type.innerName = true) :
    filter.selection? parent (.field node) =
      if filter.filterAll definition.type.innerName node.selections = [] then none
      else some (.field { node with
        arguments := arguments definition node.arguments
        selections := filter.filterAll definition.type.innerName node.selections }) := by
  rw [selection?_field_eq, if_neg hname, hdeclared, Option.bind_some, if_pos hcomposite]

/-- A spread of a fragment that cannot be spread is dropped. -/
theorem selection?_spread_unknown {fragment : Name} {directives : List Directive}
    (hnone : filter.fragments.get? fragment = none) :
    filter.selection? parent (.spread fragment directives) = none := by
  rw [selection?_spread_eq, hnone, Option.bind_none]

/-- A spread of a fragment is kept when the fragment applies. -/
theorem selection?_spread {fragment : Name} {directives : List Directive} {definition : Fragment}
    (hfound : filter.fragments.get? fragment = some definition) :
    filter.selection? parent (.spread fragment directives) =
      if filter.applies parent definition.condition then some (.spread fragment directives)
      else none := by
  rw [selection?_spread_eq, hfound, Option.bind_some]

/-- An inline fragment that does not apply is dropped. -/
theorem selection?_inline_elsewhere {condition : Name} {directives : List Directive}
    {selections : List Selection} (h : filter.applies parent condition = false) :
    filter.selection? parent (.inline (some condition) directives selections) = none := by
  rw [selection?_inline_eq]
  exact if_neg (Bool.eq_false_iff.mp h)

/-- An inline fragment that applies is kept unless nothing is left in it. -/
theorem selection?_inline {condition : Option Name} {directives : List Directive}
    {selections : List Selection}
    (h : ∀ name, condition = some name → filter.applies parent name = true) :
    filter.selection? parent (.inline condition directives selections) =
      if filter.filterAll (condition.getD parent) selections = [] then none
      else some (.inline condition directives
        (filter.filterAll (condition.getD parent) selections)) := by
  have happlies : condition.all (filter.applies parent) = true := by
    cases condition with
    | none => rfl
    | some condition => exact h condition rfl
  rw [selection?_inline_eq, if_pos happlies]

/-- A filter keeps selections by its rules. -/
theorem selection?_eq_some_iff {selection kept : Selection} :
    filter.selection? parent selection = some kept ↔ filter.Leaves parent selection kept := by
  constructor
  · intro h
    cases selection with
    | field node =>
      by_cases hname : node.name = typenameField
      · rw [selection?_typename hname] at h
        cases h
        exact .typename hname
      · cases hdeclared : filter.schema.field? parent node.name with
        | none =>
          rw [selection?_undeclared hname hdeclared] at h
          exact absurd h (by simp)
        | some definition =>
          cases hcomposite : filter.schema.isComposite definition.type.innerName with
          | false =>
            rw [selection?_leaf hname hdeclared hcomposite] at h
            cases h
            exact .leaf hname hdeclared hcomposite
          | true =>
            rw [selection?_composite hname hdeclared hcomposite] at h
            by_cases hleft : filter.filterAll definition.type.innerName node.selections = []
            · rw [if_pos hleft] at h
              exact absurd h (by simp)
            · rw [if_neg hleft] at h
              cases h
              exact .composite hname hdeclared hcomposite hleft
    | spread fragment directives =>
      cases hfound : filter.fragments.get? fragment with
      | none =>
        rw [selection?_spread_unknown hfound] at h
        exact absurd h (by simp)
      | some definition =>
        rw [selection?_spread hfound] at h
        by_cases happlies : filter.applies parent definition.condition = true
        · rw [if_pos happlies] at h
          cases h
          exact .spread hfound happlies
        · rw [if_neg happlies] at h
          exact absurd h (by simp)
    | inline condition directives selections =>
      have happlies : ∀ name, condition = some name → filter.applies parent name = true := by
        rintro name rfl
        by_contra hnot
        rw [selection?_inline_elsewhere (Bool.eq_false_iff.mpr hnot)] at h
        exact absurd h (by simp)
      rw [selection?_inline happlies] at h
      by_cases hleft : filter.filterAll (condition.getD parent) selections = []
      · rw [if_pos hleft] at h
        exact absurd h (by simp)
      · rw [if_neg hleft] at h
        cases h
        exact .inline happlies hleft
  · intro h
    cases h with
    | typename named => exact selection?_typename named
    | leaf named declared simple => exact selection?_leaf named declared simple
    | composite named declared composite left =>
      rw [selection?_composite named declared composite, if_neg left]
    | spread found applies => rw [selection?_spread found, if_pos applies]
    | inline applies left => rw [selection?_inline applies, if_neg left]

/-- A selection is among those that are left when it is left of one of them. -/
theorem mem_filterAll_iff {selections : List Selection} {kept : Selection} :
    kept ∈ filter.filterAll parent selections ↔
      ∃ selection ∈ selections, filter.Leaves parent selection kept := by
  rw [filterAll_eq_filterMap, List.mem_filterMap]
  exact exists_congr fun selection => and_congr_right fun _ => selection?_eq_some_iff

/-! ## What is left as it is -/

/-- A filter leaves selections from a type as they are. -/
def Fixes (filter : Filter) (parent : Name) (selections : List Selection) : Prop :=
  ∀ selection ∈ selections, filter.Leaves parent selection selection

/-- Selections that are left as they are pass the filter. -/
theorem Fixes.filterAll_eq {selections : List Selection} (h : filter.Fixes parent selections) :
    filter.filterAll parent selections = selections := by
  have hsome : ∀ selection ∈ selections, filter.selection? parent selection = some selection :=
    fun selection hmem => selection?_eq_some_iff.mpr (h selection hmem)
  rw [filterAll_eq_filterMap]
  clear h
  induction selections with
  | nil => rfl
  | cons first rest ih =>
    rw [List.filterMap_cons_some (hsome first List.mem_cons_self),
      ih fun selection hmem => hsome selection (List.mem_cons_of_mem _ hmem)]

/-- A selection that a filter leaves as it is. -/
inductive Stays (filter : Filter) (parent : Name) : Selection → Prop
  /-- The meta field. -/
  | typename {node : Field} (named : node.name = typenameField) : Stays filter parent (.field node)
  /-- A declared field without sub-fields, given declared arguments only. -/
  | leaf {node : Field} {definition : FieldDefinition} (named : node.name ≠ typenameField)
    (declared : filter.schema.field? parent node.name = some definition)
    (simple : filter.schema.isComposite definition.type.innerName = false)
    (given : arguments definition node.arguments = node.arguments)
    (empty : node.selections = []) : Stays filter parent (.field node)
  /-- A declared field with sub-fields that stay. -/
  | composite {node : Field} {definition : FieldDefinition} (named : node.name ≠ typenameField)
    (declared : filter.schema.field? parent node.name = some definition)
    (composite : filter.schema.isComposite definition.type.innerName = true)
    (given : arguments definition node.arguments = node.arguments)
    (left : node.selections ≠ [])
    (fixes : filter.Fixes definition.type.innerName node.selections) :
    Stays filter parent (.field node)
  /-- A spread of a fragment that can be spread and applies. -/
  | spread {fragment : Name} {directives : List Directive} {definition : Fragment}
    (found : filter.fragments.get? fragment = some definition)
    (applies : filter.applies parent definition.condition = true) :
    Stays filter parent (.spread fragment directives)
  /-- An inline fragment that applies, with selections that stay. -/
  | inline {condition : Option Name} {directives : List Directive} {selections : List Selection}
    (applies : ∀ name, condition = some name → filter.applies parent name = true)
    (left : selections ≠ []) (fixes : filter.Fixes (condition.getD parent) selections) :
    Stays filter parent (.inline condition directives selections)

/-- Selections are left as they are when the filter makes the same list of them. -/
theorem fixes_of_filterAll_eq {selections : List Selection}
    (h : filter.filterAll parent selections = selections) : filter.Fixes parent selections := by
  rw [filterAll_eq_filterMap] at h
  intro selection hmem
  refine selection?_eq_some_iff.mp ?_
  induction selections with
  | nil => exact absurd hmem List.not_mem_nil
  | cons first rest ih =>
    cases hfirst : filter.selection? parent first with
    | none =>
      -- Then the list would be longer than what it is made of.
      rw [List.filterMap_cons_none hfirst] at h
      have hlength := List.length_filterMap_le (filter.selection? parent) rest
      rw [h, List.length_cons] at hlength
      exact absurd hlength (Nat.not_succ_le_self _)
    | some kept =>
      rw [List.filterMap_cons_some hfirst] at h
      obtain ⟨rfl, hrest⟩ := List.cons.inj h
      rcases List.mem_cons.mp hmem with rfl | hmem
      · exact hfirst
      · exact ih hrest hmem

/-- A selection of which the selection itself is left stays. -/
theorem Leaves.stays {selection kept : Selection} (h : filter.Leaves parent selection kept)
    (hsame : kept = selection) : filter.Stays parent selection := by
  cases h with
  | typename named => exact .typename named
  | @leaf node definition named declared simple =>
    have hnode := Selection.field.inj hsame
    exact .leaf named declared simple (congrArg FieldOf.arguments hnode)
      (congrArg FieldOf.selections hnode).symm
  | @composite node definition named declared composite left =>
    have hnode := Selection.field.inj hsame
    have hselections := congrArg FieldOf.selections hnode
    exact .composite named declared composite (congrArg FieldOf.arguments hnode)
      (hselections ▸ left) (fixes_of_filterAll_eq hselections)
  | spread found applies => exact .spread found applies
  | inline applies left =>
    obtain ⟨-, -, hselections⟩ := Selection.inline.inj hsame
    exact .inline applies (hselections ▸ left) (fixes_of_filterAll_eq hselections)

/-- The selections that a filter leaves as they are. -/
theorem leaves_self_iff {selection : Selection} :
    filter.Leaves parent selection selection ↔ filter.Stays parent selection := by
  constructor
  · exact fun h => h.stays rfl
  · intro h
    cases h with
    | typename named => exact .typename named
    | @leaf node definition named declared simple given empty =>
      have hleaves := Leaves.leaf named declared simple
      rw [given, ← empty] at hleaves
      exact hleaves
    | @composite node definition named declared composite given left fixes =>
      have hleaves := Leaves.composite named declared composite
        (by rw [fixes.filterAll_eq]; exact left)
      rw [given, fixes.filterAll_eq] at hleaves
      exact hleaves
    | spread found applies => exact .spread found applies
    | @inline condition directives selections applies left fixes =>
      have hleaves : filter.Leaves parent (.inline condition directives selections) _ :=
        .inline applies (by rw [fixes.filterAll_eq]; exact left)
      rw [fixes.filterAll_eq] at hleaves
      exact hleaves

end Filter

/-- The fragments that a list of selections spreads are those that its selections spread. -/
theorem usedFragmentsOfAll_eq_flatMap (selections : List Selection) :
    usedFragmentsOfAll selections = selections.flatMap usedFragments := by
  induction selections with
  | nil => rw [usedFragmentsOfAll, List.flatMap_nil]
  | cons first rest ih => rw [usedFragmentsOfAll, List.flatMap_cons, ih]

/-- A field spreads what is spread below it; what stands below the meta field does not count. -/
theorem usedFragments_field (node : Field) :
    usedFragments (.field node) =
      if node.name = typenameField then [] else usedFragmentsOfAll node.selections := by
  obtain ⟨alias?, name, given, directives, selections⟩ := node
  rw [usedFragments]

/-- The variables that a list of selections uses are those that its selections use. -/
theorem usedVariablesOfAll_eq_flatMap (selections : List Selection) :
    usedVariablesOfAll selections = selections.flatMap usedVariables := by
  induction selections with
  | nil => rw [usedVariablesOfAll, List.flatMap_nil]
  | cons first rest ih => rw [usedVariablesOfAll, List.flatMap_cons, ih]

/-- A field uses the variables of its arguments, its directives and what is selected below it; of
the meta field only directives count. -/
theorem usedVariables_field (node : Field) :
    usedVariables (.field node) =
      if node.name = typenameField then directiveVariables node.directives
      else argumentVariables node.arguments ++ directiveVariables node.directives
        ++ usedVariablesOfAll node.selections := by
  obtain ⟨alias?, name, given, directives, selections⟩ := node
  rw [usedVariables]

namespace Filter

/-- Declared arguments are declared. -/
theorem arguments_arguments (definition : FieldDefinition) (given : List Argument) :
    arguments definition (arguments definition given) = arguments definition given := by
  unfold arguments
  rw [List.filter_filter]
  simp only [Bool.and_self]

/-- Other fragments have a fragment of a name with the same condition. -/
def HasAlike (fragments others : Entries Fragment) (name : Name) : Prop :=
  ∀ definition, fragments.get? name = some definition →
    ∃ other, others.get? name = some other ∧ other.condition = definition.condition

variable {schema : Schema} {fragments others : Entries Fragment} {parent : Name}

/-- What is left of selections spreads what is left of one of them. -/
theorem exists_leaves_of_spread {filter : Filter} {selections : List Selection} {name : Name}
    (h : name ∈ usedFragmentsOfAll (filter.filterAll parent selections)) :
    ∃ selection ∈ selections, ∃ kept, filter.Leaves parent selection kept ∧
      name ∈ usedFragments kept := by
  rw [usedFragmentsOfAll_eq_flatMap] at h
  obtain ⟨kept, hkept, hname⟩ := List.mem_flatMap.mp h
  obtain ⟨selection, hmem, hleaves⟩ := mem_filterAll_iff.mp hkept
  exact ⟨selection, hmem, kept, hleaves, hname⟩

/-- What a filter keeps of selections stays as it is when each selection does. -/
theorem fixes_filterAll_of_leaves {filter other : Filter} {selections : List Selection}
    (h : ∀ selection ∈ selections, ∀ kept, filter.Leaves parent selection kept →
      (∀ name ∈ usedFragments kept, HasAlike filter.fragments other.fragments name) →
        other.Stays parent kept)
    (halike : ∀ name ∈ usedFragmentsOfAll (filter.filterAll parent selections),
      HasAlike filter.fragments other.fragments name) :
    other.Fixes parent (filter.filterAll parent selections) := by
  intro kept hkept
  obtain ⟨selection, hmem, hleaves⟩ := mem_filterAll_iff.mp hkept
  refine leaves_self_iff.mpr (h selection hmem kept hleaves fun name hname => halike name ?_)
  rw [usedFragmentsOfAll_eq_flatMap]
  exact List.mem_flatMap.mpr ⟨kept, hkept, hname⟩

/-- What is left of a selection stays as it is, also with other fragments that are alike. -/
theorem Leaves.stays_of_alike {selection kept : Selection}
    (h : (Filter.mk schema fragments).Leaves parent selection kept)
    (halike : ∀ name ∈ usedFragments kept, HasAlike fragments others name) :
    (Filter.mk schema others).Stays parent kept := by
  -- Only a spread looks a fragment up, and then only the condition of the fragment counts.
  induction selection using Selection.nestedInduction generalizing parent kept with
  | field node ih =>
    cases h with
    | typename named => exact .typename named
    | leaf named declared simple =>
      exact .leaf named declared simple (arguments_arguments _ _) rfl
    | composite named declared composite left =>
      rw [usedFragments_field, if_neg named] at halike
      have hinner := fixes_filterAll_of_leaves
        (fun selection hmem kept hleaves hsame => ih selection hmem hleaves hsame) halike
      exact .composite named declared composite (arguments_arguments _ _) left hinner
  | spread fragment directives =>
    cases h with
    | spread found applies =>
      rw [usedFragments] at halike
      obtain ⟨other, hother, hcondition⟩ := halike fragment List.mem_cons_self _ found
      rw [← hcondition] at applies
      exact .spread hother applies
  | inline condition directives selections ih =>
    cases h with
    | inline applies left =>
      rw [usedFragments] at halike
      have hinner := fixes_filterAll_of_leaves
        (fun selection hmem kept hleaves hsame => ih selection hmem hleaves hsame) halike
      exact .inline applies left hinner

/-- What a filter has made of selections is left as it is, by this filter and by every filter whose
fragments are alike, as far as they are spread. -/
theorem fixes_filterAll {selections : List Selection}
    (halike : ∀ name ∈
      usedFragmentsOfAll ((Filter.mk schema fragments).filterAll parent selections),
        HasAlike fragments others name) :
    (Filter.mk schema others).Fixes parent
      ((Filter.mk schema fragments).filterAll parent selections) :=
  fixes_filterAll_of_leaves (fun _ _ _ hleaves hsame => hleaves.stays_of_alike hsame) halike

/-! ## Fewer fragments -/

/-- Nothing is left when no selection is kept. -/
theorem filterAll_eq_nil_iff {filter : Filter} {selections : List Selection} :
    filter.filterAll parent selections = [] ↔
      ∀ selection ∈ selections, ∀ kept, ¬ filter.Leaves parent selection kept := by
  rw [List.eq_nil_iff_forall_not_mem]
  constructor
  · intro h selection hmem kept hleaves
    exact h kept (mem_filterAll_iff.mpr ⟨selection, hmem, hleaves⟩)
  · intro h kept hkept
    obtain ⟨selection, hmem, hleaves⟩ := mem_filterAll_iff.mp hkept
    exact h selection hmem kept hleaves

/-- A selection that is kept is kept with more fragments, too. -/
theorem Leaves.exists_of_alike {selection kept : Selection}
    (h : (Filter.mk schema fragments).Leaves parent selection kept)
    (halike : ∀ name, HasAlike fragments others name) :
    ∃ kept', (Filter.mk schema others).Leaves parent selection kept' := by
  -- What is left below a selection is not empty with more fragments either.
  have hinner : ∀ {type : Name} {selections : List Selection},
      (∀ selection ∈ selections, ∀ {parent kept},
        (Filter.mk schema fragments).Leaves parent selection kept →
          ∃ kept', (Filter.mk schema others).Leaves parent selection kept') →
      (Filter.mk schema fragments).filterAll type selections ≠ [] →
        (Filter.mk schema others).filterAll type selections ≠ [] := by
    intro type selections ih hleft hempty
    refine hleft (filterAll_eq_nil_iff.mpr fun selection hmem kept hleaves => ?_)
    obtain ⟨kept', hleaves'⟩ := ih selection hmem hleaves
    exact filterAll_eq_nil_iff.mp hempty selection hmem kept' hleaves'
  induction selection using Selection.nestedInduction generalizing parent kept with
  | field node ih =>
    cases h with
    | typename named => exact ⟨_, .typename named⟩
    | leaf named declared simple => exact ⟨_, .leaf named declared simple⟩
    | composite named declared composite left =>
      exact ⟨_, .composite named declared composite (hinner ih left)⟩
  | spread fragment directives =>
    cases h with
    | spread found applies =>
      obtain ⟨other, hother, hcondition⟩ := halike fragment _ found
      rw [← hcondition] at applies
      exact ⟨_, .spread hother applies⟩
  | inline condition directives selections ih =>
    cases h with
    | inline applies left => exact ⟨_, .inline applies (hinner ih left)⟩

/-- Of selections of which nothing is left, nothing is left with fewer fragments. -/
theorem filterAll_eq_nil_of_alike {selections : List Selection}
    (halike : ∀ name, HasAlike fragments others name)
    (h : (Filter.mk schema others).filterAll parent selections = []) :
    (Filter.mk schema fragments).filterAll parent selections = [] := by
  refine filterAll_eq_nil_iff.mpr fun selection hmem kept hleaves => ?_
  obtain ⟨kept', hleaves'⟩ := hleaves.exists_of_alike halike
  exact filterAll_eq_nil_iff.mp h selection hmem kept' hleaves'

end Filter

end Transform

end Gateway
