import Gateway.Proofs.Transform.Filtered
import Gateway.Proofs.Transform.Revised
import Gateway.Schema.Builtin
import Gateway.Transform.Typename

/-!
# Filtered documents are stable

A filtered document passes the filter as it is, and so does the document with the meta field
selected on all abstract types (`filterToSchema_stable`). Selecting the meta field changes no
condition, no spread and no variable (`usedFragmentsOfAll_typed`, `usedVariablesOfAll_typed`), and
what a filter leaves as it is it still does with the meta field in it (`Filter.Fixes.typed`). So the
fragments are reached in the same order and nothing becomes empty.
-/

namespace Gateway

namespace Transform

/-! ## Selecting the meta field -/

section Typed

variable {schema : Schema} {parent : Name}

/-- The selections with the meta field selected on abstract types. -/
abbrev typedSelections (schema : Schema) (parent : Name) (selections : List Selection) :
    List Selection :=
  (addingTypename schema).selections parent selections

/-- Besides the selections, with the meta field in them, there is only the meta field. -/
theorem mem_typedSelections {selections : List Selection} {selection : Selection}
    (h : selection ∈ typedSelections schema parent selections) :
    (∃ original ∈ selections, (addingTypename schema).selection parent original = selection) ∨
      selection = selectTypename := by
  change selection ∈ withTypename schema parent _ at h
  rw [Revision.inner_eq_map] at h
  unfold withTypename at h
  split at h
  · rcases List.mem_append.mp h with h | h
    · exact .inl (List.mem_map.mp h)
    · exact .inr (List.mem_singleton.mp h)
  · exact .inl (List.mem_map.mp h)

/-- Selections do not become empty. -/
theorem typedSelections_ne_nil {selections : List Selection} (h : selections ≠ []) :
    typedSelections schema parent selections ≠ [] := by
  change withTypename schema parent _ ≠ []
  rw [Revision.inner_eq_map]
  unfold withTypename
  split
  · exact List.append_ne_nil_of_right_ne_nil _ (List.cons_ne_nil _ _)
  · exact fun hnil => h (List.map_eq_nil_iff.mp hnil)

/-- What is counted of the selections in order is counted of those with the meta field when the meta
field does not count. -/
theorem flatMap_typedSelections {count : Selection → List Name} (hmeta : count selectTypename = [])
    {selections : List Selection} (h : ∀ selection ∈ selections,
      count ((addingTypename schema).selection parent selection) = count selection) :
    (typedSelections schema parent selections).flatMap count = selections.flatMap count := by
  have hinner : (selections.map ((addingTypename schema).selection parent)).flatMap count =
      selections.flatMap count := by
    rw [List.flatMap_map]
    exact List.flatMap_congr h
  change (withTypename schema parent _).flatMap count = _
  rw [Revision.inner_eq_map]
  unfold withTypename
  split
  · rw [List.flatMap_append, hinner, List.flatMap_singleton, hmeta, List.append_nil]
  · exact hinner

/-- So it is of each selection when the count of a field or an inline fragment depends, besides
itself, only on what is counted below it. -/
theorem count_typed {count : Selection → List Name} (hmeta : count selectTypename = [])
    (hfield : ∀ (node : Field) (selections : List Selection),
      selections.flatMap count = node.selections.flatMap count →
        count (.field { node with selections }) = count (.field node))
    (hinline : ∀ (condition : Option Name) (directives : List Directive)
      (inner selections : List Selection), selections.flatMap count = inner.flatMap count →
        count (.inline condition directives selections) =
          count (.inline condition directives inner))
    (selection : Selection) :
    count ((addingTypename schema).selection parent selection) = count selection := by
  induction selection using Selection.nestedInduction generalizing parent with
  | field node ih =>
    cases htype : (addingTypename schema).fieldType? parent node.name with
    | none => rw [Revision.selection_unknown htype]
    | some type =>
      by_cases hleft : node.selections = []
      · rw [Revision.selection_empty hleft]
      · rw [Revision.selection_known htype hleft]
        exact hfield node _ (flatMap_typedSelections hmeta fun selection hmem => ih selection hmem)
  | spread fragment directives => rw [Revision.selection_spread]
  | inline condition directives selections ih =>
    rw [Revision.selection_inline]
    exact hinline condition directives selections _
      (flatMap_typedSelections hmeta fun selection hmem => ih selection hmem)

/-- With the meta field selected a selection spreads the same fragments. -/
theorem usedFragments_typed (selection : Selection) :
    usedFragments ((addingTypename schema).selection parent selection) =
      usedFragments selection := by
  refine count_typed rfl ?_ ?_ selection
  · intro node selections hbelow
    rw [usedFragments_field, usedFragments_field, usedFragmentsOfAll_eq_flatMap,
      usedFragmentsOfAll_eq_flatMap, hbelow]
  · intro condition directives inner selections hbelow
    rw [usedFragments, usedFragments, usedFragmentsOfAll_eq_flatMap,
      usedFragmentsOfAll_eq_flatMap, hbelow]

/-- With the meta field selected, selections spread the same fragments. -/
theorem usedFragmentsOfAll_typed (selections : List Selection) :
    usedFragmentsOfAll (typedSelections schema parent selections) =
      usedFragmentsOfAll selections := by
  rw [usedFragmentsOfAll_eq_flatMap, usedFragmentsOfAll_eq_flatMap]
  exact flatMap_typedSelections rfl fun selection _ => usedFragments_typed selection

/-- With the meta field selected a selection uses the same variables. -/
theorem usedVariables_typed (selection : Selection) :
    usedVariables ((addingTypename schema).selection parent selection) =
      usedVariables selection := by
  refine count_typed rfl ?_ ?_ selection
  · intro node selections hbelow
    rw [usedVariables_field, usedVariables_field, usedVariablesOfAll_eq_flatMap,
      usedVariablesOfAll_eq_flatMap, hbelow]
  · intro condition directives inner selections hbelow
    rw [usedVariables, usedVariables, usedVariablesOfAll_eq_flatMap,
      usedVariablesOfAll_eq_flatMap, hbelow]

/-- With the meta field selected, selections use the same variables. -/
theorem usedVariablesOfAll_typed (selections : List Selection) :
    usedVariablesOfAll (typedSelections schema parent selections) =
      usedVariablesOfAll selections := by
  rw [usedVariablesOfAll_eq_flatMap, usedVariablesOfAll_eq_flatMap]
  exact flatMap_typedSelections rfl fun selection _ => usedVariables_typed selection

/-! ## Filters leave the meta field -/

/-- Selections that stay one by one stay with the meta field. -/
theorem Filter.fixes_typedSelections {filter : Filter} {selections : List Selection}
    (h : ∀ selection ∈ selections,
      filter.Stays parent ((addingTypename schema).selection parent selection)) :
    filter.Fixes parent (typedSelections schema parent selections) := by
  intro selection hmem
  rw [leaves_self_iff]
  rcases mem_typedSelections hmem with ⟨original, horiginal, rfl⟩ | rfl
  · exact h original horiginal
  · exact .typename rfl

/-- A selection that stays does so with the meta field selected in it, also with other fragments
that are alike. -/
theorem Filter.Stays.typed {fragments others : Entries Fragment}
    (halike : ∀ name, HasAlike fragments others name) {selection : Selection}
    (h : (Filter.mk schema fragments).Stays parent selection) :
    (Filter.mk schema others).Stays parent
      ((addingTypename schema).selection parent selection) := by
  induction selection using Selection.nestedInduction generalizing parent with
  | field node ih =>
    cases h with
    | typename named =>
      have hunknown : (addingTypename schema).fieldType? parent node.name = none := if_pos named
      rw [Revision.selection_unknown hunknown]
      exact .typename named
    | leaf named declared simple given empty =>
      rw [Revision.selection_empty empty]
      exact .leaf named declared simple given empty
    | @composite _ definition named declared composite given left fixes =>
      have hknown : (addingTypename schema).fieldType? parent node.name =
          some definition.type.innerName := Schema.fieldTypeName?_of_field? named declared
      rw [Revision.selection_known hknown left]
      exact .composite named declared composite given (typedSelections_ne_nil left)
        (fixes_typedSelections fun selection hmem =>
          ih selection hmem (leaves_self_iff.mp (fixes selection hmem)))
  | spread fragment directives =>
    rw [Revision.selection_spread]
    cases h with
    | spread found applies =>
      obtain ⟨other, hother, hcondition⟩ := halike fragment _ found
      rw [← hcondition] at applies
      exact .spread hother applies
  | inline condition directives selections ih =>
    rw [Revision.selection_inline]
    cases h with
    | inline applies left fixes =>
      exact .inline applies (typedSelections_ne_nil left)
        (fixes_typedSelections fun selection hmem =>
          ih selection hmem (leaves_self_iff.mp (fixes selection hmem)))

/-- Selections that are left as they are are so with the meta field selected in them. -/
theorem Filter.Fixes.typed {fragments others : Entries Fragment}
    (halike : ∀ name, HasAlike fragments others name) {selections : List Selection}
    (h : (Filter.mk schema fragments).Fixes parent selections) :
    (Filter.mk schema others).Fixes parent (typedSelections schema parent selections) :=
  fixes_typedSelections fun selection hmem =>
    Stays.typed halike (leaves_self_iff.mp (h selection hmem))

end Typed

/-! ## Documents with the meta field -/

/-- A fragment with the meta field selected on abstract types. -/
def typedFragment (schema : Schema) (fragment : Fragment) : Fragment :=
  { fragment with selections := typedSelections schema fragment.condition fragment.selections }

/-- An operation with the meta field selected on abstract types. -/
def typedOperation (schema : Schema) (operation : Operation) : Operation :=
  { operation with
    selections := typedSelections schema ((schema.root? operation.kind).getD "")
      operation.selections }

/-- It keeps its name. -/
theorem typedFragment_name (schema : Schema) (fragment : Fragment) :
    (typedFragment schema fragment).name = fragment.name := rfl

section Documents

variable {schema : Schema} {operations : List Operation} {fragments : List Fragment}

/-- The meta field is added to each fragment. -/
theorem revise_fragments (root? : Option Name) (fragments : List Fragment) :
    Document.revise schema (fun _ => (addingTypename schema).selections) root?
        (fragments.map Definition.fragment) =
      .ok ((fragments.map (typedFragment schema)).map Definition.fragment) := by
  induction fragments with
  | nil => rfl
  | cons first rest ih =>
    rw [List.map_cons, Document.revise, ih]
    rfl

/-- The meta field is added to each operation and to each fragment. -/
theorem addTypename_ofParts
    (hroots : ∀ operation ∈ operations, ∃ root, schema.root? operation.kind = some root) :
    addTypename schema (.ofParts operations fragments) =
      .ok (.ofParts (operations.map (typedOperation schema))
        (fragments.map (typedFragment schema))) := by
  unfold addTypename Document.ofParts
  -- The root type of an operation is handed on to the definitions behind it.
  generalize (none : Option Name) = root?
  induction operations generalizing root? with
  | nil => exact revise_fragments root? fragments
  | cons first rest ih =>
    obtain ⟨root, hroot⟩ := hroots first List.mem_cons_self
    rw [List.map_cons, List.cons_append, Document.revise, hroot]
    dsimp only
    rw [ih fun operation hmem => hroots operation (List.mem_cons_of_mem _ hmem)]
    unfold typedOperation
    rw [List.map_cons, hroot, List.map_cons, List.cons_append, Option.getD_some]
    rfl

/-- The fragments with the meta field are alike. -/
theorem hasAlike_typed (schema : Schema) (fragments : List Fragment) (name : Name) :
    Filter.HasAlike (Filter.byAll schema fragments).fragments
      (Filter.byAll schema (fragments.map (typedFragment schema))).fragments name := by
  intro fragment hfound
  refine ⟨typedFragment schema fragment, ?_, rfl⟩
  rw [Filter.get?_byAll_map schema (typedFragment_name schema), hfound, Option.map_some]

/-- The fragments with the meta field are left as they are when the fragments are. -/
theorem fixed_typed (hfixed : ∀ fragment ∈ fragments,
      (Filter.byAll schema fragments).Fixes fragment.condition fragment.selections) :
    ∀ fragment ∈ fragments.map (typedFragment schema),
      (Filter.byAll schema (fragments.map (typedFragment schema))).Fixes fragment.condition
        fragment.selections := by
  intro typed htyped
  obtain ⟨fragment, hmem, rfl⟩ := List.mem_map.mp htyped
  exact Filter.Fixes.typed (hasAlike_typed schema fragments) (hfixed fragment hmem)

/-- The fragments with the meta field are reached in the order of the fragments. -/
theorem reached_typed (hfixed : ∀ fragment ∈ fragments,
      (Filter.byAll schema fragments).Fixes fragment.condition fragment.selections)
    (parent : Name) (selections : List Selection) :
    (Filter.byAll schema (fragments.map (typedFragment schema))).reached
        (typedSelections schema parent selections) =
      ((Filter.byAll schema fragments).reached selections).map (typedFragment schema) := by
  set first := Filter.byAll schema fragments with hfirst
  set second := Filter.byAll schema (fragments.map (typedFragment schema)) with hsecond
  have hget : ∀ name, second.fragments.get? name =
      (first.fragments.get? name).map (typedFragment schema) :=
    Filter.get?_byAll_map schema (typedFragment_name schema) fragments
  have hspreads : ∀ name, first.spreadsOf name = second.spreadsOf name := by
    intro name
    rw [hfirst, hsecond, Filter.spreadsOf_byAll hfixed, Filter.spreadsOf_byAll (fixed_typed hfixed),
      ← hfirst, ← hsecond, hget, Option.map_map]
    refine Option.map_congr fun fragment _ => ?_
    exact congrArg _ (usedFragmentsOfAll_typed fragment.selections).symm
  have hnames : second.reachedNames (typedSelections schema parent selections) =
      first.reachedNames selections := by
    have hsearch := second.explores_reachedNames (typedSelections schema parent selections)
    rw [usedFragmentsOfAll_typed, ← funext hspreads] at hsearch
    exact hsearch.unique (first.explores_reachedNames selections)
  rw [hfirst, hsecond, Filter.reached_byAll hfixed, Filter.reached_byAll (fixed_typed hfixed),
    ← hfirst, ← hsecond, hnames, List.map_filterMap]
  exact List.filterMap_congr fun name _ => hget name

/-- With the meta field an operation and the fragments that it reaches use the same variables. -/
theorem variablesOf_typed (operation : Operation) (fragments : List Fragment) :
    Filter.variablesOf (typedOperation schema operation)
        (fragments.map (typedFragment schema)) =
      Filter.variablesOf operation fragments := by
  unfold Filter.variablesOf typedOperation typedFragment
  dsimp only
  rw [usedVariablesOfAll_typed, List.flatMap_map]
  dsimp only
  simp only [usedVariablesOfAll_typed]

/-- A document that has nothing left to filter has nothing to filter with the meta field either. -/
theorem IsFiltered.withTypename (h : IsFiltered schema operations fragments) :
    IsFiltered schema (operations.map (typedOperation schema))
      (fragments.map (typedFragment schema)) where
  distinct := by
    rw [List.map_map]
    exact h.distinct
  typed := by
    intro typed htyped
    obtain ⟨fragment, hmem, rfl⟩ := List.mem_map.mp htyped
    exact h.typed fragment hmem
  nonempty := by
    intro typed htyped
    obtain ⟨fragment, hmem, rfl⟩ := List.mem_map.mp htyped
    exact typedSelections_ne_nil (h.nonempty fragment hmem)
  fixed := fixed_typed h.fixed
  rooted := by
    intro typed htyped
    obtain ⟨operation, hmem, rfl⟩ := List.mem_map.mp htyped
    obtain ⟨root, hroot, hfixes⟩ := h.rooted operation hmem
    refine ⟨root, hroot, ?_⟩
    unfold typedOperation
    rw [hroot, Option.getD_some]
    exact Filter.Fixes.typed (hasAlike_typed schema fragments) hfixes
  reached := by
    have hreached : ∀ operation : Operation,
        (Filter.byAll schema (fragments.map (typedFragment schema))).reached
            (typedOperation schema operation).selections =
          ((Filter.byAll schema fragments).reached operation.selections).map
            (typedFragment schema) :=
      fun operation => reached_typed h.fixed _ operation.selections
    rw [List.flatMap_map]
    simp only [hreached]
    rw [← List.map_flatMap, unionFragments_map _ (typedFragment_name schema), ← h.reached]
  used := by
    intro typed htyped declared hdeclared
    obtain ⟨operation, hmem, rfl⟩ := List.mem_map.mp htyped
    have hreached := reached_typed h.fixed ((schema.root? operation.kind).getD "")
      operation.selections
    rw [show (typedOperation schema operation).selections =
      typedSelections schema ((schema.root? operation.kind).getD "") operation.selections from rfl,
      hreached, variablesOf_typed]
    exact h.used operation hmem declared hdeclared

end Documents

/-- A filtered document passes the filter as it is, and with the meta field selected on all abstract
types it does so, too. -/
theorem filterToSchema_stable {schema : Schema} {document output : Document}
    (h : filterToSchema schema document = .ok output) :
    filterToSchema schema output = .ok output ∧
      ∃ typed, addTypename schema output = .ok typed ∧
        filterToSchema schema typed = .ok typed := by
  obtain ⟨operations, fragments, rfl, hfiltered⟩ := isFiltered_of_filterToSchema h
  refine ⟨filterToSchema_of_isFiltered hfiltered, _, addTypename_ofParts ?_,
    filterToSchema_of_isFiltered hfiltered.withTypename⟩
  intro operation hmem
  obtain ⟨root, hroot, -⟩ := hfiltered.rooted operation hmem
  exact ⟨root, hroot⟩

/-- A service of persons, who are looked up as agents. -/
def agentSchema : Schema where
  types := [Builtin.scalar "String",
    Builtin.object "Query" [Builtin.field "agent" (.named "Agent")],
    { name := "Agent", body := .interface [] [Builtin.field "name" (.named "String")] },
    { name := "Person",
      body := .object ["Agent"]
        [Builtin.field "name" (.named "String"), Builtin.field "friend" (.named "Agent")] }]
  directives := []
  roots := [(.query, "Query")]

/-- A query with fragments that spread each other and an undeclared field. -/
def friendsQuery : Document := [
  .fragment { name := "Named", condition := "Agent",
              selections := [.field { name := "age" }, .spread "Friends" []] },
  .operation { selections := [.field { name := "agent", selections := [.spread "Friends" []] }] },
  .fragment { name := "Friends", condition := "Person",
              selections := [.field { name := "friend", selections := [.spread "Named" []] }] }]

/-- What is left of it for the service. -/
def friendsLeft : Document := .ofParts
  [{ selections := [.field { name := "agent", selections := [.spread "Friends" []] }] }]
  [{ name := "Friends", condition := "Person",
     selections := [.field { name := "friend", selections := [.spread "Named" []] }] },
   { name := "Named", condition := "Agent", selections := [.spread "Friends" []] }]

/-- What is left of the query is stable, although its fragments are cyclic. -/
theorem filterToSchema_stable_friends :
    filterToSchema agentSchema friendsQuery = .ok friendsLeft ∧
      filterToSchema agentSchema friendsLeft = .ok friendsLeft ∧
      ∃ typed, addTypename agentSchema friendsLeft = .ok typed ∧
        filterToSchema agentSchema typed = .ok typed := by
  have hfiltered : filterToSchema agentSchema friendsQuery = .ok friendsLeft := by rfl
  exact ⟨hfiltered, filterToSchema_stable hfiltered⟩

end Transform

end Gateway
