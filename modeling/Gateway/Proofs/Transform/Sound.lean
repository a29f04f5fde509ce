import Gateway.Proofs.Language.Places
import Gateway.Proofs.Schema.Overlap
import Gateway.Proofs.Transform.Filtered

/-!
# Filtered documents are sound

What a filtered document asks is declared by the schema (`filterToSchema_sound`). `IsSound` says so
of all places of the document, at any depth.

A filtered document has nothing left to filter, so at each place its selections stay
(`IsFiltered.stays`), and what is said of a place is one of the rules of `Filter.Stays`. The filter
counts no spreads and variables under the meta field; there are none when the meta field is bare.
-/

namespace Gateway

/-- What it means that a document is filtered soundly. -/
structure IsSound (schema : Schema) (document output : Document) : Prop where
  /-- Every selection stands in a selection set with a type. -/
  placed : ∀ selections ∈ output.selectionSets, ∀ selection, Occurs selection selections →
    ∃ parent around, SelectsFrom schema output parent around ∧ selection ∈ around
  /-- Fields are declared by the type that they are selected from, and arguments by their field. -/
  declared : ∀ parent selections, SelectsFrom schema output parent selections →
    ∀ node : Field, .field node ∈ selections → node.name ≠ typenameField →
      ∃ definition, schema.field? parent node.name = some definition ∧
        ∀ argument ∈ node.arguments, ∃ declared ∈ definition.arguments,
          declared.name = argument.name
  /-- The meta field remains without arguments and selections. -/
  bare : ∀ selections ∈ output.selectionSets, BareMeta selections
  /-- A field has selections exactly when its type is composite. -/
  shaped : ∀ parent selections, SelectsFrom schema output parent selections →
    ∀ node : Field, .field node ∈ selections →
      ∀ type, schema.fieldTypeName? parent node.name = some type →
        (node.selections ≠ [] ↔ schema.isComposite type = true)
  /-- Inline fragments select something. -/
  inlineNonempty : ∀ parent selections, SelectsFrom schema output parent selections →
    ∀ condition directives inner, .inline condition directives inner ∈ selections → inner ≠ []
  /-- Fragments select something. -/
  fragmentNonempty : ∀ fragment ∈ output.fragments, fragment.selections ≠ []
  /-- The condition of an inline fragment is a type that overlaps with the type around it. -/
  inlineApplies : ∀ parent selections, SelectsFrom schema output parent selections →
    ∀ condition directives inner, .inline (some condition) directives inner ∈ selections →
      schema.hasType condition = true ∧ schema.Overlaps parent condition
  /-- A spread fragment is one of the document, on a type that overlaps with the type around it. -/
  spreadApplies : ∀ parent selections, SelectsFrom schema output parent selections →
    ∀ name directives, .spread name directives ∈ selections →
      ∃ fragment ∈ output.fragments, fragment.name = name ∧
        schema.hasType fragment.condition = true ∧ schema.Overlaps parent fragment.condition
  /-- No fragment is defined twice. -/
  distinct : (output.fragments.map Fragment.name).Nodup
  /-- The fragments are those that the operations reach. -/
  reached : ∀ name, (∃ fragment ∈ output.fragments, fragment.name = name) ↔
    ∃ operation ∈ output.operations, Reaches output.fragments operation.selections name
  /-- The operations are those of the document, with other selections and with those of their
  variables that are used. -/
  operations : List.Forall₂ (fun original kept => ∃ used : VariableDefinition → Bool,
      (∀ declared, used declared = true ↔ output.UsesVariable kept declared.name) ∧
        kept = { original with
          selections := kept.selections, vars := original.vars.filter used })
    document.operations output.operations

namespace Transform

/-- The name of the fragment that a selection itself spreads. -/
def ownSpread : Selection → List Name
  | .spread fragment _ => [fragment]
  | _ => []

section Used

variable {selections : List Selection} (hbare : BareMeta selections) {name : Name}

include hbare

/-- When the meta field is bare, selections spread the fragments of the spreads in them. -/
theorem mem_usedFragmentsOfAll_iff :
    name ∈ usedFragmentsOfAll selections ↔
      ∃ directives, Occurs (.spread name directives) selections := by
  rw [usedFragmentsOfAll_eq_flatMap, mem_gathered_iff ownSpread usedFragments
    (fun node hname _ => (usedFragments_field node).trans (if_pos hname))
    (fun node hname => ((usedFragments_field node).trans (if_neg hname)).trans
      (usedFragmentsOfAll_eq_flatMap _))
    (fun _ _ => by rw [usedFragments, ownSpread])
    (fun _ _ inner => by rw [usedFragments, usedFragmentsOfAll_eq_flatMap]; rfl) hbare]
  constructor
  · rintro ⟨selection, hoccurs, hown⟩
    cases selection with
    | spread fragment directives =>
      rw [List.mem_singleton.mp hown]
      exact ⟨directives, hoccurs⟩
    | field => exact absurd hown List.not_mem_nil
    | inline => exact absurd hown List.not_mem_nil
  · rintro ⟨directives, hoccurs⟩
    exact ⟨_, hoccurs, List.mem_cons_self⟩

/-- When the meta field is bare, selections use the variables of each selection in them. -/
theorem mem_usedVariablesOfAll_iff :
    name ∈ usedVariablesOfAll selections ↔ SelectionsUse name selections := by
  rw [usedVariablesOfAll_eq_flatMap]
  refine mem_gathered_iff Selection.ownVariables usedVariables ?_ ?_ ?_ ?_ hbare
  · intro node hname harguments
    rw [usedVariables_field, if_pos hname, Selection.ownVariables, harguments]
    rfl
  · intro node hname
    rw [usedVariables_field, if_neg hname, usedVariablesOfAll_eq_flatMap]
    rfl
  · intro fragment directives
    rw [usedVariables, Selection.ownVariables]
  · intro condition directives inner
    rw [usedVariables, usedVariablesOfAll_eq_flatMap]
    rfl

end Used

/-- The meta field that is left is one that was there. -/
theorem Filter.occurs_of_filterAll {filter : Filter} {node : Field}
    (hname : node.name = typenameField) {parent : Name} {selections : List Selection}
    (h : Occurs (.field node) (filter.filterAll parent selections)) :
    Occurs (.field node) selections := by
  -- The induction goes down in what is left; each rule says of which selection it is left.
  generalize hkept : filter.filterAll parent selections = kept at h
  induction h generalizing parent selections with
  | here mem =>
    rw [← hkept] at mem
    obtain ⟨selection, hmem, hleaves⟩ := mem_filterAll_iff.mp mem
    cases hleaves with
    | typename => exact .here hmem
    | leaf named => exact absurd hname named
    | composite named => exact absurd hname named
  | @field _ other mem within ih =>
    rw [← hkept] at mem
    obtain ⟨selection, hmem, hleaves⟩ := mem_filterAll_iff.mp mem
    cases hleaves with
    | typename => exact .field hmem within
    | leaf => exact absurd within not_occurs_nil
    | composite => exact .field hmem (ih rfl)
  | inline mem within ih =>
    rw [← hkept] at mem
    obtain ⟨selection, hmem, hleaves⟩ := mem_filterAll_iff.mp mem
    cases hleaves with
    | inline => exact .inline hmem (ih rfl)

/-- What is left of selections with the bare meta field has the bare meta field. -/
theorem Filter.bareMeta_filterAll {filter : Filter} {parent : Name} {selections : List Selection}
    (h : BareMeta selections) : BareMeta (filter.filterAll parent selections) :=
  fun node hoccurs hname => h node (occurs_of_filterAll hname hoccurs) hname

/-! ## Places with nothing left to filter -/

section Fixed

variable {schema : Schema} {operations : List Operation} {fragments : List Fragment}

/-- At every place of a filtered document the selections stay. -/
theorem IsFiltered.fixes (h : IsFiltered schema operations fragments) {parent : Name}
    {selections : List Selection}
    (hplace : SelectsFrom schema (.ofParts operations fragments) parent selections) :
    (Filter.byAll schema fragments).Fixes parent selections := by
  induction hplace with
  | operation mem found =>
    rw [Document.operations_ofParts] at mem
    obtain ⟨root, hroot, hfixes⟩ := h.rooted _ mem
    cases hroot.symm.trans found
    exact hfixes
  | fragment mem =>
    rw [Document.fragments_ofParts] at mem
    exact h.fixed _ mem
  | @field parent type selections node within mem declared ih =>
    cases Filter.leaves_self_iff.mp (ih _ mem) with
    | typename named => exact absurd ((if_pos named).symm.trans declared) (by simp)
    | leaf _ _ _ _ empty =>
      rw [empty]
      exact fun _ hmem => absurd hmem List.not_mem_nil
    | @composite _ definition named found _ _ _ fixes =>
      have htype := Schema.fieldTypeName?_of_field? named found
      cases htype.symm.trans declared
      exact fixes
  | inline within mem ih =>
    cases Filter.leaves_self_iff.mp (ih _ mem) with
    | inline _ _ fixes => exact fixes

/-- So each of them does by one of the rules. -/
theorem IsFiltered.stays (h : IsFiltered schema operations fragments) {parent : Name}
    {selections : List Selection}
    (hplace : SelectsFrom schema (.ofParts operations fragments) parent selections) :
    ∀ selection ∈ selections, (Filter.byAll schema fragments).Stays parent selection :=
  fun selection hmem => Filter.leaves_self_iff.mp (h.fixes hplace selection hmem)

/-- Every selection in a selection set with a type stands in one with a type. -/
theorem IsFiltered.placed (h : IsFiltered schema operations fragments) {parent : Name}
    {selections : List Selection} {selection : Selection}
    (hplace : SelectsFrom schema (.ofParts operations fragments) parent selections)
    (hbare : BareMeta selections) (hoccurs : Occurs selection selections) :
    ∃ parent around, SelectsFrom schema (.ofParts operations fragments) parent around ∧
      selection ∈ around := by
  induction hoccurs generalizing parent with
  | here mem => exact ⟨parent, _, hplace, mem⟩
  | @field selections node mem within ih =>
    have hnode := bareMeta_field_iff.mp (bareMeta_iff_forall.mp hbare _ mem)
    cases h.stays hplace _ mem with
    | typename named =>
      rw [(hnode.1 named).2] at within
      exact absurd within not_occurs_nil
    | leaf _ _ _ _ empty =>
      rw [empty] at within
      exact absurd within not_occurs_nil
    | @composite _ definition named declared =>
      exact ih (hplace.field mem (Schema.fieldTypeName?_of_field? named declared)) hnode.2
  | inline mem _ ih =>
    exact ih (hplace.inline mem) (bareMeta_inline_iff.mp (bareMeta_iff_forall.mp hbare _ mem))

/-- A name leads to what the fragment of this name spreads, if there is one. -/
theorem IsFiltered.spreadsOf_eq_some_iff (h : IsFiltered schema operations fragments) {name : Name}
    {names : List Name} :
    (Filter.byAll schema fragments).spreadsOf name = some names ↔
      ∃ fragment ∈ fragments, fragment.name = name ∧
        names = (usedFragmentsOfAll fragment.selections).eraseDups := by
  rw [Filter.spreadsOf_byAll h.fixed, Option.map_eq_some_iff]
  constructor
  · rintro ⟨fragment, hget, rfl⟩
    obtain ⟨hmem, hname⟩ := Filter.of_get?_byAll hget
    exact ⟨fragment, hmem, hname, rfl⟩
  · rintro ⟨fragment, hmem, rfl, rfl⟩
    exact ⟨fragment, Filter.get?_byAll schema h.distinct hmem, rfl⟩

/-- What can be reached step by step from what selections spread is what the selections reach. -/
theorem IsFiltered.reachable_iff (h : IsFiltered schema operations fragments)
    (hbare : ∀ fragment ∈ fragments, BareMeta fragment.selections) {selections : List Selection}
    (hselections : BareMeta selections) {name : Name} :
    Reachable (Filter.byAll schema fragments).spreadsOf
        (usedFragmentsOfAll selections).eraseDups name ↔ Reaches fragments selections name := by
  -- The rules on both sides are the same, up to how a spread is found in selections.
  have hspreads : ∀ {selections : List Selection} {name : Name}, BareMeta selections →
      (name ∈ (usedFragmentsOfAll selections).eraseDups ↔
        ∃ directives, Occurs (.spread name directives) selections) :=
    fun hbare => List.mem_eraseDups.trans (mem_usedFragmentsOfAll_iff hbare)
  constructor
  · intro hreachable
    induction hreachable with
    | start mem =>
      obtain ⟨directives, hoccurs⟩ := (hspreads hselections).mp mem
      exact .spread hoccurs
    | step _ known mem ih =>
      obtain ⟨fragment, hmem, rfl, rfl⟩ := h.spreadsOf_eq_some_iff.mp known
      obtain ⟨directives, hoccurs⟩ := (hspreads (hbare fragment hmem)).mp mem
      exact .through hmem ih hoccurs
  · intro hreaches
    induction hreaches with
    | spread occurs => exact .start ((hspreads hselections).mpr ⟨_, occurs⟩)
    | @through fragment _ _ mem _ occurs ih =>
      exact .step ih (h.spreadsOf_eq_some_iff.mpr ⟨fragment, mem, rfl, rfl⟩)
        ((hspreads (hbare fragment mem)).mpr ⟨_, occurs⟩)

/-- What a filter by all fragments reaches are the fragments that the selections reach. -/
theorem IsFiltered.mem_reached_iff (h : IsFiltered schema operations fragments)
    (hbare : ∀ fragment ∈ fragments, BareMeta fragment.selections) {selections : List Selection}
    (hselections : BareMeta selections) {fragment : Fragment} :
    fragment ∈ (Filter.byAll schema fragments).reached selections ↔
      fragment ∈ fragments ∧ Reaches fragments selections fragment.name := by
  rw [Filter.reached_byAll h.fixed, List.mem_filterMap]
  constructor
  · rintro ⟨name, hname, hget⟩
    obtain ⟨hmem, rfl⟩ := Filter.of_get?_byAll hget
    have hreachable := ((Filter.explores_reachedNames _ _).mem_iff.mp hname).1
    exact ⟨hmem, (h.reachable_iff hbare hselections).mp hreachable⟩
  · rintro ⟨hmem, hname⟩
    have hknown : ((Filter.byAll schema fragments).spreadsOf fragment.name).isSome = true :=
      Option.isSome_iff_exists.mpr ⟨_, h.spreadsOf_eq_some_iff.mpr ⟨fragment, hmem, rfl, rfl⟩⟩
    exact ⟨fragment.name, (Filter.explores_reachedNames _ _).mem_iff.mpr
      ⟨(h.reachable_iff hbare hselections).mpr hname, hknown⟩,
      Filter.get?_byAll schema h.distinct hmem⟩

/-- Each selection set of an operation or a fragment has a type. -/
theorem IsFiltered.exists_selectsFrom (h : IsFiltered schema operations fragments)
    {selections : List Selection}
    (hmem : selections ∈ (Document.ofParts operations fragments).selectionSets) :
    ∃ parent, SelectsFrom schema (.ofParts operations fragments) parent selections := by
  rcases List.mem_append.mp hmem with hmem | hmem
  · obtain ⟨operation, hoperation, rfl⟩ := List.mem_map.mp hmem
    have hlisted := hoperation
    rw [Document.operations_ofParts] at hlisted
    obtain ⟨root, hroot, -⟩ := h.rooted operation hlisted
    exact ⟨root, .operation hoperation hroot⟩
  · obtain ⟨fragment, hfragment, rfl⟩ := List.mem_map.mp hmem
    exact ⟨_, .fragment hfragment⟩

end Fixed

/-! ## What is left of a document -/

section Left

variable {schema : Schema} {document : Document} {kept : List (Operation × List Fragment)}

/-- What is left of operations has the bare meta field when the document has. -/
theorem AreLeft.bareMeta_operation (h : AreLeft schema document kept)
    (hbare : ∀ selections ∈ document.selectionSets, BareMeta selections) {operation : Operation}
    (hmem : operation ∈ kept.map Prod.fst) : BareMeta operation.selections := by
  obtain ⟨entry, hentry, rfl⟩ := List.mem_map.mp hmem
  obtain ⟨original, horiginal, hkept⟩ := h entry hentry
  obtain ⟨root, -, hselections, -, -⟩ := Filter.left_of_operation hkept
  rw [hselections]
  exact Filter.bareMeta_filterAll
    (hbare _ (List.mem_append_left _ (List.mem_map.mpr ⟨original, horiginal, rfl⟩)))

/-- What is left of fragments has the bare meta field when the document has. -/
theorem AreLeft.bareMeta_fragment (h : AreLeft schema document kept)
    (hbare : ∀ selections ∈ document.selectionSets, BareMeta selections) {fragment : Fragment}
    (hmem : fragment ∈ unionFragments [] (kept.flatMap Prod.snd)) :
    BareMeta fragment.selections := by
  obtain ⟨-, -, -, -, definition, hfound, rfl⟩ := h.of_mem_union hmem
  have hdefinition := (Filter.of_get?_ofDocument hfound).1
  exact Filter.bareMeta_filterAll
    (hbare _ (List.mem_append_right _ (List.mem_map.mpr ⟨definition, hdefinition, rfl⟩)))

/-- So it is in all selection sets. -/
theorem AreLeft.bareMeta_selectionSets (h : AreLeft schema document kept)
    (hbare : ∀ selections ∈ document.selectionSets, BareMeta selections)
    {selections : List Selection}
    (hmem : selections ∈ (Document.ofParts (kept.map Prod.fst)
      (unionFragments [] (kept.flatMap Prod.snd))).selectionSets) : BareMeta selections := by
  unfold Document.selectionSets at hmem
  rw [Document.operations_ofParts, Document.fragments_ofParts] at hmem
  rcases List.mem_append.mp hmem with hmem | hmem
  · obtain ⟨operation, hoperation, rfl⟩ := List.mem_map.mp hmem
    exact h.bareMeta_operation hbare hoperation
  · obtain ⟨fragment, hfragment, rfl⟩ := List.mem_map.mp hmem
    exact h.bareMeta_fragment hbare hfragment

end Left

section Sound

variable {schema : Schema} {operations : List Operation} {fragments : List Fragment}

/-- What is applied by a filter overlaps. -/
theorem overlaps_of_applies {text : String} (hparse : Schema.parse? text = some schema)
    {entries : Entries Fragment} {parent condition : Name}
    (h : (Filter.mk schema entries).applies parent condition = true) :
    schema.hasType condition = true ∧ schema.Overlaps parent condition := by
  obtain ⟨htype, hoverlap⟩ := Bool.and_eq_true_iff.mp h
  exact ⟨htype, (Schema.typesOverlap_iff (Schema.unionsOfObjects_of_parse? hparse)).mp hoverlap⟩

/-- Fields and arguments are declared. -/
theorem IsFiltered.declares (h : IsFiltered schema operations fragments) {parent : Name}
    {selections : List Selection}
    (hplace : SelectsFrom schema (.ofParts operations fragments) parent selections) {node : Field}
    (hmem : .field node ∈ selections) (hname : node.name ≠ typenameField) :
    ∃ definition, schema.field? parent node.name = some definition ∧
      ∀ argument ∈ node.arguments, ∃ declared ∈ definition.arguments,
        declared.name = argument.name := by
  have hgiven : ∀ {definition : FieldDefinition} {arguments : List Argument},
      Filter.arguments definition arguments = arguments → ∀ argument ∈ arguments,
        ∃ declared ∈ definition.arguments, declared.name = argument.name := by
    intro definition arguments hall argument hargument
    have hany := List.filter_eq_self.mp hall argument hargument
    simpa using hany
  cases h.stays hplace _ hmem with
  | typename named => exact absurd named hname
  | leaf _ declared _ given _ => exact ⟨_, declared, hgiven given⟩
  | composite _ declared _ given _ _ => exact ⟨_, declared, hgiven given⟩

/-- A field has selections exactly when its type is composite. -/
theorem IsFiltered.shape (h : IsFiltered schema operations fragments) {parent type : Name}
    {selections : List Selection}
    (hplace : SelectsFrom schema (.ofParts operations fragments) parent selections) {node : Field}
    (hmem : .field node ∈ selections)
    (htype : schema.fieldTypeName? parent node.name = some type) :
    node.selections ≠ [] ↔ schema.isComposite type = true := by
  cases h.stays hplace _ hmem with
  | typename named => exact absurd ((if_pos named).symm.trans htype) (by simp)
  | leaf named declared simple _ empty =>
    cases (Schema.fieldTypeName?_of_field? named declared).symm.trans htype
    exact ⟨fun hleft => absurd empty hleft, fun h => absurd (simple.symm.trans h) (by simp)⟩
  | composite named declared composite _ left _ =>
    cases (Schema.fieldTypeName?_of_field? named declared).symm.trans htype
    exact ⟨fun _ => composite, fun _ => left⟩

/-- An operation and the fragments that it reaches use the variables that are used in them. -/
theorem IsFiltered.mem_variablesOf_iff (h : IsFiltered schema operations fragments)
    (hbare : ∀ fragment ∈ fragments, BareMeta fragment.selections) {operation : Operation}
    (hoperation : BareMeta operation.selections) {name : Name} :
    name ∈ Filter.variablesOf operation
        ((Filter.byAll schema fragments).reached operation.selections) ↔
      (Document.ofParts operations fragments).UsesVariable operation name := by
  unfold Filter.variablesOf Document.UsesVariable
  rw [Document.fragments_ofParts]
  simp only [List.mem_append, List.mem_flatMap, h.mem_reached_iff hbare hoperation,
    mem_usedVariablesOfAll_iff hoperation]
  constructor
  · rintro ((hused | hdirective) | ⟨fragment, ⟨hmem, hreaches⟩, hused⟩)
    · exact .inr (.inl hused)
    · exact .inl hdirective
    · rw [mem_usedVariablesOfAll_iff (hbare fragment hmem)] at hused
      exact .inr (.inr ⟨fragment, hmem, hreaches, hused.symm⟩)
  · rintro (hdirective | hused | ⟨fragment, hmem, hreaches, hused⟩)
    · exact .inl (.inr hdirective)
    · exact .inl (.inl hused)
    · rw [← mem_usedVariablesOfAll_iff (hbare fragment hmem)] at hused
      exact .inr ⟨fragment, ⟨hmem, hreaches⟩, hused.symm⟩

/-- The fragments of a filtered document are those that its operations reach. -/
theorem IsFiltered.exists_fragment_iff (h : IsFiltered schema operations fragments)
    (hfragments : ∀ fragment ∈ fragments, BareMeta fragment.selections)
    (hoperations : ∀ operation ∈ operations, BareMeta operation.selections) (name : Name) :
    (∃ fragment ∈ fragments, fragment.name = name) ↔
      ∃ operation ∈ operations, Reaches fragments operation.selections name := by
  have hplaces : ∀ {parent : Name} {selections : List Selection} {name : Name}
      {directives : List Directive},
      SelectsFrom schema (.ofParts operations fragments) parent selections →
        BareMeta selections → Occurs (.spread name directives) selections →
          ∃ fragment ∈ fragments, fragment.name = name := by
    intro parent selections name directives hplace hbare hoccurs
    obtain ⟨parent, around, hplace, hmem⟩ := h.placed hplace hbare hoccurs
    cases h.stays hplace _ hmem with
    | spread found =>
      obtain ⟨hfragment, hname⟩ := Filter.of_get?_byAll found
      exact ⟨_, hfragment, hname⟩
  constructor
  · rintro ⟨fragment, hmem, rfl⟩
    have hreached := hmem
    rw [h.reached] at hreached
    obtain ⟨operation, hoperation, hfragment⟩ :=
      List.mem_flatMap.mp (mem_of_mem_unionFragments hreached)
    exact ⟨operation, hoperation,
      ((h.mem_reached_iff hfragments (hoperations operation hoperation)).mp hfragment).2⟩
  · rintro ⟨operation, hoperation, hreaches⟩
    cases hreaches with
    | spread occurs =>
      obtain ⟨root, hroot, -⟩ := h.rooted operation hoperation
      exact hplaces (.operation (by rw [Document.operations_ofParts]; exact hoperation) hroot)
        (hoperations operation hoperation) occurs
    | @through fragment _ _ mem _ occurs =>
      exact hplaces (.fragment (by rw [Document.fragments_ofParts]; exact mem))
        (hfragments fragment mem) occurs

end Sound

/-- A document with the bare meta field is filtered soundly to a schema that is read from a text. -/
theorem filterToSchema_sound {text : String} {schema : Schema} {document output : Document}
    (hparse : Schema.parse? text = some schema)
    (hbare : ∀ selections ∈ document.selectionSets, BareMeta selections)
    (h : filterToSchema schema document = .ok output) : IsSound schema document output := by
  obtain ⟨kept, hkept, rfl⟩ := filterToSchema_eq_ok_iff.mp h
  have hleft : AreLeft schema document kept := fun _ hentry => exists_of_mem_forall₂ hkept hentry
  have hfiltered := hleft.isFiltered
  have hoperations : ∀ operation ∈ kept.map Prod.fst, BareMeta operation.selections :=
    fun _ hmem => hleft.bareMeta_operation hbare hmem
  have hfragments : ∀ fragment ∈ unionFragments [] (kept.flatMap Prod.snd),
      BareMeta fragment.selections := fun _ hmem => hleft.bareMeta_fragment hbare hmem
  constructor
  case placed =>
    intro selections hmem selection hoccurs
    obtain ⟨parent, hplace⟩ := hfiltered.exists_selectsFrom hmem
    exact hfiltered.placed hplace (hleft.bareMeta_selectionSets hbare hmem) hoccurs
  case declared =>
    exact fun parent selections hplace node hmem hname => hfiltered.declares hplace hmem hname
  case bare => exact fun selections hmem => hleft.bareMeta_selectionSets hbare hmem
  case shaped =>
    exact fun parent selections hplace node hmem type htype => hfiltered.shape hplace hmem htype
  case inlineNonempty =>
    intro parent selections hplace condition directives inner hmem
    cases hfiltered.stays hplace _ hmem with
    | inline _ left _ => exact left
  case fragmentNonempty =>
    rw [Document.fragments_ofParts]
    exact hfiltered.nonempty
  case inlineApplies =>
    intro parent selections hplace condition directives inner hmem
    cases hfiltered.stays hplace _ hmem with
    | inline applies _ _ => exact overlaps_of_applies hparse (applies condition rfl)
  case spreadApplies =>
    intro parent selections hplace name directives hmem
    cases hfiltered.stays hplace _ hmem with
    | spread found applies =>
      obtain ⟨hfragment, hname⟩ := Filter.of_get?_byAll found
      refine ⟨_, ?_, hname, overlaps_of_applies hparse applies⟩
      rw [Document.fragments_ofParts]
      exact hfragment
  case distinct =>
    rw [Document.fragments_ofParts]
    exact hfiltered.distinct
  case reached =>
    rw [Document.fragments_ofParts, Document.operations_ofParts]
    exact hfiltered.exists_fragment_iff hfragments hoperations
  case operations =>
    rw [Document.operations_ofParts, List.forall₂_map_right_iff]
    have hmembers := (List.forall₂_and_left kept _).mpr ⟨fun _ hmem => hmem, hkept.flip⟩
    refine hmembers.flip.imp fun original entry ⟨hentry, hoperation⟩ => ?_
    have hreached := hleft.reached_eq hentry
    have hbareEntry := hoperations entry.1 (List.mem_map.mpr ⟨entry, hentry, rfl⟩)
    obtain ⟨operation, reached⟩ := entry
    obtain ⟨root, -, -, rfl⟩ := Filter.operation_eq_ok_iff.mp hoperation
    refine ⟨_, fun declared => ?_, rfl⟩
    -- The filter of the document has reached what the filter by the kept fragments reaches.
    rw [List.contains_iff_mem, ← hfiltered.mem_variablesOf_iff hfragments hbareEntry, hreached]
    rfl

/-- The definitions of a service of persons, who are looked up as agents. -/
def lookupText : String :=
  "type Query { agent(id: String): Agent } interface Agent { name: String } " ++
    "type Person implements Agent { name: String }"

/-- The schema that they define. -/
def lookupSchema : Schema where
  types := Builtin.introspectionTypes ++ ["String", "Boolean"].map Builtin.scalar ++ [
    Builtin.object "Query" [{ name := "agent", type := .named "Agent",
                              arguments := [{ name := "id", type := .named "String" }] }],
    { name := "Agent", body := .interface [] [Builtin.field "name" (.named "String")] },
    { name := "Person", body := .object ["Agent"] [Builtin.field "name" (.named "String")] }]
  directives := Builtin.directives
  roots := [(.query, "Query")]

/-- A query with undeclared fields and arguments, for which one of its variables is used. -/
def lookupQuery : Document := [
  .operation {
    vars := [{ name := "id", type := .named "String" },
      { name := "upper", type := .named "Boolean" }]
    selections := [.field {
      name := "agent"
      arguments := [{ name := "id", value := .var "id" }]
      selections := [.field { name := "__typename" }, .field { name := "age" },
        .spread "Named" []] }] },
  .fragment {
    name := "Named", condition := "Person"
    selections := [.field {
      name := "name", arguments := [{ name := "upper", value := .var "upper" }] }] }]

/-- The query is filtered soundly. -/
theorem filterToSchema_sound_lookup :
    Schema.parse? lookupText = some lookupSchema ∧
      ∃ output, filterToSchema lookupSchema lookupQuery = .ok output ∧
        IsSound lookupSchema lookupQuery output := by
  have hparse : Schema.parse? lookupText = some lookupSchema := by decide +kernel
  have hbare : ∀ selections ∈ lookupQuery.selectionSets, BareMeta selections := by decide
  exact ⟨hparse, _, rfl, filterToSchema_sound hparse hbare rfl⟩

end Transform

end Gateway
