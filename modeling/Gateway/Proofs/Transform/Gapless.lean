import Gateway.Delegation.Context
import Gateway.Proofs.Language.Places
import Gateway.Proofs.Transform.Preserved
import Gateway.Proofs.Transform.Revised

/-!
# Expansion leaves no gaps

Abstract types are expanded along the view of a subschema, and later the document is filtered along
the schema of the subschema. Where the filter meets a fragment on a type that should have been
expanded, it drops the whole fragment. It meets none in selection sets that both of them reach, from
the operations, through fields that both schemas declare (`gapless_expandAbstract`). Below a field
that the view does not declare, nothing is expanded (`expandAbstract_unseen`).

Every selection set that the view reaches in an expanded document is one that the expander has made
(`Expander.ofDocument_makes`), and such a selection set has no gap (`Expander.Makes.gapless`). For
its spreads it matters that all fragments on expanded types are replaced, and that new fragments
have free names and are on object types (`Replacements.Narrows`); the fragments of the document may
have the same name here.
-/

namespace Gateway

/-- The selection sets that are walked from the operations of a document in two schemas at once,
each with the types that it selects from in the one and in the other. -/
inductive WalkedInBoth (one other : Schema) (document : Document) :
    Name → Name → List Selection → Prop
  /-- An operation selects from its root types, or twice from that of the first schema when the
  second one has none. -/
  | operation {operation : Operation} {root : Name} (mem : operation ∈ document.operations)
    (found : one.root? operation.kind = some root) :
    WalkedInBoth one other document root ((other.root? operation.kind).getD root)
      operation.selections
  /-- Below a field that both schemas declare is selected from its declared types. -/
  | field {parent parent' type type' : Name} {selections : List Selection} {node : Field}
    (within : WalkedInBoth one other document parent parent' selections)
    (mem : .field node ∈ selections)
    (declared : one.fieldTypeName? parent node.name = some type)
    (declared' : other.fieldTypeName? parent' node.name = some type') :
    WalkedInBoth one other document type type' node.selections
  /-- An inline fragment selects from the type of its condition, or else from those around it. -/
  | inline {parent parent' : Name} {selections inner : List Selection} {condition : Option Name}
    {directives : List Directive}
    (within : WalkedInBoth one other document parent parent' selections)
    (mem : .inline condition directives inner ∈ selections) :
    WalkedInBoth one other document (condition.getD parent) (condition.getD parent') inner
  /-- A fragment that is spread selects from the type of its condition. -/
  | spread {parent parent' : Name} {selections : List Selection} {fragment : Fragment}
    {directives : List Directive}
    (within : WalkedInBoth one other document parent parent' selections)
    (mem : .spread fragment.name directives ∈ selections)
    (defined : fragment ∈ document.fragments) :
    WalkedInBoth one other document fragment.condition fragment.condition fragment.selections

/-- What is walked in two schemas is selected from the types of the second one, when this one has
the root types. -/
theorem WalkedInBoth.selectsFrom {one other : Schema} {document : Document} {parent parent' : Name}
    {selections : List Selection} (hrooted : document.Rooted other)
    (h : WalkedInBoth one other document parent parent' selections) :
    SelectsFrom other document parent' selections := by
  induction h with
  | @operation operation root mem _ =>
    obtain ⟨root', hroot'⟩ := Option.isSome_iff_exists.mp (hrooted operation mem)
    rw [hroot']
    exact .operation mem hroot'
  | field _ mem _ declared' ih => exact .field ih mem declared'
  | inline _ mem ih => exact .inline ih mem
  | spread _ _ defined _ => exact .fragment defined

namespace Transform

/-- No inline fragment of a selection set and no fragment that it spreads is on an expanded type. -/
structure Gapless (expansion : Expansion) (fragments : List Fragment)
    (selections : List Selection) : Prop where
  /-- The inline fragments. -/
  inline : ∀ condition directives inner,
    .inline (some condition) directives inner ∈ selections → expansion.get? condition = none
  /-- The fragments that are spread. -/
  spread : ∀ fragment ∈ fragments, ∀ directives, .spread fragment.name directives ∈ selections →
    expansion.get? fragment.condition = none

/-! ## New fragments -/

/-- A type takes the place of an expanded one. -/
def Expansion.Places (expansion : Expansion) (type : Name) : Prop :=
  ∃ condition types, expansion.get? condition = some types ∧ type ∈ types

/-- A type that takes the place of another one is not expanded itself. -/
theorem Expansion.Places.get?_eq_none {source target : Schema} {type : Name}
    (h : (Expansion.between source target).Places type) :
    (Expansion.between source target).get? type = none := by
  obtain ⟨condition, types, htypes, hmem⟩ := h
  obtain ⟨-, -, rfl⟩ := Expansion.get?_between_iff.mp htypes
  have hobject : source.isObject type = true :=
    Schema.isObject_of_mem_possibleTypes (List.mem_filter.mp hmem).1
  refine Option.eq_none_iff_forall_ne_some.mpr fun others hothers => ?_
  have habstract := (Expansion.get?_between_iff.mp hothers).1
  rw [Schema.isObject_eq_false_of_isAbstract habstract] at hobject
  exact Bool.false_ne_true hobject

namespace Replacements

/-- What holds of the new fragments for some fragments, whatever the names of these are. -/
structure Narrows (expansion : Expansion) (existing : List Name) (fragments : List Fragment)
    (replacements : Replacements) : Prop where
  /-- The names that exist are taken. -/
  taken : existing ⊆ replacements.names
  /-- The names of new fragments are others. -/
  fresh : ∀ name copies, replacements.byFragment.get? name = some copies →
    ∀ copy ∈ copies, copy.name ∉ existing
  /-- The new fragments are on types that take the place of expanded ones. -/
  placed : ∀ definition ∈ replacements.definitions, expansion.Places definition.condition
  /-- The fragments on expanded types are replaced. -/
  covers : ∀ fragment ∈ fragments, expansion.get? fragment.condition ≠ none →
    replacements.byFragment.get? fragment.name ≠ none

section Narrows

variable {expansion : Expansion} {existing : List Name} {fragments : List Fragment}
  {replacements : Replacements}

/-- The new fragments that are listed for a name, if any, have names that did not exist. -/
theorem Narrows.fresh_getD (h : Narrows expansion existing fragments replacements) {name : Name}
    {copy : Replacement} (hcopy : copy ∈ (replacements.byFragment.get? name).getD []) :
    copy.name ∉ existing := by
  cases hfound : replacements.byFragment.get? name with
  | none =>
    rw [hfound] at hcopy
    exact absurd hcopy List.not_mem_nil
  | some copies =>
    rw [hfound] at hcopy
    exact h.fresh name copies hfound copy hcopy

/-- It holds with one more new fragment. -/
theorem Narrows.addType (h : Narrows expansion existing fragments replacements)
    (fragment : Fragment) {type : Name} (hplaces : expansion.Places type) :
    Narrows expansion existing fragments (replacements.addType fragment type) where
  taken := List.subset_cons_of_subset _ h.taken
  fresh := by
    have hnew := replacementName_freshNumber_not_mem replacements.names type replacements.next
    intro name copies hcopies copy hcopy
    unfold Replacements.addType Entries.push at hcopies
    rw [Entries.get?_insert] at hcopies
    split_ifs at hcopies with hname
    · cases hcopies
      rcases List.mem_append.mp hcopy with hpresent | hlast
      · exact h.fresh_getD hpresent
      · rw [List.mem_singleton.mp hlast]
        exact fun hmem => hnew (h.taken hmem)
    · exact h.fresh name copies hcopies copy hcopy
  placed := by
    intro definition hdefinition
    rcases List.mem_append.mp hdefinition with hmem | hlast
    · exact h.placed definition hmem
    · rw [List.mem_singleton.mp hlast]
      exact hplaces
  covers := by
    intro other hother hexpanded
    unfold Replacements.addType Entries.push
    rw [Entries.get?_insert]
    split_ifs
    · exact Option.some_ne_none _
    · exact h.covers other hother hexpanded

/-- It holds with new fragments on several types. -/
theorem Narrows.addTypes (h : Narrows expansion existing fragments replacements)
    (fragment : Fragment) {types : List Name} (hplaces : ∀ type ∈ types, expansion.Places type) :
    Narrows expansion existing fragments
      (types.foldl (fun replacements type => replacements.addType fragment type)
        replacements) := by
  induction types generalizing replacements with
  | nil => exact h
  | cons type rest ih =>
    obtain ⟨htype, hrest⟩ := List.forall_mem_cons.mp hplaces
    exact ih (h.addType fragment htype) hrest

/-- It holds with one more fragment that is listed, as yet without more new fragments. -/
theorem Narrows.list (h : Narrows expansion existing fragments replacements)
    (fragment : Fragment) :
    Narrows expansion existing (fragments ++ [fragment])
      { replacements with
        byFragment := replacements.byFragment.insert fragment.name
          ((replacements.byFragment.get? fragment.name).getD []) } := by
  refine { h with fresh := ?_, covers := ?_ }
  · intro name copies hcopies copy hcopy
    rw [Entries.get?_insert] at hcopies
    split_ifs at hcopies with hname
    · cases hcopies
      exact h.fresh_getD hcopy
    · exact h.fresh name copies hcopies copy hcopy
  · intro other hother hexpanded
    rw [Entries.get?_insert]
    split_ifs with hname
    · exact Option.some_ne_none _
    · rcases List.mem_append.mp hother with hmem | hlast
      · exact h.covers other hmem hexpanded
      · exact absurd (congrArg Fragment.name (List.mem_singleton.mp hlast)) hname

/-- It holds with one more fragment that is replaced or not. -/
theorem Narrows.addFragment (h : Narrows expansion existing fragments replacements)
    (fragment : Fragment) :
    Narrows expansion existing (fragments ++ [fragment])
      (replacements.addFragment expansion fragment) := by
  unfold Replacements.addFragment
  cases htypes : expansion.get? fragment.condition with
  | none =>
    refine { h with covers := ?_ }
    rw [List.forall_mem_append, List.forall_mem_singleton]
    exact ⟨h.covers, fun hexpanded => absurd htypes hexpanded⟩
  | some types =>
    exact (h.list fragment).addTypes fragment fun type hmem => ⟨_, types, htypes, hmem⟩

/-- It holds of all new fragments of a document. -/
theorem ofDocument_narrows (expansion : Expansion) (document : Document) :
    Narrows expansion (document.fragments.map Fragment.name) document.fragments
      (ofDocument expansion document) := by
  unfold ofDocument
  suffices h : ∀ fragments : List Fragment,
      Narrows expansion (document.fragments.map Fragment.name) fragments
        (fragments.foldl (addFragment expansion)
          { names := document.fragments.map Fragment.name }) from h _
  intro fragments
  induction fragments using List.reverseRecOn with
  | nil => exact ⟨List.Subset.refl _, by simp [Entries.get?], by simp, by simp⟩
  | append_singleton fragments last ih =>
    rw [List.foldl_append]
    exact ih.addFragment last

end Narrows

end Replacements

/-! ## Expanded selection sets -/

namespace Expander

variable {expander : Expander} {parent type : Name} {selections : List Selection}

/-- What is among expanded selections takes the place of one of them, or is the meta field that is
added. -/
theorem exists_of_mem_selections {selection : Selection}
    (h : selection ∈ expander.selections parent selections) :
    (∃ asked ∈ selections, selection ∈ expander.selection parent asked) ∨
      selection = selectTypename := by
  have hinner : ∀ selections : List Selection, selection ∈ expander.inner parent selections →
      ∃ asked ∈ selections, selection ∈ expander.selection parent asked := by
    intro selections
    induction selections with
    | nil => exact fun hmem => absurd hmem List.not_mem_nil
    | cons first rest ih =>
      intro hmem
      rw [inner_cons, List.mem_append] at hmem
      rcases hmem with hfirst | hrest
      · exact ⟨first, List.mem_cons_self, hfirst⟩
      · obtain ⟨asked, hasked, hmem⟩ := ih hrest
        exact ⟨asked, List.mem_cons_of_mem _ hasked, hmem⟩
  unfold Expander.selections finish at h
  split_ifs at h
  · rcases List.mem_append.mp h with hmem | hlast
    · exact .inl (hinner _ hmem)
    · exact .inr (List.mem_singleton.mp hlast)
  · exact .inl (hinner _ h)

/-- An inline fragment among what takes the place of a selection has expanded selections, and is on
a type that is not expanded or takes the place of another one. -/
theorem of_inline_mem_selection {asked : Selection} {condition : Option Name}
    {directives : List Directive} {inner : List Selection}
    (h : .inline condition directives inner ∈ expander.selection parent asked) :
    (∃ original, inner = expander.selections (condition.getD parent) original) ∧
      ∀ type, condition = some type →
        expander.expansion.get? type = none ∨ expander.expansion.Places type := by
  cases asked with
  | field node =>
    rw [selection_field] at h
    exact absurd (List.mem_singleton.mp h) (by simp)
  | spread fragment directives =>
    rw [selection] at h
    split at h <;> simp at h
  | inline outer directives' original =>
    cases outer with
    | none =>
      rw [selection, List.mem_singleton] at h
      cases h
      exact ⟨⟨original, rfl⟩, fun _ habsurd => absurd habsurd (by simp)⟩
    | some outer =>
      rw [selection] at h
      cases htypes : expander.expansion.get? outer with
      | none =>
        rw [htypes] at h
        cases List.mem_singleton.mp h
        exact ⟨⟨original, rfl⟩, fun type hsome => .inl (Option.some.inj hsome ▸ htypes)⟩
      | some types =>
        rw [htypes] at h
        obtain ⟨type, hmem, hsame⟩ := List.mem_map.mp h
        cases hsame
        refine ⟨⟨original, rfl⟩, fun other hsome => .inr ?_⟩
        obtain rfl := Option.some.inj hsome
        exact ⟨outer, types, htypes, (List.mem_filter.mp hmem).1⟩

/-- A spread among what takes the place of a selection is of a fragment that is not replaced, or of
a new one. -/
theorem of_spread_mem_selection {asked : Selection} {name : Name} {directives : List Directive}
    (h : .spread name directives ∈ expander.selection parent asked) :
    expander.replacements.get? name = none ∨ expander.IsCopy name := by
  cases asked with
  | field node =>
    rw [selection_field] at h
    exact absurd (List.mem_singleton.mp h) (by simp)
  | spread fragment directives' =>
    rw [selection] at h
    cases hcopies : expander.replacements.get? fragment with
    | none =>
      rw [hcopies] at h
      cases List.mem_singleton.mp h
      exact .inl hcopies
    | some copies =>
      rw [hcopies] at h
      obtain ⟨copy, hmem, hsame⟩ := List.mem_map.mp h
      cases hsame
      exact .inr ⟨fragment, copies, hcopies, copy, (List.mem_filter.mp hmem).1, rfl⟩
  | inline outer directives' original =>
    cases outer with
    | none =>
      rw [selection] at h
      exact absurd (List.mem_singleton.mp h) (by simp)
    | some outer =>
      rw [selection] at h
      split at h <;> simp at h

/-- The expander has made the selection set on the type, if anything is selected. -/
def Makes (expander : Expander) (parent : Name) (selections : List Selection) : Prop :=
  selections = [] ∨ ∃ original, selections = expander.selections parent original

/-- What is selected below a field of known type has been made. -/
theorem Makes.field (h : expander.Makes parent selections) {node : Field}
    (hmem : .field node ∈ selections)
    (hdeclared : expander.schema.fieldTypeName? parent node.name = some type) :
    expander.Makes type node.selections := by
  rcases h with rfl | ⟨original, rfl⟩
  · exact absurd hmem List.not_mem_nil
  rcases exists_of_mem_selections hmem with ⟨asked, -, hasked⟩ | hmeta
  · cases asked with
    | field origin =>
      rw [selection_field, List.mem_singleton, Selection.field.injEq] at hasked
      have hname : node.name = origin.name := hasked ▸ (node_fixed origin).2.1
      rw [hname] at hdeclared
      rw [hasked, Expander.node, hdeclared]
      cases hselects : origin.selections with
      | nil => exact .inl hselects
      | cons first rest => exact .inr ⟨first :: rest, rfl⟩
    | spread fragment directives =>
      rw [selection] at hasked
      split at hasked <;> simp at hasked
    | inline condition directives inner =>
      cases condition with
      | none => simp [selection] at hasked
      | some condition =>
        rw [selection] at hasked
        split at hasked <;> simp at hasked
  · cases hmeta
    exact .inl rfl

/-- What is selected in an inline fragment has been made. -/
theorem Makes.inline (h : expander.Makes parent selections) {condition : Option Name}
    {directives : List Directive} {inner : List Selection}
    (hmem : .inline condition directives inner ∈ selections) :
    expander.Makes (condition.getD parent) inner := by
  rcases h with rfl | ⟨original, rfl⟩
  · exact absurd hmem List.not_mem_nil
  rcases exists_of_mem_selections hmem with ⟨asked, -, hasked⟩ | hmeta
  · exact .inr (of_inline_mem_selection hasked).1
  · exact absurd hmeta (by simp [selectTypename])

end Expander

/-! ## Expanded documents -/

section Document

variable {source target : Schema} {document output : Document} {parent : Name}
  {selections : List Selection}

/-- Unless there is nothing to expand, a document is revised along the view. -/
theorem exists_revise_of_expandAbstract (hsome : Expansion.between source target ≠ [])
    (houtput : expandAbstract source target document = .ok output) :
    ∃ document', Document.revise target
      (fun _ => (Expander.ofDocument source target document).selections) none document' =
        .ok output := by
  rcases Expander.expandAbstract_cases houtput with ⟨hnone, -⟩ | ⟨-, hrevise⟩
  · exact absurd hnone hsome
  · exact ⟨_, hrevise⟩

/-- What the view reaches in an expanded document has been made. -/
theorem Expander.ofDocument_makes (hsome : Expansion.between source target ≠ [])
    (houtput : expandAbstract source target document = .ok output)
    (h : SelectsFrom target output parent selections) :
    (Expander.ofDocument source target document).Makes parent selections := by
  induction h with
  | @operation operation root mem found =>
    obtain ⟨document', hrevise⟩ := exists_revise_of_expandAbstract hsome houtput
    rw [Document.operations_revise hrevise] at mem
    obtain ⟨original, -, rfl⟩ := List.mem_map.mp mem
    refine .inr ⟨original.selections, ?_⟩
    dsimp only at found ⊢
    rw [found]
    rfl
  | fragment mem =>
    rw [fragments_expandAbstract houtput] at mem
    obtain ⟨original, -, rfl⟩ := List.mem_map.mp mem
    exact .inr ⟨original.selections, rfl⟩
  | field _ mem declared ih => exact ih.field mem declared
  | inline _ mem ih => exact ih.inline mem

/-- A fragment of an expanded document whose name is not replaced, or is that of a new fragment, is
not on an expanded type. -/
theorem Expander.get?_condition_eq_none
    (houtput : expandAbstract source target document = .ok output) {fragment : Fragment}
    (hmem : fragment ∈ output.fragments)
    (hname : (ofDocument source target document).replacements.get? fragment.name = none ∨
      (ofDocument source target document).IsCopy fragment.name) :
    (Expansion.between source target).get? fragment.condition = none := by
  have hnarrows := Replacements.ofDocument_narrows (Expansion.between source target) document
  rw [fragments_expandAbstract houtput] at hmem
  obtain ⟨original, horiginal, rfl⟩ := List.mem_map.mp hmem
  rcases List.mem_append.mp horiginal with hdefined | hnew
  · by_contra hexpanded
    rcases hname with hkept | ⟨replaced, copies, hcopies, copy, hcopy, hname⟩
    · exact hnarrows.covers original hdefined hexpanded hkept
    · have hexists : copy.name ∈ document.fragments.map Fragment.name :=
        List.mem_map.mpr ⟨original, hdefined, hname.symm⟩
      exact hnarrows.fresh replaced copies hcopies copy hcopy hexists
  · exact (hnarrows.placed original hnew).get?_eq_none

/-- What has been made has no gap. -/
theorem Expander.Makes.gapless (houtput : expandAbstract source target document = .ok output)
    (h : (ofDocument source target document).Makes parent selections) :
    Gapless (Expansion.between source target) output.fragments selections := by
  rcases h with rfl | ⟨original, rfl⟩
  · exact ⟨fun _ _ _ hmem => absurd hmem List.not_mem_nil,
      fun _ _ _ hmem => absurd hmem List.not_mem_nil⟩
  constructor
  · intro condition directives inner hmem
    rcases exists_of_mem_selections hmem with ⟨asked, -, hasked⟩ | hmeta
    · rcases (of_inline_mem_selection hasked).2 condition rfl with hkept | hplaces
      · exact hkept
      · exact hplaces.get?_eq_none
    · exact absurd hmeta (by simp [selectTypename])
  · intro fragment hfragment directives hmem
    rcases exists_of_mem_selections hmem with ⟨asked, -, hasked⟩ | hmeta
    · exact get?_condition_eq_none houtput hfragment (of_spread_mem_selection hasked)
    · exact absurd hmeta (by simp [selectTypename])

end Document

/-- After the abstract types of the gateway are expanded along the view of a subschema, no selection
set that is walked both along the schema of the subschema and along this view has a gap. When there
is no other view than the schema of the subschema, no selection set at all has a gap. -/
theorem gapless_expandAbstract (context : DelegationContext) (gateway : Schema)
    (document output : Document)
    (houtput : expandAbstract gateway context.view document = .ok output) :
    (∀ parent seen selections,
      WalkedInBoth context.target context.view output parent seen selections →
        Gapless (Expansion.between gateway context.view) output.fragments selections) ∧
    (context.view = context.target → ∀ parent selections,
      SelectsFrom context.target output parent selections →
        Gapless (Expansion.between gateway context.view) output.fragments selections) := by
  by_cases hempty : Expansion.between gateway context.view = []
  · -- Nothing is expanded.
    have hgapless : ∀ selections, Gapless (Expansion.between gateway context.view)
        output.fragments selections := by
      intro selections
      rw [hempty]
      exact ⟨fun _ _ _ _ => rfl, fun _ _ _ _ => rfl⟩
    exact ⟨fun _ _ selections _ => hgapless selections, fun _ _ selections _ => hgapless selections⟩
  · obtain ⟨document', hrevise⟩ := exists_revise_of_expandAbstract hempty houtput
    have hrooted : output.Rooted context.view := (Document.rooted_of_revise hrevise).2
    constructor
    · intro parent seen selections h
      exact (Expander.ofDocument_makes hempty houtput (h.selectsFrom hrooted)).gapless houtput
    · intro hsame parent selections h
      rw [← hsame] at h
      exact (Expander.ofDocument_makes hempty houtput h).gapless houtput

/-- A subschema of users that hides its nodes from the gateway. -/
def hidingContext : DelegationContext where
  subschema :=
    { name := "users"
      schema :=
        { types := [
            Builtin.object "Query"
              [Builtin.field "node" (.named "Result"), Builtin.field "user" (.named "User")],
            { name := "Result", body := .union ["User"] },
            Builtin.object "User"
              [Builtin.field "id" (.named "ID"), Builtin.field "name" (.named "String")]]
          directives := []
          roots := [(.query, "Query")] } }
  transformed? := some
    { types := [
        Builtin.object "Query" [Builtin.field "user" (.named "User")],
        Builtin.object "User"
          [Builtin.field "id" (.named "ID"), Builtin.field "name" (.named "String")]]
      directives := []
      roots := [(.query, "Query")] }
  fieldName := "node"
  returnType := .named "Node"

/-- What is selected of a user as a node. -/
def asNode : List Selection := [.inline (some "Node") [] [.field { name := "id" }]]

/-- A query of one root field. -/
def rootQuery (name : Name) (selections : List Selection) : Document :=
  [.operation { selections := [.field { name, selections }] }]

/-- Users as nodes are expanded to users. -/
theorem gapless_asNode :
    ∃ output, expandAbstract nodeSchema hidingContext.view (rootQuery "user" asNode) = .ok output ∧
      ∃ selections, selections.isEmpty = false ∧
        WalkedInBoth hidingContext.target hidingContext.view output "User" "User" selections ∧
        Gapless (Expansion.between nodeSchema hidingContext.view) output.fragments selections := by
  obtain ⟨output, houtput⟩ : ∃ output,
      expandAbstract nodeSchema hidingContext.view (rootQuery "user" asNode) = .ok output :=
    ⟨_, rfl⟩
  have hwalked : ∃ selections, selections.isEmpty = false ∧
      WalkedInBoth hidingContext.target hidingContext.view output "User" "User" selections := by
    cases houtput
    exact ⟨_, rfl, .field (.operation (List.mem_singleton_self _) rfl)
      (List.mem_singleton_self _) rfl rfl⟩
  obtain ⟨selections, hselects, hwalked⟩ := hwalked
  exact ⟨output, houtput, selections, hselects, hwalked,
    (gapless_expandAbstract hidingContext nodeSchema (rootQuery "user" asNode) output houtput).1
      _ _ _ hwalked⟩

/-- Below a field that is hidden from the gateway nodes are not expanded, although they would be
expanded to users, and the filter drops what is selected of them. -/
theorem expandAbstract_unseen :
    (Expansion.between nodeSchema hidingContext.view).get? "Node" = some ["User"] ∧
      expandAbstract nodeSchema hidingContext.view (rootQuery "node" asNode) =
        .ok (rootQuery "node" asNode) ∧
      SelectsFrom hidingContext.target (rootQuery "node" asNode) "Result" asNode ∧
      ¬ Gapless (Expansion.between nodeSchema hidingContext.view) [] asNode ∧
      filterToSchema hidingContext.target (rootQuery "node" asNode) =
        .ok [.operation { selections := [] }] := by
  have hexpanded : (Expansion.between nodeSchema hidingContext.view).get? "Node" =
      some ["User"] := by rfl
  refine ⟨hexpanded, by rfl, ?_, fun hgapless => ?_, by rfl⟩
  · let operation : Operation := { selections := [.field { name := "node", selections := asNode }] }
    have hroot : SelectsFrom hidingContext.target (rootQuery "node" asNode) "Query"
        operation.selections :=
      .operation (List.mem_singleton_self operation) rfl
    exact .field hroot (List.mem_singleton_self _) rfl
  · have hnone := hgapless.inline "Node" [] [.field { name := "id" }] (List.mem_singleton_self _)
    exact absurd (hexpanded.symm.trans hnone) (by simp)

end Transform

end Gateway
