import Gateway.Operation.Collect
import Gateway.Proofs.Transform.Stable

/-!
# The meta field on abstract types

Selecting the meta field on abstract types is a revision that only adds (`adds_addingTypename`), and
what it adds opens no selection set. So the selection sets of the output are those of the request,
and each one on an abstract type selects the meta field under its own name.

It need not do so for all values of the variables. A meta field that the request selects counts as
one even when its directives leave it out, and then none is added: the selection is sure exactly
where it was or where the request has none at all (`selectsTypenameSurely_on_iff`).
-/

namespace Gateway

/-- The meta field is selected under its own name for all values of the variables. -/
def SelectsTypenameSurely (selections : List Selection) : Prop :=
  ∃ node : Field, .field node ∈ selections ∧ node.name = typenameField ∧
    node.responseKey = typenameField ∧ ∀ vars, isIncluded node.directives vars = true

/-- The check for the meta field finds one without alias. -/
theorem selectsTypename_iff {selections : List Selection} :
    selectsTypename selections = true ↔
      ∃ node : Field, .field node ∈ selections ∧ node.name = typenameField ∧
        node.alias? = none := by
  unfold selectsTypename
  simp [List.any_eq_true, mem_directFields]

/-- The meta field that is added is selected for all values of the variables. -/
theorem SelectsTypenameSurely.of_mem {selections : List Selection}
    (h : selectTypename ∈ selections) : SelectsTypenameSurely selections :=
  ⟨{ name := typenameField }, h, rfl, rfl, fun _ => rfl⟩

namespace Transform

variable {schema : Schema}

/-- The meta field, where it is added to a selection set. -/
def addedTypename (schema : Schema) (set : SelectionsOn) : List Selection :=
  if schema.isAbstract set.type && !selectsTypename set.selections then [selectTypename] else []

/-- Revised selections have the meta fields of the selections. -/
theorem mem_inner_addingTypename {parent : Name} {selections : List Selection} {node : Field}
    (hname : node.name = typenameField) :
    .field node ∈ (addingTypename schema).inner parent selections ↔ .field node ∈ selections := by
  have hunknown : ∀ other : Field, other.name = typenameField →
      (addingTypename schema).selection parent (.field other) = .field other :=
    fun other hother => Revision.selection_unknown (if_pos hother)
  rw [Revision.inner_eq_map, List.mem_map]
  constructor
  · rintro ⟨asked, hmem, hrevised⟩
    obtain ⟨original, rfl, hsame, -⟩ := Revision.exists_field_of_selection hrevised
    rw [hunknown original (hsame.trans hname)] at hrevised
    rw [← hrevised]
    exact hmem
  · exact fun hmem => ⟨_, hmem, hunknown node hname⟩

/-- Revised selections select the meta field when the selections do. -/
theorem selectsTypename_inner (parent : Name) (selections : List Selection) :
    selectsTypename ((addingTypename schema).inner parent selections) =
      selectsTypename selections := by
  rw [Bool.eq_iff_iff, selectsTypename_iff, selectsTypename_iff]
  refine exists_congr fun node => and_congr_left fun hmeta => ?_
  exact mem_inner_addingTypename hmeta.1

/-- The revision adds the meta field and nothing else. -/
theorem adds_addingTypename (schema : Schema) :
    (addingTypename schema).Adds (addedTypename schema) := by
  intro set selection
  change selection ∈ withTypename schema set.type _ ↔ _
  unfold withTypename addedTypename
  rw [selectsTypename_inner]
  have hmap : selection ∈ (addingTypename schema).inner set.type set.selections ↔
      ∃ asked ∈ set.selections,
        selection = (addingTypename schema).selection set.type asked := by
    rw [Revision.inner_eq_map, List.mem_map]
    simp only [eq_comm]
  split
  · rw [List.mem_append, hmap]
  · rw [hmap]
    simp

/-- The meta field that is added opens no selection set. -/
theorem not_holdsInside_addedTypename {set inner : SelectionsOn} {parent : Name}
    {selection : Selection} (h : selection ∈ addedTypename schema set) :
    ¬ selection.HoldsInside schema.fieldTypeName? parent inner := by
  unfold addedTypename at h
  split at h
  · rw [List.mem_singleton.mp h]
    rintro ⟨first, hopens, -⟩
    cases hopens with
    | field _ selects => exact selects rfl
  · exact absurd h List.not_mem_nil

/-- The selection sets of a revised set are the revised selection sets of the set. -/
theorem exists_origin_of_holds {outer inner : SelectionsOn}
    (h : ((addingTypename schema).on outer).Holds schema.fieldTypeName? inner) :
    ∃ origin, outer.Holds schema.fieldTypeName? origin ∧
      inner = (addingTypename schema).on origin := by
  rcases (adds_addingTypename schema).holds_cases h with horigin | ⟨_, _, -, hadded, hinside⟩
  · exact horigin
  · exact absurd hinside (not_holdsInside_addedTypename hadded)

section Abstract

variable {set : SelectionsOn} (habstract : schema.isAbstract set.type = true)

include habstract

/-- On an abstract type the meta field is selected. -/
theorem selectsTypename_on :
    selectsTypename ((addingTypename schema).on set).selections = true := by
  change selectsTypename (withTypename schema set.type _) = true
  unfold withTypename
  rw [selectsTypename_inner, habstract]
  cases hselects : selectsTypename set.selections with
  | true => exact (selectsTypename_inner _ _).trans hselects
  | false =>
    rw [selectsTypename_iff]
    exact ⟨{ name := typenameField }, List.mem_append_right _ List.mem_cons_self, rfl, rfl⟩

/-- On an abstract type it is selected for all values of the variables exactly when it was before or
when it was not selected at all. -/
theorem selectsTypenameSurely_on_iff :
    SelectsTypenameSurely ((addingTypename schema).on set).selections ↔
      selectsTypename set.selections = false ∨ SelectsTypenameSurely set.selections := by
  have hmem := adds_addingTypename schema set
  constructor
  · rintro ⟨node, hnode, hname, hrest⟩
    cases hselects : selectsTypename set.selections with
    | false => exact .inl rfl
    | true =>
      -- Nothing is added, so the meta field is one of the request.
      refine .inr ⟨node, ?_, hname, hrest⟩
      change .field node ∈ withTypename schema set.type _ at hnode
      unfold withTypename at hnode
      rw [selectsTypename_inner, hselects, Bool.not_true, Bool.and_false] at hnode
      exact (mem_inner_addingTypename hname).mp hnode
  · rintro (hnone | ⟨node, hnode, hname, hrest⟩)
    · refine .of_mem ((hmem _).mpr (.inr ?_))
      unfold addedTypename
      rw [habstract, hnone]
      exact List.mem_cons_self
    · refine ⟨node, (hmem _).mpr (.inl ⟨.field node, hnode, ?_⟩), hname, hrest⟩
      exact (Revision.selection_unknown (if_pos hname)).symm

end Abstract

/-- The meta field can be selected on the abstract types of every document with declared root types.
Definition by definition, the selection sets of the output are those of the request, and each one on
an abstract type selects the meta field without alias. It does so for all values of the variables
unless the request selects the meta field there already, but not for all of them. -/
theorem addTypename_selects (schema : Schema) (document : Document) :
    (document.Rooted schema → ∃ output, addTypename schema document = .ok output) ∧
    ∀ output, addTypename schema document = .ok output →
      List.Forall₂ (fun asked given => given.1 = asked.1 ∧ given.2.type = asked.2.type ∧
          ∀ set, given.2.Holds schema.fieldTypeName? set →
            ∃ origin, asked.2.Holds schema.fieldTypeName? origin ∧ set.type = origin.type ∧
              (schema.isAbstract set.type = true →
                selectsTypename set.selections = true ∧
                  (SelectsTypenameSurely set.selections ↔
                    selectsTypename origin.selections = false ∨
                      SelectsTypenameSurely origin.selections)))
        (document.rootSets schema none) (output.rootSets schema none) := by
  refine ⟨fun hrooted => Document.exists_revise_eq_ok _ hrooted none, fun output h => ?_⟩
  rw [Document.rootSets_revise h, List.forall₂_map_right_iff, List.forall₂_same]
  refine fun entry _ => ⟨rfl, rfl, fun set hset => ?_⟩
  obtain ⟨origin, horigin, rfl⟩ := exists_origin_of_holds hset
  exact ⟨origin, horigin, rfl, fun habstract =>
    ⟨selectsTypename_on habstract, selectsTypenameSurely_on_iff habstract⟩⟩

/-- The name of an agent and, unless it is hidden, the concrete type. -/
def hiddenSelections : List Selection := [
  .field {
    name := typenameField
    directives := [{ name := "skip", arguments := [{ name := "if", value := .var "hide" }] }] },
  .field { name := "name" }]

/-- A query that may leave out the meta field. -/
def hiddenQuery : Document := [.operation {
  vars := [{ name := "hide", type := .nonNullNamed "Boolean" }]
  selections := [.field { name := "agent", selections := hiddenSelections }] }]

/-- The concrete type of an agent is not selected when it is hidden. -/
theorem not_selectsTypenameSurely_hiddenSelections : ¬ SelectsTypenameSurely hiddenSelections := by
  rintro ⟨node, hmem, hname, -, hincluded⟩
  rcases List.mem_cons.mp hmem with hfirst | hmem
  · cases hfirst
    exact absurd (hincluded [("hide", .bool true)]) (by decide)
  · cases List.mem_singleton.mp hmem
    exact absurd hname (by decide)

/-- Nothing is added to the query, so the concrete type of an agent need not be known. -/
theorem addTypename_selects_hiddenQuery :
    addTypename agentSchema hiddenQuery = .ok hiddenQuery ∧
      ∃ entry ∈ hiddenQuery.rootSets agentSchema none, ∃ set,
        entry.2.Holds agentSchema.fieldTypeName? set ∧ agentSchema.isAbstract set.type = true ∧
          selectsTypename set.selections = true ∧ ¬ SelectsTypenameSurely set.selections := by
  have hsame : addTypename agentSchema hiddenQuery = .ok hiddenQuery := by rfl
  have hheld : SelectionsOn.Holds agentSchema.fieldTypeName?
      ⟨"Query", [.field { name := "agent", selections := hiddenSelections }]⟩
      ⟨"Agent", hiddenSelections⟩ :=
    .inside .self List.mem_cons_self (.field (by decide +kernel) (List.cons_ne_nil _ _))
  have habstract : agentSchema.isAbstract "Agent" = true := by decide +kernel
  obtain ⟨-, -, hsets⟩ :=
    (List.forall₂_cons.mp ((addTypename_selects agentSchema hiddenQuery).2 hiddenQuery hsame)).1
  obtain ⟨_, -, -, hselects⟩ := hsets _ hheld
  exact ⟨hsame, _, List.mem_cons_self, _, hheld, habstract, (hselects habstract).1,
    not_selectsTypenameSurely_hiddenSelections⟩

end Transform

end Gateway
