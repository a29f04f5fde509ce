import Gateway.Proofs.Transform.Revised
import Gateway.Stitching.Info
import Gateway.Transform.Requirements
import Mathlib.Data.List.Forall2

/-!
# Required selections

What merging requires is added to a request in two passes: first what the selected fields require of
their objects, then what the types of objects require. Both passes only add, so every selection set
of their output is one of the request or stands inside of an added selection (`Fulfils`). Those of
the request have all that their type and their fields require. Added selections are not walked by
the pass that adds them: what is added for a field gets what types require inside of it, but an
added field brings nothing that it requires itself.
-/

namespace Gateway

/-! ## Additions -/

/-- The union has the selections of both. -/
theorem mem_unionSelections {selections more : List Selection} {selection : Selection} :
    selection ∈ unionSelections selections more ↔ selection ∈ selections ∨ selection ∈ more := by
  unfold unionSelections
  induction more generalizing selections with
  | nil => simp
  | cons first rest ih =>
    rw [List.foldl_cons, ih, List.mem_cons]
    split_ifs with hcontains
    · have hfirst : first ∈ selections := List.contains_iff_mem.mp hcontains
      constructor
      · exact Or.imp_right .inr
      · rintro (h | rfl | h)
        · exact .inl h
        · exact .inl hfirst
        · exact .inr h
    · rw [List.mem_append, List.mem_singleton, or_assoc]

/-- More can be added in two steps. -/
theorem unionSelections_append (own configured more : List Selection) :
    unionSelections own (configured ++ more) =
      unionSelections (unionSelections own configured) more :=
  List.foldl_append

namespace MergeRequirements

/-- What is required on objects of a type. -/
def onType (requirements : MergeRequirements) (type : Name) : List Selection :=
  (requirements.byType.get? type).getD []

/-- What is required next to a field of a type. -/
def onField (requirements : MergeRequirements) (type field : Name) : List Selection :=
  (requirements.byField.find? type field).getD []

/-- What the fields that are directly selected in a selection set require. -/
def onFields (requirements : MergeRequirements) (set : SelectionsOn) : List Selection :=
  (directFields set.selections).flatMap fun node => requirements.onField set.type node.name

variable {requirements : MergeRequirements} {selection : Selection}

/-- A selected field brings what it requires. -/
theorem mem_onFields {set : SelectionsOn} :
    selection ∈ requirements.onFields set ↔
      ∃ node, .field node ∈ set.selections ∧
        selection ∈ requirements.onField set.type node.name := by
  unfold onFields
  simp only [List.mem_flatMap, mem_directFields]

/-- Nothing is required on types when no selections are required. -/
theorem onType_eq_nil (h : requirements.hasSelections = false) (type : Name) :
    requirements.onType type = [] := by
  unfold hasSelections at h
  simp only [Bool.or_eq_false_iff, Bool.not_eq_false', List.isEmpty_iff] at h
  unfold onType
  rw [h.1]
  rfl

/-- Nothing is required next to fields when no selections are required. -/
theorem onField_eq_nil (h : requirements.hasSelections = false) (type field : Name) :
    requirements.onField type field = [] := by
  unfold hasSelections at h
  simp only [Bool.or_eq_false_iff, Bool.not_eq_false', List.isEmpty_iff] at h
  unfold onField
  rw [h.2]
  rfl

/-- Selected fields bring nothing when no selections are required. -/
theorem onFields_eq_nil (h : requirements.hasSelections = false) (set : SelectionsOn) :
    requirements.onFields set = [] := by
  unfold onFields
  exact List.flatMap_eq_nil_iff.mpr fun node _ => onField_eq_nil h set.type node.name

end MergeRequirements

namespace Transform

variable {requirements : MergeRequirements} {type : Name} {selections : List Selection}
  {selection : Selection}

/-- What the type requires is united with the selections. -/
theorem withTypeRequirements_eq :
    withTypeRequirements requirements type selections =
      unionSelections selections (requirements.onType type) := by
  unfold withTypeRequirements MergeRequirements.onType
  cases requirements.byType.get? type <;> rfl

/-- What the selected fields require is united with the selections. -/
theorem withFieldRequirements_eq :
    withFieldRequirements requirements type selections =
      unionSelections selections (requirements.onFields ⟨type, selections⟩) := by
  unfold withFieldRequirements MergeRequirements.onFields
  -- The fields are those of the selections at first, to which more are added on the way.
  generalize directFields selections = fields
  induction fields generalizing selections with
  | nil => rfl
  | cons first rest ih =>
    rw [List.foldl_cons, ih, List.flatMap_cons, unionSelections_append]
    unfold MergeRequirements.onField
    cases requirements.byField.find? type first.name <;> rfl

/-- What a type requires is added to the selections. -/
theorem mem_withTypeRequirements :
    selection ∈ withTypeRequirements requirements type selections ↔
      selection ∈ selections ∨ selection ∈ requirements.onType type := by
  rw [withTypeRequirements_eq]
  exact mem_unionSelections

/-- What the selected fields require is added to the selections. -/
theorem mem_withFieldRequirements :
    selection ∈ withFieldRequirements requirements type selections ↔
      selection ∈ selections ∨ selection ∈ requirements.onFields ⟨type, selections⟩ := by
  rw [withFieldRequirements_eq]
  exact mem_unionSelections

end Transform

/-! ## The passes -/

namespace Transform

namespace GatewayTypes

variable {types : GatewayTypes} {requirements : MergeRequirements} {root? : Option Name}

/-- The pass that adds what fields require. -/
def fieldPass (types : GatewayTypes) (requirements : MergeRequirements) (root? : Option Name) :
    Revision :=
  ⟨types.fieldType? root?, withFieldRequirements requirements⟩

/-- The pass that adds what types require. -/
def typePass (types : GatewayTypes) (requirements : MergeRequirements) (root? : Option Name) :
    Revision :=
  ⟨types.fieldType? root?, withTypeRequirements requirements⟩

/-- The first pass adds what the selected fields require. -/
theorem adds_fieldPass (types : GatewayTypes) (requirements : MergeRequirements)
    (root? : Option Name) :
    (types.fieldPass requirements root?).Adds requirements.onFields := by
  intro set selection
  refine mem_withFieldRequirements.trans (or_congr ?_ ?_)
  · rw [Revision.inner_eq_map, List.mem_map]
    simp only [eq_comm]
  · rw [MergeRequirements.mem_onFields, MergeRequirements.mem_onFields]
    constructor
    · rintro ⟨node, hnode, hrequired⟩
      rw [Revision.inner_eq_map] at hnode
      obtain ⟨asked, hmem, heq⟩ := List.mem_map.mp hnode
      obtain ⟨original, rfl, hname, -⟩ := Revision.exists_field_of_selection heq
      exact ⟨original, hmem, hname ▸ hrequired⟩
    · rintro ⟨node, hnode, hrequired⟩
      obtain ⟨selections, heq⟩ := (types.fieldPass requirements root?).exists_selection_field
        set.type node
      refine ⟨{ node with selections }, ?_, hrequired⟩
      rw [Revision.inner_eq_map, ← heq]
      exact List.mem_map_of_mem hnode

/-- The second pass adds what the types require. -/
theorem adds_typePass (types : GatewayTypes) (requirements : MergeRequirements)
    (root? : Option Name) :
    (types.typePass requirements root?).Adds fun set => requirements.onType set.type := by
  intro set selection
  refine mem_withTypeRequirements.trans (or_congr_left ?_)
  rw [Revision.inner_eq_map, List.mem_map]
  simp only [eq_comm]

end GatewayTypes

/-- Adds what the selected fields require, and then what types require. -/
def addRequirements (types : GatewayTypes) (requirements : MergeRequirements)
    (document : Document) : Except DelegationError Document := do
  addTypeRequirements types requirements (← addFieldRequirements types requirements document)

section AddRequirements

variable {types : GatewayTypes} {requirements : MergeRequirements} {document output : Document}

/-- Without required selections nothing is added. -/
theorem addRequirements_eq_self (h : requirements.hasSelections = false) (types : GatewayTypes)
    (document : Document) : addRequirements types requirements document = .ok document := by
  unfold addRequirements addTypeRequirements addFieldRequirements
  rw [h]
  rfl

/-- Requirements can be added when all root types are declared. -/
theorem exists_addRequirements_eq_ok (h : document.Rooted types.schema)
    (requirements : MergeRequirements) :
    ∃ output, addRequirements types requirements document = .ok output := by
  cases hsome : requirements.hasSelections with
  | false => exact ⟨document, addRequirements_eq_self hsome types document⟩
  | true =>
    obtain ⟨passed, hpassed⟩ := Document.exists_revise_eq_ok
      (fun root? => (types.fieldPass requirements root?).selections) h none
    obtain ⟨output, houtput⟩ := Document.exists_revise_eq_ok
      (fun root? => (types.typePass requirements root?).selections)
      (Document.rooted_of_revise hpassed).2 none
    refine ⟨output, except_bind_eq_ok_iff.mpr ⟨passed, ?_, ?_⟩⟩
    · exact (if_pos hsome).trans hpassed
    · exact (if_pos hsome).trans houtput

/-- Every selection set of a definition goes through both passes. -/
theorem rootSets_addRequirements (hsome : requirements.hasSelections = true)
    (h : addRequirements types requirements document = .ok output) :
    output.rootSets types.schema none = (document.rootSets types.schema none).map fun entry =>
      (entry.1, (types.typePass requirements entry.1).on
        ((types.fieldPass requirements entry.1).on entry.2)) := by
  obtain ⟨passed, hpassed, houtput⟩ := except_bind_eq_ok_iff.mp h
  have hfields := Document.rootSets_revise ((if_pos hsome).symm.trans hpassed)
  have htypes := Document.rootSets_revise ((if_pos hsome).symm.trans houtput)
  rw [htypes, hfields, List.map_map]
  rfl

end AddRequirements

/-! ## What is fulfilled -/

/-- Where a selection set of the output comes from, and what it has for that. -/
inductive Fulfils (types : GatewayTypes) (requirements : MergeRequirements) (root? : Option Name)
    (asked given : SelectionsOn) : Prop
  /-- It is one of the request: it has all that its type requires and, with what types require
  inside, all that the fields require that the request selects in it. -/
  | requested {origin : SelectionsOn} (held : asked.Holds (types.fieldType? root?) origin)
    (type : given.type = origin.type) (kept : Covers origin.selections given.selections)
    (byType : requirements.onType given.type ⊆ given.selections)
    (byField : Covers (requirements.onFields origin) given.selections)
  /-- It stands inside of what a field of the request requires: it has all that its type
  requires. -/
  | forField {origin before : SelectionsOn} {selection : Selection}
    (held : asked.Holds (types.fieldType? root?) origin)
    (required : selection ∈ requirements.onFields origin)
    (inside : selection.HoldsInside (types.fieldType? root?) origin.type before)
    (type : given.type = before.type) (kept : Covers before.selections given.selections)
    (byType : requirements.onType given.type ⊆ given.selections)
  /-- It stands inside of what a type requires. -/
  | forType {parent : Name} {selection : Selection}
    (required : selection ∈ requirements.onType parent)
    (inside : selection.HoldsInside (types.fieldType? root?) parent given)

section Fulfils

variable {types : GatewayTypes} {requirements : MergeRequirements} {root? : Option Name}

/-- Both passes fulfil what merging requires. -/
theorem fulfils_passes {asked given : SelectionsOn}
    (h : ((types.typePass requirements root?).on
      ((types.fieldPass requirements root?).on asked)).Holds (types.fieldType? root?) given) :
    Fulfils types requirements root? asked given := by
  have hfields := types.adds_fieldPass requirements root?
  have htypes := types.adds_typePass requirements root?
  -- Back through the second pass and then through the first, until a pass has added the set itself.
  rcases htypes.holds_cases h with ⟨passed, hpassed, rfl⟩ | ⟨_, selection, -, hrequired, hinside⟩
  · rcases hfields.holds_cases hpassed with
      ⟨origin, horigin, rfl⟩ | ⟨origin, selection, horigin, hrequired, hinside⟩
    · have hcovers := htypes.covers ((types.fieldPass requirements root?).on origin)
      exact .requested horigin rfl ((hfields.covers origin).trans hcovers)
        (htypes.subset ((types.fieldPass requirements root?).on origin))
        ((Covers.of_subset (hfields.subset origin)).trans hcovers)
    · exact .forField horigin hrequired hinside rfl (htypes.covers passed) (htypes.subset passed)
  · exact .forType hrequired hinside

/-- Where no selections are required, all that is required is there. -/
theorem fulfils_of_hasSelections_eq_false (hnone : requirements.hasSelections = false)
    {asked given : SelectionsOn} (h : asked.Holds (types.fieldType? root?) given) :
    Fulfils types requirements root? asked given := by
  refine .requested h rfl (.of_subset (List.Subset.refl _)) ?_ (.of_subset ?_)
  · rw [MergeRequirements.onType_eq_nil hnone]
    exact List.nil_subset _
  · rw [MergeRequirements.onFields_eq_nil hnone]
    exact List.nil_subset _

end Fulfils

/-- What merging requires can be added to every document with declared root types. Definition by
definition, each selection set of the output along known types fulfils what merging requires of it:
a selection set of the request has all selections for its type and all those for the fields that the
request selects in it, and what stands inside of selections for a field has all selections for its
type. -/
theorem addRequirements_fulfils (types : GatewayTypes) (requirements : MergeRequirements)
    (document : Document) :
    (document.Rooted types.schema →
      ∃ output, addRequirements types requirements document = .ok output) ∧
    ∀ output, addRequirements types requirements document = .ok output →
      List.Forall₂ (fun asked given => given.1 = asked.1 ∧ given.2.type = asked.2.type ∧
          ∀ set, given.2.Holds (types.fieldType? given.1) set →
            Fulfils types requirements given.1 asked.2 set)
        (document.rootSets types.schema none) (output.rootSets types.schema none) := by
  refine ⟨fun hrooted => exists_addRequirements_eq_ok hrooted requirements, fun output h => ?_⟩
  cases hsome : requirements.hasSelections with
  | false =>
    rw [addRequirements_eq_self hsome] at h
    cases h
    exact List.forall₂_same.mpr fun entry _ =>
      ⟨rfl, rfl, fun set hset => fulfils_of_hasSelections_eq_false hsome hset⟩
  | true =>
    rw [rootSets_addRequirements hsome h, List.forall₂_map_right_iff, List.forall₂_same]
    exact fun entry _ => ⟨rfl, rfl, fun set hset => fulfils_passes hset⟩

/-- A schema of users that have some fields, one of whom is queried. -/
def parcelSchema (root : Name) (fields : List Name) : Schema where
  types := [Builtin.scalar "Int", Builtin.object "Query" [Builtin.field root (.named "User")],
    Builtin.object "User" (fields.map fun field => Builtin.field field (.named "Int"))]
  directives := []
  roots := [(.query, "Query")]

/-- Shipping needs the weight, and the weight needs the size. -/
def parcelServices : List (Service Unit) := [
  { subschema := { name := "accounts", schema := parcelSchema "me" ["age"] } },
  { subschema := {
      name := "products"
      schema := parcelSchema "_user" ["weight", "shipping", "size"] }
    merging := [("User", {
      fieldName? := some "_user"
      fields := [("shipping", { selectionSet? := some "\x7b weight \x7d" }),
        ("weight", { selectionSet? := some "\x7b size \x7d" })] })] }]

/-- What is derived from these services. -/
def parcelStitching : Stitching Unit :=
  (Stitching.ofServices parcelServices).toOption.getD {}

/-- These services can be stitched. -/
theorem ofServices_parcelServices : Stitching.ofServices parcelServices = .ok parcelStitching := by
  have hsome : (Stitching.ofServices parcelServices).toOption.isSome = true := by decide +kernel
  obtain ⟨stitching, hstitching⟩ := Option.isSome_iff_exists.mp hsome
  refine except_eq_ok_of_toOption ?_
  unfold parcelStitching
  rw [hstitching, Option.getD_some]

/-- The types of their gateway. -/
def parcelTypes : GatewayTypes where
  schema := parcelSchema "me" ["age", "weight", "shipping", "size"]
  returnType := "User"

/-- A query for fields of a user. -/
def parcelQuery (fields : List Field) : Document := [.operation {
  selections := [.field { name := "me", selections := fields.map .field }] }]

/-- A query for shipping and the weight gets the size besides, so the selections of the user fulfil
what is required of them. -/
theorem addRequirements_fulfils_parcelQuery :
    (parcelQuery [{ name := "shipping" }, { name := "weight" }]).Rooted parcelTypes.schema ∧
      addRequirements parcelTypes parcelStitching.requirements
          (parcelQuery [{ name := "shipping" }, { name := "weight" }]) =
        .ok (parcelQuery [{ name := "shipping" }, { name := "weight" }, { name := "size" }]) ∧
      Fulfils parcelTypes parcelStitching.requirements (some "Query")
        ⟨"Query", [.field { name := "me", selections := [
          .field { name := "shipping" }, .field { name := "weight" }] }]⟩
        ⟨"User", [.field { name := "shipping" }, .field { name := "weight" },
          .field { name := "size" }]⟩ := by
  have hrooted : (parcelQuery [{ name := "shipping" }, { name := "weight" }]).Rooted
      parcelTypes.schema := by
    intro operation hmem
    obtain rfl := List.mem_singleton.mp hmem
    rfl
  have hadded : (addRequirements parcelTypes parcelStitching.requirements
      (parcelQuery [{ name := "shipping" }, { name := "weight" }])).toOption =
      some (parcelQuery [{ name := "shipping" }, { name := "weight" }, { name := "size" }]) := by
    decide +kernel
  obtain ⟨hexists, hfulfils⟩ := addRequirements_fulfils parcelTypes parcelStitching.requirements
    (parcelQuery [{ name := "shipping" }, { name := "weight" }])
  obtain ⟨output, houtput⟩ := hexists hrooted
  rw [houtput] at hadded
  obtain rfl := Option.some.inj hadded
  obtain ⟨⟨-, -, hall⟩, -⟩ := List.forall₂_cons.mp (hfulfils _ houtput)
  exact ⟨hrooted, houtput,
    hall _ (.inside .self List.mem_cons_self (.field (by decide +kernel) (by simp)))⟩

/-- A selection set and those that stand in it have all that their types and their fields
require. -/
def Closed (types : GatewayTypes) (requirements : MergeRequirements) (root? : Option Name)
    (set : SelectionsOn) : Prop :=
  ∀ inner, set.Holds (types.fieldType? root?) inner →
    Covers (requirements.onType inner.type) inner.selections ∧
      Covers (requirements.onFields inner) inner.selections

/-- Shipping brings the weight, but the weight that is added does not bring the size. -/
theorem not_closed_parcelQuery :
    Stitching.ofServices parcelServices = .ok parcelStitching ∧
      addRequirements parcelTypes parcelStitching.requirements
          (parcelQuery [{ name := "shipping" }]) =
        .ok (parcelQuery [{ name := "shipping" }, { name := "weight" }]) ∧
      ∃ entry ∈ (parcelQuery [{ name := "shipping" }, { name := "weight" }]).rootSets
          parcelTypes.schema none,
        ¬ Closed parcelTypes parcelStitching.requirements entry.1 entry.2 := by
  have hadded : (addRequirements parcelTypes parcelStitching.requirements
      (parcelQuery [{ name := "shipping" }])).toOption =
      some (parcelQuery [{ name := "shipping" }, { name := "weight" }]) := by
    decide +kernel
  have hrequired : Selection.field { name := "size" } ∈
      parcelStitching.requirements.onField "User" "weight" := by decide +kernel
  refine ⟨ofServices_parcelServices, except_eq_ok_of_toOption hadded, _, List.mem_cons_self,
    fun hclosed => ?_⟩
  have hheld := hclosed ⟨"User", [.field { name := "shipping" }, .field { name := "weight" }]⟩
    (.inside .self List.mem_cons_self (.field (by decide +kernel) (by simp)))
  obtain ⟨other, hother, hextends⟩ := hheld.2 (.field { name := "size" })
    (MergeRequirements.mem_onFields.mpr
      ⟨{ name := "weight" }, List.mem_cons_of_mem _ List.mem_cons_self, hrequired⟩)
  obtain ⟨selections, rfl⟩ := hextends.exists_field
  simp at hother

end Transform

end Gateway
