import Gateway.Proofs.Except
import Gateway.Proofs.Language.Nesting
import Gateway.Request.Revise

/-!
# Revised documents

A revision changes selection sets along known types, from the inside outwards. `SelectionsOn.Holds`
says which selection sets stand in one along known types.

Some revisions do nothing but add selections (`Revision.Adds`). What they leave holds the revised
selection sets of what was there, and what the added selections hold as it is
(`Revision.Adds.holds_cases`). Nothing that was selected is lost
(`Revision.Adds.extends_selection`).

A document is revised definition by definition (`Document.Revises`); what holds of a revised document
goes by these rules.
-/

namespace Gateway

/-! ## Revised selections -/

namespace Revision

variable {revision : Revision} {parent : Name}

/-- Each of the selections is revised. -/
theorem inner_eq_map (revision : Revision) (parent : Name) (selections : List Selection) :
    revision.inner parent selections = selections.map (revision.selection parent) := by
  induction selections with
  | nil => rw [inner, List.map_nil]
  | cons first rest ih => rw [inner, ih, List.map_cons]

/-- A field whose type is not known is kept. -/
theorem selection_unknown {node : Field} (h : revision.fieldType? parent node.name = none) :
    revision.selection parent (.field node) = .field node := by
  obtain ⟨alias?, name, arguments, directives, selections⟩ := node
  dsimp only at h
  unfold selection
  rw [h]

/-- A field without selections is kept. -/
theorem selection_empty {node : Field} (h : node.selections = []) :
    revision.selection parent (.field node) = .field node := by
  obtain ⟨alias?, name, arguments, directives, selections⟩ := node
  dsimp only at h
  unfold selection
  rw [h]
  cases revision.fieldType? parent name <;> rfl

/-- The selections under a field of known type are revised. -/
theorem selection_known {node : Field} {type : Name}
    (h : revision.fieldType? parent node.name = some type) (hleft : node.selections ≠ []) :
    revision.selection parent (.field node) =
      .field { node with selections := revision.selections type node.selections } := by
  obtain ⟨alias?, name, arguments, directives, selections⟩ := node
  dsimp only at h hleft
  unfold selection
  rw [h]
  cases selections with
  | nil => exact absurd rfl hleft
  | cons first rest => rfl

/-- A spread is kept. -/
theorem selection_spread (fragment : Name) (directives : List Directive) :
    revision.selection parent (.spread fragment directives) = .spread fragment directives := by
  rw [selection]

/-- The selections in an inline fragment are revised on its type. -/
theorem selection_inline (condition : Option Name) (directives : List Directive)
    (selections : List Selection) :
    revision.selection parent (.inline condition directives selections) =
      .inline condition directives
        (revision.selections (condition.getD parent) selections) := by
  rw [selection]
  rfl

/-- A field is revised to the field, with other selections. -/
theorem exists_selection_field (revision : Revision) (parent : Name) (node : Field) :
    ∃ selections, revision.selection parent (.field node) = .field { node with selections } := by
  by_cases hselects : node.selections = []
  · exact ⟨node.selections, selection_empty hselects⟩
  · cases hknown : revision.fieldType? parent node.name with
    | none => exact ⟨node.selections, selection_unknown hknown⟩
    | some type => exact ⟨_, selection_known hknown hselects⟩

/-- Only fields are revised to fields, of the same name and under the same response key. -/
theorem exists_field_of_selection {asked : Selection} {node : Field}
    (h : revision.selection parent asked = .field node) :
    ∃ original : Field, asked = .field original ∧ original.name = node.name ∧
      original.responseKey = node.responseKey := by
  cases asked with
  | field original =>
    obtain ⟨selections, heq⟩ := revision.exists_selection_field parent original
    cases heq.symm.trans h
    exact ⟨original, rfl, rfl, rfl⟩
  | spread fragment directives => cases (selection_spread fragment directives).symm.trans h
  | inline condition directives selections =>
    cases (selection_inline condition directives selections).symm.trans h

end Revision

/-! ## Selection sets along known types -/

/-- A selection set and the type that it selects from. -/
structure SelectionsOn where
  /-- The type. -/
  type : Name
  /-- The selections. -/
  selections : List Selection

/-- A selection opens a selection set: a field of known type that has one, or an inline fragment. -/
inductive Selection.Opens (fieldType? : Name → Name → Option Name) (parent : Name) :
    Selection → SelectionsOn → Prop
  /-- A field of known type with selections. -/
  | field {node : Field} {type : Name} (known : fieldType? parent node.name = some type)
    (selects : node.selections ≠ []) :
    Opens fieldType? parent (.field node) ⟨type, node.selections⟩
  /-- An inline fragment, on the type of its condition or else on the same type. -/
  | inline {condition : Option Name} {directives : List Directive} {selections : List Selection} :
    Opens fieldType? parent (.inline condition directives selections)
      ⟨condition.getD parent, selections⟩

/-- The selection sets that stand in a selection set along known types: the set itself, and what its
selections open, and so on. -/
inductive SelectionsOn.Holds (fieldType? : Name → Name → Option Name) (outer : SelectionsOn) :
    SelectionsOn → Prop
  /-- The set itself. -/
  | self : Holds fieldType? outer outer
  /-- What a selection opens. -/
  | inside {around inner : SelectionsOn} {selection : Selection}
    (holds : Holds fieldType? outer around) (mem : selection ∈ around.selections)
    (opens : selection.Opens fieldType? around.type inner) : Holds fieldType? outer inner

/-- The selection sets inside of a selection from a type. -/
def Selection.HoldsInside (fieldType? : Name → Name → Option Name) (parent : Name)
    (selection : Selection) (inner : SelectionsOn) : Prop :=
  ∃ first, selection.Opens fieldType? parent first ∧ first.Holds fieldType? inner

section Holds

variable {fieldType? : Name → Name → Option Name} {outer inner innermost : SelectionsOn}

/-- What stands in a held set is held. -/
theorem SelectionsOn.Holds.trans (h : outer.Holds fieldType? inner)
    (hinner : inner.Holds fieldType? innermost) : outer.Holds fieldType? innermost := by
  induction hinner with
  | self => exact h
  | inside _ mem opens ih => exact .inside ih mem opens

/-- What stands inside of a selection is held. -/
theorem Selection.HoldsInside.holds {selection : Selection}
    (h : selection.HoldsInside fieldType? outer.type inner) (hmem : selection ∈ outer.selections) :
    outer.Holds fieldType? inner := by
  obtain ⟨first, hopens, hholds⟩ := h
  exact SelectionsOn.Holds.trans (.inside .self hmem hopens) hholds

/-- What is held is the set itself or stands inside of one of its selections. -/
theorem SelectionsOn.Holds.cases_inside (h : outer.Holds fieldType? inner) :
    inner = outer ∨
      ∃ selection ∈ outer.selections, selection.HoldsInside fieldType? outer.type inner := by
  induction h with
  | self => exact .inl rfl
  | @inside around inner selection _ mem opens ih =>
    rcases ih with rfl | ⟨first, hfirst, around', hopens, hholds⟩
    · exact .inr ⟨selection, mem, inner, opens, .self⟩
    · exact .inr ⟨first, hfirst, around', hopens, .inside hholds mem opens⟩

end Holds

/-! ## Selections with more in them -/

/-- The second selection is the first one, with more selected inside. -/
inductive Selection.Extends : Selection → Selection → Prop
  /-- A field: each of its selections is there in some way. -/
  | field {node : Field} {selections : List Selection} (there : Selection → Selection)
    (mem : ∀ selection ∈ node.selections, there selection ∈ selections)
    (kept : ∀ selection ∈ node.selections, Extends selection (there selection)) :
    Extends (.field node) (.field { node with selections })
  /-- A spread is the same. -/
  | spread {fragment : Name} {directives : List Directive} :
    Extends (.spread fragment directives) (.spread fragment directives)
  /-- An inline fragment: each of its selections is there in some way. -/
  | inline {condition : Option Name} {directives : List Directive}
    {inner selections : List Selection} (there : Selection → Selection)
    (mem : ∀ selection ∈ inner, there selection ∈ selections)
    (kept : ∀ selection ∈ inner, Extends selection (there selection)) :
    Extends (.inline condition directives inner) (.inline condition directives selections)

/-- Every selection is there in some way. -/
def Covers (selections others : List Selection) : Prop :=
  ∀ selection ∈ selections, ∃ other ∈ others, selection.Extends other

/-- A selection extends itself. -/
theorem Selection.Extends.refl (selection : Selection) : selection.Extends selection := by
  induction selection using Selection.nestedInduction with
  | field node ih => exact .field id (fun _ hmem => hmem) ih
  | spread fragment directives => exact .spread
  | inline condition directives selections ih => exact .inline id (fun _ hmem => hmem) ih

/-- What extends a field is the field, with other selections. -/
theorem Selection.Extends.exists_field {node : Field} {other : Selection}
    (h : (Selection.field node).Extends other) :
    ∃ selections, other = .field { node with selections } := by
  cases h
  exact ⟨_, rfl⟩

/-- What extends an extension extends the selection. -/
theorem Selection.Extends.trans {selection other another : Selection}
    (h : selection.Extends other) (hother : other.Extends another) : selection.Extends another := by
  induction h generalizing another with
  | field there mem _ ih =>
    cases hother with
    | field there' mem' kept' =>
      exact .field (there' ∘ there) (fun first hmem => mem' _ (mem first hmem))
        fun first hmem => ih first hmem (kept' _ (mem first hmem))
  | spread => exact hother
  | inline there mem _ ih =>
    cases hother with
    | inline there' mem' kept' =>
      exact .inline (there' ∘ there) (fun first hmem => mem' _ (mem first hmem))
        fun first hmem => ih first hmem (kept' _ (mem first hmem))

/-- Selections cover those among them. -/
theorem Covers.of_subset {selections others : List Selection} (h : selections ⊆ others) :
    Covers selections others :=
  fun selection hmem => ⟨selection, h hmem, .refl selection⟩

/-- Selections cover what those cover that they cover. -/
theorem Covers.trans {selections others more : List Selection} (h : Covers selections others)
    (hothers : Covers others more) : Covers selections more := by
  intro selection hmem
  obtain ⟨other, hother, hextends⟩ := h selection hmem
  obtain ⟨another, hanother, hmore⟩ := hothers other hother
  exact ⟨another, hanother, hextends.trans hmore⟩

/-! ## Revisions that add selections -/

namespace Revision

/-- A selection set, revised. -/
def on (revision : Revision) (set : SelectionsOn) : SelectionsOn :=
  ⟨set.type, revision.selections set.type set.selections⟩

/-- The revision of a selection set has the revised selections and those that are added, and no
others. -/
def Adds (revision : Revision) (added : SelectionsOn → List Selection) : Prop :=
  ∀ set selection, selection ∈ (revision.on set).selections ↔
    (∃ asked ∈ set.selections, selection = revision.selection set.type asked) ∨
      selection ∈ added set

variable {revision : Revision} {parent : Name}

/-- What a revised selection opens is what the selection opens, revised. -/
theorem opens_selection {selection : Selection} {inner : SelectionsOn}
    (h : (revision.selection parent selection).Opens revision.fieldType? parent inner) :
    ∃ asked, selection.Opens revision.fieldType? parent asked ∧ inner = revision.on asked := by
  cases selection with
  | field node =>
    by_cases hselects : node.selections = []
    · rw [selection_empty hselects] at h
      cases h with
      | field _ selects => exact absurd hselects selects
    · cases hknown : revision.fieldType? parent node.name with
      | none =>
        rw [selection_unknown hknown] at h
        cases h with
        | field known => exact absurd (hknown.symm.trans known) (by simp)
      | some type =>
        rw [selection_known hknown hselects] at h
        cases h with
        | field known =>
          cases hknown.symm.trans known
          exact ⟨_, .field hknown hselects, rfl⟩
  | spread fragment directives =>
    rw [selection_spread] at h
    cases h
  | inline condition directives selections =>
    rw [selection_inline] at h
    cases h
    exact ⟨_, .inline, rfl⟩

section Adds

variable {added : SelectionsOn → List Selection}

/-- What a selection opens is still opened, revised. -/
theorem Adds.opens_on (hadds : revision.Adds added) {selection : Selection} {inner : SelectionsOn}
    (h : selection.Opens revision.fieldType? parent inner) :
    (revision.selection parent selection).Opens revision.fieldType? parent (revision.on inner) := by
  cases h with
  | @field node type known selects =>
    obtain ⟨first, hfirst⟩ := List.exists_mem_of_ne_nil _ selects
    have hrevised := (hadds ⟨type, node.selections⟩ _).mpr (.inl ⟨first, hfirst, rfl⟩)
    rw [selection_known known selects]
    exact .field known (List.ne_nil_of_mem hrevised)
  | inline =>
    rw [selection_inline]
    exact .inline

/-- The selection sets of a set are still held, revised. -/
theorem Adds.holds_on (hadds : revision.Adds added) {outer inner : SelectionsOn}
    (h : outer.Holds revision.fieldType? inner) :
    (revision.on outer).Holds revision.fieldType? (revision.on inner) := by
  induction h with
  | self => exact .self
  | @inside around _ selection _ mem opens ih =>
    exact .inside ih ((hadds around _).mpr (.inl ⟨selection, mem, rfl⟩)) (hadds.opens_on opens)

/-- Whatever is selected is still there, with more inside of it. -/
theorem Adds.extends_selection (hadds : revision.Adds added) (selection : Selection)
    (parent : Name) : selection.Extends (revision.selection parent selection) := by
  have hmem : ∀ type selections, ∀ asked ∈ selections,
      revision.selection type asked ∈ revision.selections type selections :=
    fun type selections asked hasked => (hadds ⟨type, selections⟩ _).mpr (.inl ⟨asked, hasked, rfl⟩)
  induction selection using Selection.nestedInduction generalizing parent with
  | field node ih =>
    by_cases hselects : node.selections = []
    · rw [selection_empty hselects]
      exact .refl _
    · cases hknown : revision.fieldType? parent node.name with
      | none =>
        rw [selection_unknown hknown]
        exact .refl _
      | some type =>
        rw [selection_known hknown hselects]
        exact .field (revision.selection type) (hmem type node.selections)
          fun selection hselection => ih selection hselection type
  | spread fragment directives =>
    rw [selection_spread]
    exact .refl _
  | inline condition directives selections ih =>
    rw [selection_inline]
    exact .inline (revision.selection (condition.getD parent)) (hmem _ selections)
      fun selection hselection => ih selection hselection _

/-- A revised set covers all that is selected. -/
theorem Adds.covers (hadds : revision.Adds added) (set : SelectionsOn) :
    Covers set.selections (revision.on set).selections :=
  fun selection hmem => ⟨_, (hadds set _).mpr (.inl ⟨selection, hmem, rfl⟩),
    hadds.extends_selection selection set.type⟩

/-- A revised set has what is added. -/
theorem Adds.subset (hadds : revision.Adds added) (set : SelectionsOn) :
    added set ⊆ (revision.on set).selections :=
  fun selection hmem => (hadds set selection).mpr (.inr hmem)

/-- The selection sets of a revised set are the revised selection sets of the set, and what stands
inside of the selections that are added to these. -/
theorem Adds.holds_cases (hadds : revision.Adds added) {outer inner : SelectionsOn}
    (h : (revision.on outer).Holds revision.fieldType? inner) :
    (∃ asked, outer.Holds revision.fieldType? asked ∧ inner = revision.on asked) ∨
      ∃ asked selection, outer.Holds revision.fieldType? asked ∧ selection ∈ added asked ∧
        selection.HoldsInside revision.fieldType? asked.type inner := by
  -- By the way to the set: once it has entered an added selection, it stays inside of it.
  induction h with
  | self => exact .inl ⟨outer, .self, rfl⟩
  | @inside around inner selection _ mem opens ih =>
    rcases ih with ⟨asked, hasked, rfl⟩ | ⟨asked, first, hasked, hadded, set, hopens, hholds⟩
    · rcases (hadds asked selection).mp mem with ⟨original, horiginal, rfl⟩ | hadded
      · obtain ⟨opened, hopened, rfl⟩ := opens_selection opens
        exact .inl ⟨opened, .inside hasked horiginal hopened, rfl⟩
      · exact .inr ⟨asked, selection, hasked, hadded, inner, opens, .self⟩
    · exact .inr ⟨asked, first, hasked, hadded, set, hopens, .inside hholds mem opens⟩

end Adds

end Revision

/-! ## Documents -/

namespace Document

/-- The root type of every operation is declared. -/
def Rooted (schema : Schema) (document : Document) : Prop :=
  ∀ operation ∈ document.operations, (schema.root? operation.kind).isSome = true

/-- The selection sets of the definitions, each with its type and with the root type of the latest
operation. -/
def rootSets (schema : Schema) : Option Name → Document → List (Option Name × SelectionsOn)
  | _, [] => []
  | root?, .operation operation :: rest =>
    match schema.root? operation.kind with
    | some root => (some root, ⟨root, operation.selections⟩) :: rootSets schema (some root) rest
    | none => rootSets schema root? rest
  | root?, .fragment fragment :: rest =>
    (root?, ⟨fragment.condition, fragment.selections⟩) :: rootSets schema root? rest
  | root?, .typeSystem _ :: rest => rootSets schema root? rest

section Revise

variable {schema : Schema} {revise : Option Name → Name → List Selection → List Selection}

/-- A document with declared root types can be revised. -/
theorem exists_revise_eq_ok (revise : Option Name → Name → List Selection → List Selection)
    {document : Document} (h : document.Rooted schema) (root? : Option Name) :
    ∃ output, Document.revise schema revise root? document = .ok output := by
  induction document generalizing root? with
  | nil => exact ⟨[], rfl⟩
  | cons definition rest ih =>
    cases definition with
    | operation operation =>
      obtain ⟨hroot, hrest⟩ := List.forall_mem_cons.mp h
      obtain ⟨root, hroot⟩ := Option.isSome_iff_exists.mp hroot
      obtain ⟨output, houtput⟩ := ih hrest (some root)
      rw [Document.revise, hroot]
      dsimp only
      rw [houtput]
      exact ⟨_, rfl⟩
    | fragment fragment =>
      obtain ⟨output, houtput⟩ := ih h root?
      rw [Document.revise, houtput]
      exact ⟨_, rfl⟩
    | typeSystem definition =>
      obtain ⟨output, houtput⟩ := ih h root?
      rw [Document.revise, houtput]
      exact ⟨_, rfl⟩

/-- What revising makes of a document, definition by definition; the revision is told the root type
of the latest operation. -/
inductive Revises (schema : Schema)
    (revise : Option Name → Name → List Selection → List Selection) :
    Option Name → Document → Document → Prop
  /-- No definition is added. -/
  | nil {root? : Option Name} : Revises schema revise root? [] []
  /-- An operation is revised on its root type, which has to be declared. -/
  | operation {root? : Option Name} {root : Name} {operation : Operation} {rest others : Document}
    (rooted : schema.root? operation.kind = some root)
    (behind : Revises schema revise (some root) rest others) :
    Revises schema revise root? (.operation operation :: rest)
      (.operation { operation with selections := revise (some root) root operation.selections } ::
        others)
  /-- A fragment is revised on the type of its condition. -/
  | fragment {root? : Option Name} {fragment : Fragment} {rest others : Document}
    (behind : Revises schema revise root? rest others) :
    Revises schema revise root? (.fragment fragment :: rest)
      (.fragment { fragment with
        selections := revise root? fragment.condition fragment.selections } :: others)
  /-- Other definitions are left as they are. -/
  | typeSystem {root? : Option Name} {definition : TypeSystemDefinition} {rest others : Document}
    (behind : Revises schema revise root? rest others) :
    Revises schema revise root? (.typeSystem definition :: rest) (.typeSystem definition :: others)

variable {document output : Document} {root? : Option Name}

/-- A document is revised by these rules. -/
theorem revises_of_revise (h : Document.revise schema revise root? document = .ok output) :
    Revises schema revise root? document output := by
  induction document generalizing root? output with
  | nil =>
    cases h
    exact .nil
  | cons definition rest ih =>
    cases definition with
    | operation operation =>
      rw [Document.revise] at h
      cases hroot : schema.root? operation.kind with
      | none =>
        rw [hroot] at h
        cases h
      | some root =>
        rw [hroot] at h
        obtain ⟨others, hothers, h⟩ := except_bind_eq_ok_iff.mp h
        cases h
        exact .operation hroot (ih hothers)
    | fragment fragment =>
      obtain ⟨others, hothers, h⟩ := except_bind_eq_ok_iff.mp h
      cases h
      exact .fragment (ih hothers)
    | typeSystem definition =>
      obtain ⟨others, hothers, h⟩ := except_bind_eq_ok_iff.mp h
      cases h
      exact .typeSystem (ih hothers)

/-- A document that can be revised has declared root types, and still has them then. -/
theorem rooted_of_revise (h : Document.revise schema revise root? document = .ok output) :
    document.Rooted schema ∧ output.Rooted schema := by
  replace h := revises_of_revise h
  induction h with
  | nil =>
    exact ⟨fun _ hmem => absurd hmem List.not_mem_nil, fun _ hmem => absurd hmem List.not_mem_nil⟩
  | @operation _ root operation _ _ rooted _ ih =>
    have hsome : (schema.root? operation.kind).isSome = true := by rw [rooted]; rfl
    exact ⟨List.forall_mem_cons.mpr ⟨hsome, ih.1⟩, List.forall_mem_cons.mpr ⟨hsome, ih.2⟩⟩
  | fragment _ ih => exact ih
  | typeSystem _ ih => exact ih

/-- The operations of a revised document are revised each. -/
theorem operations_revise (h : Document.revise schema revise root? document = .ok output) :
    output.operations = document.operations.map fun operation =>
      { operation with
        selections := (schema.root? operation.kind).elim operation.selections fun root =>
          revise (some root) root operation.selections } := by
  replace h := revises_of_revise h
  induction h with
  | nil => rfl
  | operation rooted _ ih =>
    unfold Document.operations at ih ⊢
    rw [List.filterMap_cons, List.filterMap_cons, List.map_cons, rooted, ih]
    rfl
  | fragment _ ih => exact ih
  | typeSystem _ ih => exact ih

/-- The fragments of a revised document are revised each, unless the root types matter. -/
theorem fragments_revise {revise : Name → List Selection → List Selection}
    (h : Document.revise schema (fun _ => revise) root? document = .ok output) :
    output.fragments = document.fragments.map fun fragment =>
      { fragment with selections := revise fragment.condition fragment.selections } := by
  replace h := revises_of_revise h
  induction h with
  | nil => rfl
  | operation _ _ ih => exact ih
  | fragment _ ih => exact congrArg (List.cons _) ih
  | typeSystem _ ih => exact ih

/-- Each definition has its selection set revised. -/
theorem rootSets_revise (h : Document.revise schema revise root? document = .ok output) :
    output.rootSets schema root? = (document.rootSets schema root?).map fun entry =>
      (entry.1, ⟨entry.2.type, revise entry.1 entry.2.type entry.2.selections⟩) := by
  replace h := revises_of_revise h
  induction h with
  | nil => rfl
  | operation rooted _ ih =>
    rw [rootSets, rootSets]
    dsimp only
    rw [rooted]
    dsimp only
    rw [List.map_cons, ih]
  | fragment _ ih => rw [rootSets, rootSets, List.map_cons, ih]
  | typeSystem _ ih => rw [rootSets, rootSets, ih]

end Revise

end Document

end Gateway
