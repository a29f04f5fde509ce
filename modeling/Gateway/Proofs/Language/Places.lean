import Gateway.Proofs.Language.Nesting
import Gateway.Schema.Basic

/-!
# Places in a document

A document that is made of operations and fragments has these (`Document.operations_ofParts`). What
can be said of a document at any depth: its selection sets with the type that each selects from
(`SelectsFrom`), the fragments that selections spread step by step (`Reaches`) and the variables of
arguments and directives (`Document.UsesVariable`).

The meta field `__typename` is bare when it is selected without arguments and selections. Then
nothing is missed where what stands below it does not count (`mem_gathered_iff`).
-/

namespace Gateway

/-! ## Parts of documents -/

/-- The document of operations, followed by fragments. -/
def Document.ofParts (operations : List Operation) (fragments : List Fragment) : Document :=
  operations.map Definition.operation ++ fragments.map Definition.fragment

/-- Its operations. -/
theorem Document.operations_ofParts (operations : List Operation) (fragments : List Fragment) :
    (Document.ofParts operations fragments).operations = operations := by
  unfold Document.ofParts Document.operations
  rw [List.filterMap_append, List.filterMap_map, List.filterMap_map]
  have hfirst : operations.filterMap some = operations := List.filterMap_some
  have hlast : fragments.filterMap (fun _ => (none : Option Operation)) = [] :=
    List.filterMap_eq_nil_iff.mpr fun _ _ => rfl
  exact (congrArg₂ _ hfirst hlast).trans (List.append_nil _)

/-- Its fragments. -/
theorem Document.fragments_ofParts (operations : List Operation) (fragments : List Fragment) :
    (Document.ofParts operations fragments).fragments = fragments := by
  unfold Document.ofParts Document.fragments
  rw [List.filterMap_append, List.filterMap_map, List.filterMap_map]
  have hfirst : operations.filterMap (fun _ => (none : Option Fragment)) = [] :=
    List.filterMap_eq_nil_iff.mpr fun _ _ => rfl
  have hlast : fragments.filterMap some = fragments := List.filterMap_some
  exact congrArg₂ _ hfirst hlast

/-! ## Places in a document -/

/-- The selection sets of the operations and fragments. -/
def Document.selectionSets (document : Document) : List (List Selection) :=
  document.operations.map Operation.selections ++ document.fragments.map Fragment.selections

/-- The selection sets at any depth, each with the type that it selects from. -/
inductive SelectsFrom (schema : Schema) (document : Document) : Name → List Selection → Prop
  /-- An operation selects from its root type. -/
  | operation {operation : Operation} {root : Name} (mem : operation ∈ document.operations)
    (found : schema.root? operation.kind = some root) :
    SelectsFrom schema document root operation.selections
  /-- A fragment selects from the type of its condition. -/
  | fragment {fragment : Fragment} (mem : fragment ∈ document.fragments) :
    SelectsFrom schema document fragment.condition fragment.selections
  /-- Below a field is selected from its declared type. -/
  | field {parent type : Name} {selections : List Selection} {node : Field}
    (within : SelectsFrom schema document parent selections) (mem : .field node ∈ selections)
    (declared : schema.fieldTypeName? parent node.name = some type) :
    SelectsFrom schema document type node.selections
  /-- An inline fragment selects from the type of its condition, or else from the type around it. -/
  | inline {parent : Name} {selections inner : List Selection} {condition : Option Name}
    {directives : List Directive} (within : SelectsFrom schema document parent selections)
    (mem : .inline condition directives inner ∈ selections) :
    SelectsFrom schema document (condition.getD parent) inner

/-- The fragments that selections spread, themselves or through fragments that they spread. -/
inductive Reaches (fragments : List Fragment) (selections : List Selection) : Name → Prop
  /-- A spread in the selections. -/
  | spread {name : Name} {directives : List Directive}
    (occurs : Occurs (.spread name directives) selections) : Reaches fragments selections name
  /-- A spread in a fragment that is reached. -/
  | through {fragment : Fragment} {name : Name} {directives : List Directive}
    (mem : fragment ∈ fragments) (reaches : Reaches fragments selections fragment.name)
    (occurs : Occurs (.spread name directives) fragment.selections) :
    Reaches fragments selections name

/-- The variables in the arguments and directives of a selection itself. -/
def Selection.ownVariables : Selection → List Name
  | .field node => argumentVariables node.arguments ++ directiveVariables node.directives
  | .spread _ directives => directiveVariables directives
  | .inline _ directives _ => directiveVariables directives

/-- Some selection uses the variable, at any depth. -/
def SelectionsUse (name : Name) (selections : List Selection) : Prop :=
  ∃ selection, Occurs selection selections ∧ name ∈ selection.ownVariables

/-- An operation of a document uses the variable, or a fragment that it reaches does. -/
def Document.UsesVariable (document : Document) (operation : Operation) (name : Name) : Prop :=
  name ∈ directiveVariables operation.directives ∨ SelectionsUse name operation.selections ∨
    ∃ fragment ∈ document.fragments,
      Reaches document.fragments operation.selections fragment.name ∧
        (name ∈ directiveVariables fragment.directives ∨ SelectionsUse name fragment.selections)

/-! ## The bare meta field -/

/-- The meta field is selected without arguments and selections. -/
def BareMeta (selections : List Selection) : Prop :=
  ∀ node : Field, Occurs (.field node) selections → node.name = typenameField →
    node.arguments = [] ∧ node.selections = []

section BareMeta

variable {selections : List Selection}

/-- The meta field is bare in selections when it is in each of them. -/
theorem bareMeta_iff_forall : BareMeta selections ↔ ∀ first ∈ selections, BareMeta [first] := by
  constructor
  · exact fun h first hmem node hoccurs =>
      h node (occurs_iff_exists.mpr ⟨first, hmem, hoccurs⟩)
  · intro h node hoccurs
    obtain ⟨first, hmem, hoccurs⟩ := occurs_iff_exists.mp hoccurs
    exact h first hmem node hoccurs

/-- The meta field is bare in a field when it is below, and when the field is bare if it is the meta
field itself. -/
theorem bareMeta_field_iff {node : Field} :
    BareMeta [.field node] ↔
      (node.name = typenameField → node.arguments = [] ∧ node.selections = []) ∧
        BareMeta node.selections := by
  constructor
  · exact fun h => ⟨h node (.here List.mem_cons_self),
      fun other hoccurs => h other (occurs_field_iff.mpr (.inr hoccurs))⟩
  · rintro ⟨hnode, hbelow⟩ other hoccurs
    rcases occurs_field_iff.mp hoccurs with hsame | hoccurs
    · cases hsame
      exact hnode
    · exact hbelow other hoccurs

/-- A spread has no meta field. -/
theorem bareMeta_spread (fragment : Name) (directives : List Directive) :
    BareMeta [.spread fragment directives] :=
  fun _ hoccurs => absurd (occurs_spread_iff.mp hoccurs) (by simp)

/-- The meta field is bare in an inline fragment when it is in its selections. -/
theorem bareMeta_inline_iff {condition : Option Name} {directives : List Directive} :
    BareMeta [.inline condition directives selections] ↔ BareMeta selections := by
  constructor
  · exact fun h other hoccurs => h other (occurs_inline_iff.mpr (.inr hoccurs))
  · intro h other hoccurs
    rcases occurs_inline_iff.mp hoccurs with hsame | hoccurs
    · exact absurd hsame (by simp)
    · exact h other hoccurs

mutual

/-- Whether the meta field is bare in a selection. -/
def Selection.isBare : Selection → Bool
  | .field ⟨_, name, arguments, _, selections⟩ =>
    (name != typenameField || (arguments.isEmpty && selections.isEmpty)) && areBare selections
  | .spread _ _ => true
  | .inline _ _ selections => areBare selections

/-- Whether the meta field is bare in selections. -/
def areBare : List Selection → Bool
  | [] => true
  | first :: rest => first.isBare && areBare rest

end

/-- The check goes through all selections. -/
theorem areBare_iff_forall : areBare selections = true ↔ ∀ first ∈ selections, first.isBare := by
  induction selections with
  | nil => simp [areBare]
  | cons first rest ih => rw [areBare, Bool.and_eq_true, ih, List.forall_mem_cons]

/-- The check decides whether the meta field is bare. -/
theorem areBare_iff_bareMeta : areBare selections = true ↔ BareMeta selections := by
  have hall : ∀ selections : List Selection,
      (∀ first ∈ selections, first.isBare = true ↔ BareMeta [first]) →
        (areBare selections = true ↔ BareMeta selections) := fun selections h =>
    areBare_iff_forall.trans ((forall₂_congr h).trans bareMeta_iff_forall.symm)
  refine hall selections fun first hmem => ?_
  clear hmem
  induction first using Selection.nestedInduction with
  | field node ih =>
    obtain ⟨alias?, name, arguments, directives, selections⟩ := node
    rw [Selection.isBare, bareMeta_field_iff, Bool.and_eq_true, hall selections ih]
    refine and_congr_left fun _ => ?_
    simp [imp_iff_not_or]
  | spread fragment directives => simp [Selection.isBare, bareMeta_spread]
  | inline condition directives inner ih =>
    rw [Selection.isBare, bareMeta_inline_iff, hall inner ih]

/-- It can be decided whether the meta field is bare. -/
instance : Decidable (BareMeta selections) := decidable_of_iff _ areBare_iff_bareMeta

/-- What is gathered from selections and from what is selected below them, but not below the meta
field, is what each selection has of its own when the meta field is bare. -/
theorem mem_gathered_iff (own gathered : Selection → List Name)
    (hmeta : ∀ node : Field, node.name = typenameField → node.arguments = [] →
      gathered (.field node) = own (.field node))
    (hfield : ∀ node : Field, node.name ≠ typenameField →
      gathered (.field node) = own (.field node) ++ node.selections.flatMap gathered)
    (hspread : ∀ name directives,
      gathered (.spread name directives) = own (.spread name directives))
    (hinline : ∀ condition directives inner, gathered (.inline condition directives inner) =
      own (.inline condition directives inner) ++ inner.flatMap gathered)
    (hbare : BareMeta selections) {name : Name} :
    name ∈ selections.flatMap gathered ↔
      ∃ selection, Occurs selection selections ∧ name ∈ own selection := by
  have hall : ∀ selections : List Selection, (∀ first ∈ selections, BareMeta [first] →
      (name ∈ gathered first ↔ ∃ selection, Occurs selection [first] ∧ name ∈ own selection)) →
      BareMeta selections → (name ∈ selections.flatMap gathered ↔
        ∃ selection, Occurs selection selections ∧ name ∈ own selection) := by
    intro selections ih hbare
    have hfirst := fun first hmem => ih first hmem (bareMeta_iff_forall.mp hbare first hmem)
    rw [List.mem_flatMap]
    constructor
    · rintro ⟨first, hmem, hname⟩
      obtain ⟨selection, hoccurs, hown⟩ := (hfirst first hmem).mp hname
      exact ⟨selection, occurs_iff_exists.mpr ⟨first, hmem, hoccurs⟩, hown⟩
    · rintro ⟨selection, hoccurs, hown⟩
      obtain ⟨first, hmem, hoccurs⟩ := occurs_iff_exists.mp hoccurs
      exact ⟨first, hmem, (hfirst first hmem).mpr ⟨selection, hoccurs, hown⟩⟩
  refine hall selections (fun first hmem => ?_) hbare
  clear hbare hmem
  induction first using Selection.nestedInduction with
  | field node ih =>
    intro hbare
    have hgathered : gathered (.field node) =
        own (.field node) ++ node.selections.flatMap gathered := by
      by_cases hname : node.name = typenameField
      · obtain ⟨harguments, hselections⟩ := (bareMeta_field_iff.mp hbare).1 hname
        rw [hmeta node hname harguments, hselections, List.flatMap_nil, List.append_nil]
      · exact hfield node hname
    rw [hgathered, List.mem_append, hall node.selections ih (bareMeta_field_iff.mp hbare).2]
    simp only [occurs_field_iff, or_and_right, exists_or, exists_eq_left]
  | spread fragment directives =>
    intro _
    rw [hspread]
    simp only [occurs_spread_iff, exists_eq_left]
  | inline condition directives inner ih =>
    intro hbare
    rw [hinline, List.mem_append, hall inner ih (bareMeta_inline_iff.mp hbare)]
    simp only [occurs_inline_iff, or_and_right, exists_or, exists_eq_left]

end BareMeta

end Gateway
