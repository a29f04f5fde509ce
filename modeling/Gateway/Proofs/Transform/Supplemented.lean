import Gateway.Proofs.Session
import Gateway.Proofs.Transform.Required
import Gateway.Transform.Chain

/-!
# Requirements are put behind what is selected

The passes that add what merging requires leave whatever is selected in place, and put behind it
what is configured and not there yet (`IsAdded`). They do so in every selection set that they walk:
from the root types of operations and the conditions of fragments, along the gateway's types, where
a root field that the gateway does not know has the type that the delegation returns
(`Document.Supplemented`). Nothing else of a request changes (`Transform.requirements_supplement`).

Which type is the root type is known from the last operation in front. So in a fragment that stands
in front of all operations the selections below an unknown root field are not walked.
-/

namespace Gateway

/-! ## Additions -/

/-- What is put behind selections: what is configured and not there, each once. -/
structure IsAdded (own configured added : List Selection) : Prop where
  /-- No selection is put there twice. -/
  once : added.Nodup
  /-- A selection is put there when it is configured, and was not there. -/
  mem_iff : ∀ selection, selection ∈ added ↔ selection ∈ configured ∧ selection ∉ own
  /-- The order is that of the configured selections. -/
  order : added.Sublist configured

/-- The union is the selections with the missing ones behind them. -/
theorem exists_unionSelections_eq (own configured : List Selection) :
    ∃ added, unionSelections own configured = own ++ added ∧ IsAdded own configured added := by
  induction configured generalizing own with
  | nil => exact ⟨[], (List.append_nil own).symm, List.nodup_nil, by simp, List.Sublist.refl _⟩
  | cons first rest ih =>
    by_cases hthere : first ∈ own
    · obtain ⟨added, hunion, hadded⟩ := ih own
      refine ⟨added, ?_, hadded.once, fun selection => ?_, hadded.order.cons first⟩
      · unfold unionSelections at hunion ⊢
        rw [List.foldl_cons, if_pos (List.contains_iff_mem.mpr hthere), hunion]
      · rw [hadded.mem_iff, List.mem_cons]
        refine and_congr_left fun hnew => (or_iff_right ?_).symm
        rintro rfl
        exact hnew hthere
    · -- From now on the first one is there too, so it is not put there again.
      obtain ⟨added, hunion, hadded⟩ := ih (own ++ [first])
      have hfirst : first ∉ added := fun hmem =>
        ((hadded.mem_iff first).mp hmem).2 (List.mem_append_right _ List.mem_cons_self)
      refine ⟨first :: added, ?_, List.nodup_cons.mpr ⟨hfirst, hadded.once⟩, fun selection => ?_,
        hadded.order.cons_cons first⟩
      · unfold unionSelections at hunion ⊢
        rw [List.foldl_cons, if_neg (mt List.contains_iff_mem.mp hthere), hunion,
          List.append_assoc, List.singleton_append]
      · rw [List.mem_cons, List.mem_cons, hadded.mem_iff, List.mem_append, List.mem_singleton]
        by_cases hsame : selection = first
        · simp [hsame, hthere]
        · simp [hsame]

/-! ## Supplemented selection sets -/

mutual

/-- The selection sets inside of a selection from a type are supplemented, along known types. -/
inductive Selection.Supplemented (fieldType? : Name → Name → Option Name)
    (configured : SelectionsOn → List Selection) : Name → Selection → Selection → Prop
  /-- A field of known type: what it selects is supplemented on its type. -/
  | field {parent type : Name} {node : Field} {selections : List Selection}
    (known : fieldType? parent node.name = some type) (selects : node.selections ≠ [])
    (below : SelectionsOn.Supplemented fieldType? configured ⟨type, node.selections⟩ selections) :
    Selection.Supplemented fieldType? configured parent (.field node)
      (.field { node with selections })
  /-- A field without selections is left as it is. -/
  | leaf {parent : Name} {node : Field} (selects : node.selections = []) :
    Selection.Supplemented fieldType? configured parent (.field node) (.field node)
  /-- So is a field whose type is not known. -/
  | unknown {parent : Name} {node : Field} (unknown : fieldType? parent node.name = none) :
    Selection.Supplemented fieldType? configured parent (.field node) (.field node)
  /-- So is a spread. -/
  | spread {parent fragment : Name} {directives : List Directive} :
    Selection.Supplemented fieldType? configured parent (.spread fragment directives)
      (.spread fragment directives)
  /-- An inline fragment: what it selects is supplemented on its condition, or else on the same
  type. -/
  | inline {parent : Name} {condition : Option Name} {directives : List Directive}
    {inner selections : List Selection}
    (below : SelectionsOn.Supplemented fieldType? configured ⟨condition.getD parent, inner⟩
      selections) :
    Selection.Supplemented fieldType? configured parent (.inline condition directives inner)
      (.inline condition directives selections)

/-- A selection set is supplemented: its selections are there in their order, each with its own
selection sets supplemented, and behind them what is configured for the set. -/
inductive SelectionsOn.Supplemented (fieldType? : Name → Name → Option Name)
    (configured : SelectionsOn → List Selection) : SelectionsOn → List Selection → Prop
  /-- Each of the selections stands there for itself. -/
  | intro {set : SelectionsOn} {added : List Selection} (there : Selection → Selection)
    (each : ∀ selection ∈ set.selections,
      Selection.Supplemented fieldType? configured set.type selection (there selection))
    (behind : IsAdded (set.selections.map there) (configured set) added) :
    SelectionsOn.Supplemented fieldType? configured set (set.selections.map there ++ added)

end

section Supplemented

variable {fieldType? : Name → Name → Option Name} {configured : SelectionsOn → List Selection}

/-- Where nothing is configured, selections are left as they are. -/
theorem SelectionsOn.supplemented_self {set : SelectionsOn} (hnone : configured set = [])
    (h : ∀ selection ∈ set.selections,
      selection.Supplemented fieldType? configured set.type selection) :
    set.Supplemented fieldType? configured set.selections := by
  have hnothing : IsAdded (set.selections.map id) (configured set) [] := by
    rw [hnone]
    exact ⟨List.nodup_nil, by simp, List.Sublist.refl _⟩
  have hself : set.Supplemented fieldType? configured (set.selections.map id ++ []) :=
    .intro id h hnothing
  rwa [List.map_id, List.append_nil] at hself

/-- Where nothing is configured at all, a selection is left as it is. -/
theorem Selection.supplemented_self (hnone : ∀ set, configured set = []) (selection : Selection)
    (parent : Name) : selection.Supplemented fieldType? configured parent selection := by
  induction selection using Selection.nestedInduction generalizing parent with
  | field node ih =>
    cases hknown : fieldType? parent node.name with
    | none => exact .unknown hknown
    | some type =>
      by_cases hselects : node.selections = []
      · exact .leaf hselects
      · exact .field hknown hselects
          (SelectionsOn.supplemented_self (hnone _) fun first hmem => ih first hmem type)
  | spread fragment directives => exact .spread
  | inline condition directives selections ih =>
    exact .inline (SelectionsOn.supplemented_self (hnone _) fun first hmem => ih first hmem _)

end Supplemented

namespace Revision

variable {revision : Revision} {configured : SelectionsOn → List Selection}

/-- The revision of a selection set has the revised selections, in union with what is configured for
the set. -/
def Unites (revision : Revision) (configured : SelectionsOn → List Selection) : Prop :=
  ∀ set, (revision.on set).selections =
    unionSelections (set.selections.map (revision.selection set.type)) (configured set)

/-- A set is supplemented when its selections are. -/
theorem Unites.supplemented_on (h : revision.Unites configured) (set : SelectionsOn)
    (hinner : ∀ selection ∈ set.selections, selection.Supplemented revision.fieldType? configured
      set.type (revision.selection set.type selection)) :
    set.Supplemented revision.fieldType? configured (revision.on set).selections := by
  obtain ⟨added, hunion, hadded⟩ := exists_unionSelections_eq
    (set.selections.map (revision.selection set.type)) (configured set)
  rw [h, hunion]
  exact .intro _ hinner hadded

/-- Every selection is supplemented, at any depth. -/
theorem Unites.supplemented_selection (h : revision.Unites configured) (selection : Selection)
    (parent : Name) : selection.Supplemented revision.fieldType? configured parent
      (revision.selection parent selection) := by
  induction selection using Selection.nestedInduction generalizing parent with
  | field node ih =>
    by_cases hselects : node.selections = []
    · rw [selection_empty hselects]
      exact .leaf hselects
    · cases hknown : revision.fieldType? parent node.name with
      | none =>
        rw [selection_unknown hknown]
        exact .unknown hknown
      | some type =>
        rw [selection_known hknown hselects]
        exact .field hknown hselects
          (h.supplemented_on ⟨type, node.selections⟩ fun first hmem => ih first hmem type)
  | spread fragment directives =>
    rw [selection_spread]
    exact .spread
  | inline condition directives selections ih =>
    rw [selection_inline]
    exact .inline (h.supplemented_on ⟨_, selections⟩ fun first hmem => ih first hmem _)

/-- Every selection set is supplemented. -/
theorem Unites.supplemented (h : revision.Unites configured) (set : SelectionsOn) :
    set.Supplemented revision.fieldType? configured (revision.on set).selections :=
  h.supplemented_on set fun selection _ => h.supplemented_selection selection set.type

/-- What is configured for a set depends on its type and on the names of its fields only. -/
def ByNames (configured : SelectionsOn → List Selection) : Prop :=
  ∀ type selections others,
    (directFields selections).map FieldOf.name = (directFields others).map FieldOf.name →
      configured ⟨type, selections⟩ = configured ⟨type, others⟩

/-- Revised selections have the fields that were selected. -/
theorem map_name_directFields_inner (revision : Revision) (parent : Name)
    (selections : List Selection) :
    (directFields (revision.inner parent selections)).map FieldOf.name =
      (directFields selections).map FieldOf.name := by
  unfold directFields
  rw [inner_eq_map, List.filterMap_map, List.map_filterMap, List.map_filterMap]
  refine List.filterMap_congr fun selection _ => ?_
  cases selection with
  | field node =>
    obtain ⟨selections, heq⟩ := revision.exists_selection_field parent node
    rw [Function.comp_apply, heq]
    rfl
  | spread fragment directives => rw [Function.comp_apply, selection_spread]
  | inline condition directives selections =>
    rw [Function.comp_apply, selection_inline]
    rfl

/-- A revision that ends with a union with what is configured by names unites with this. -/
theorem unites_of_finish (hnames : ByNames configured)
    (hfinish : ∀ type selections, revision.finish type selections =
      unionSelections selections (configured ⟨type, selections⟩)) :
    revision.Unites configured := by
  intro set
  unfold on selections
  rw [hfinish, inner_eq_map]
  -- What is configured is read off the revised selections, which have the same names.
  refine congrArg _ (hnames set.type _ _ ?_)
  rw [← inner_eq_map, map_name_directFields_inner]

end Revision

/-! ## What is configured -/

namespace MergeRequirements

variable {requirements : MergeRequirements}

/-- The fragments that the fields require that are directly selected in a selection set. -/
def fragmentsOn (requirements : MergeRequirements) (set : SelectionsOn) : List Selection :=
  (directFields set.selections).flatMap fun node =>
    (requirements.fragmentsByField.find? set.type node.name).getD []

/-- No fragments are required when none are configured. -/
theorem fragmentsOn_eq_nil (h : requirements.hasFragments = false) (set : SelectionsOn) :
    requirements.fragmentsOn set = [] := by
  unfold hasFragments at h
  rw [Bool.not_eq_false', List.isEmpty_iff] at h
  unfold fragmentsOn
  rw [h]
  exact List.flatMap_eq_nil_iff.mpr fun _ _ => rfl

/-- What fields require depends on their names. -/
theorem byNames_flatMap (required : Name → Name → List Selection) :
    Revision.ByNames fun set =>
      (directFields set.selections).flatMap fun node => required set.type node.name := by
  intro type selections others hnames
  have hnamed : ∀ fields : List Field, (fields.flatMap fun node => required type node.name) =
      (fields.map FieldOf.name).flatMap (required type) := fun fields =>
    (List.flatMap_map FieldOf.name (required type) fields).symm
  dsimp only
  rw [hnamed, hnamed, hnames]

end MergeRequirements

/-! ## Documents -/

open Transform (GatewayTypes)

/-- The selection sets of a document are supplemented, definition by definition: those of an
operation from its root type on, those of a fragment from its condition on. The root type is that of
the last operation in front, if there is one. -/
inductive Document.Supplemented (types : GatewayTypes)
    (configured : SelectionsOn → List Selection) : Option Name → Document → Document → Prop
  /-- No definition is left. -/
  | nil {root? : Option Name} : Supplemented types configured root? [] []
  /-- Only the selections of an operation change. -/
  | operation {root? : Option Name} {operation : Operation} {root : Name}
    {selections : List Selection} {rest others : Document}
    (rooted : types.schema.root? operation.kind = some root)
    (set : SelectionsOn.Supplemented (types.fieldType? (some root)) configured
      ⟨root, operation.selections⟩ selections)
    (behind : Supplemented types configured (some root) rest others) :
    Supplemented types configured root? (.operation operation :: rest)
      (.operation { operation with selections } :: others)
  /-- Only the selections of a fragment change. -/
  | fragment {root? : Option Name} {fragment : Fragment} {selections : List Selection}
    {rest others : Document}
    (set : SelectionsOn.Supplemented (types.fieldType? root?) configured
      ⟨fragment.condition, fragment.selections⟩ selections)
    (behind : Supplemented types configured root? rest others) :
    Supplemented types configured root? (.fragment fragment :: rest)
      (.fragment { fragment with selections } :: others)
  /-- Other definitions are left as they are. -/
  | typeSystem {root? : Option Name} {definition : TypeSystemDefinition} {rest others : Document}
    (behind : Supplemented types configured root? rest others) :
    Supplemented types configured root? (.typeSystem definition :: rest)
      (.typeSystem definition :: others)

namespace Transform

variable {types : GatewayTypes} {configured : SelectionsOn → List Selection}

/-- A document that is revised by what unites is supplemented. -/
theorem supplemented_of_revise {finish : Name → List Selection → List Selection}
    (hunites : ∀ root?, Revision.Unites ⟨types.fieldType? root?, finish⟩ configured)
    {document output : Document} {root? : Option Name}
    (h : Document.revise types.schema
      (fun root? => Revision.selections ⟨types.fieldType? root?, finish⟩) root? document =
        .ok output) :
    document.Supplemented types configured root? output := by
  replace h := Document.revises_of_revise h
  induction h with
  | nil => exact .nil
  | operation rooted _ ih => exact .operation rooted ((hunites _).supplemented ⟨_, _⟩) ih
  | fragment _ ih => exact .fragment ((hunites _).supplemented ⟨_, _⟩) ih
  | typeSystem _ ih => exact .typeSystem ih

/-- A document with declared root types can be revised by what unites, and is supplemented. -/
theorem exists_revise_supplemented {finish : Name → List Selection → List Selection}
    (hunites : ∀ root?, Revision.Unites ⟨types.fieldType? root?, finish⟩ configured)
    {document : Document} (h : document.Rooted types.schema) (root? : Option Name) :
    ∃ output, Document.revise types.schema
        (fun root? => Revision.selections ⟨types.fieldType? root?, finish⟩) root? document =
          .ok output ∧
      document.Supplemented types configured root? output := by
  obtain ⟨output, houtput⟩ := Document.exists_revise_eq_ok
    (fun root? => Revision.selections ⟨types.fieldType? root?, finish⟩) h root?
  exact ⟨output, houtput, supplemented_of_revise hunites houtput⟩

/-- Where nothing is configured at all, a document with declared root types is left as it is. -/
theorem supplemented_self (hnone : ∀ set, configured set = []) {document : Document}
    (h : document.Rooted types.schema) (root? : Option Name) :
    document.Supplemented types configured root? document := by
  have hset : ∀ (root? : Option Name) (set : SelectionsOn),
      set.Supplemented (types.fieldType? root?) configured set.selections := fun root? set =>
    SelectionsOn.supplemented_self (hnone set) fun selection _ =>
      selection.supplemented_self hnone set.type
  induction document generalizing root? with
  | nil => exact .nil
  | cons definition rest ih =>
    cases definition with
    | operation operation =>
      obtain ⟨hroot, hrest⟩ := List.forall_mem_cons.mp h
      obtain ⟨root, hroot⟩ := Option.isSome_iff_exists.mp hroot
      exact .operation hroot (hset (some root) ⟨root, operation.selections⟩) (ih hrest (some root))
    | fragment fragment =>
      exact .fragment (hset root? ⟨fragment.condition, fragment.selections⟩) (ih h root?)
    | typeSystem definition => exact .typeSystem (ih h root?)

/-- A pass that is left out when nothing is configured supplements every document with declared root
types. -/
theorem exists_pass_supplemented (types : GatewayTypes)
    {finish : Name → List Selection → List Selection} {applies : Bool}
    (hnone : applies = false → ∀ set, configured set = []) (hnames : Revision.ByNames configured)
    (hfinish : ∀ type selections, finish type selections =
      unionSelections selections (configured ⟨type, selections⟩))
    {document : Document} (h : document.Rooted types.schema) :
    ∃ output, (if applies then types.revise finish document else .ok document) = .ok output ∧
      document.Supplemented types configured none output := by
  cases applies with
  | false => exact ⟨document, rfl, supplemented_self (hnone rfl) h none⟩
  | true =>
    exact exists_revise_supplemented (fun _ => Revision.unites_of_finish hnames hfinish) h none

/-- A transform by what merging requires changes the document of a request only. -/
theorem ofRequirements_request {σ : Type}
    {change : GatewayTypes → MergeRequirements → Document → Except DelegationError Document}
    {context : DelegationContext} {schema : Schema} {requirements : MergeRequirements}
    (hstitches : context.gatewayRequirements? = some (schema, requirements)) {request : Request}
    {output : Document}
    (h : change ⟨schema, context.returnType.innerName⟩ requirements request.document =
      .ok output) :
    (ofRequirements change : Transform σ).request context request =
      pure { request with document := output } := by
  unfold ofRequirements ofDocument ofRequest
  dsimp only
  rw [hstitches]
  dsimp only
  rw [h]
  rfl

/-- With declared root types every pass that adds what merging requires succeeds. Of the request it
changes the document only, and of this only selection sets: each one that is walked has its
selections in their order, with their own selection sets supplemented in the same way, and behind
them, each once, what is configured and not there: for the type of the set, or for the fields of the
type that were selected in it. -/
theorem requirements_supplement {σ : Type} (context : DelegationContext) (request : Request)
    {schema : Schema} {requirements : MergeRequirements}
    (hstitches : context.gatewayRequirements? = some (schema, requirements))
    (hrooted : request.document.Rooted schema) :
    (∃ output, (addSelectionsByField : Transform σ).request context request =
        pure { request with document := output } ∧
      request.document.Supplemented ⟨schema, context.returnType.innerName⟩ requirements.onFields
        none output) ∧
    (∃ output, (addSelectionsByType : Transform σ).request context request =
        pure { request with document := output } ∧
      request.document.Supplemented ⟨schema, context.returnType.innerName⟩
        (fun set => requirements.onType set.type) none output) ∧
    ∃ output, (addFragmentsByField : Transform σ).request context request =
        pure { request with document := output } ∧
      request.document.Supplemented ⟨schema, context.returnType.innerName⟩
        requirements.fragmentsOn none output := by
  refine ⟨?_, ?_, ?_⟩
  · obtain ⟨output, houtput, hsupplemented⟩ := exists_pass_supplemented
      ⟨schema, context.returnType.innerName⟩ MergeRequirements.onFields_eq_nil
      (MergeRequirements.byNames_flatMap requirements.onField)
      (fun _ _ => withFieldRequirements_eq) hrooted
    exact ⟨output, ofRequirements_request hstitches houtput, hsupplemented⟩
  · obtain ⟨output, houtput, hsupplemented⟩ := exists_pass_supplemented
      ⟨schema, context.returnType.innerName⟩
      (fun hnone set => MergeRequirements.onType_eq_nil hnone set.type) (fun _ _ _ _ => rfl)
      (fun _ _ => withTypeRequirements_eq) hrooted
    exact ⟨output, ofRequirements_request hstitches houtput, hsupplemented⟩
  · obtain ⟨output, houtput, hsupplemented⟩ := exists_pass_supplemented
      ⟨schema, context.returnType.innerName⟩ MergeRequirements.fragmentsOn_eq_nil
      (MergeRequirements.byNames_flatMap fun type field =>
        (requirements.fragmentsByField.find? type field).getD [])
      (fun _ _ => rfl) hrooted
    exact ⟨output, ofRequirements_request hstitches houtput, hsupplemented⟩

/-- Users need an identifier, and shipping needs the weight, and the size of the user. -/
def shippingRequirements : MergeRequirements where
  byType := [("User", [.field { name := "id" }])]
  byField := [("User", [("shipping", [.field { name := "weight" }])])]
  fragmentsByField :=
    [("User", [("shipping", [.inline (some "User") [] [.field { name := "size" }]])])]

/-- A delegation that returns a user, from a root field that the gateway does not know. -/
def shippingContext : DelegationContext where
  subschema := { name := "products", schema := parcelSchema "_user" ["id", "weight", "shipping"] }
  fieldName := "_user"
  returnType := .named "User"
  info? := some {
    operation := {
      schema := parcelSchema "me" ["id", "weight", "shipping", "size"]
      operation := {}
      fragments := []
      vars := [] }
    parentType := "Query"
    fieldName := "me"
    nodes := []
    returnType := .named "User"
    path := [] }
  requirements? := some shippingRequirements

/-- The operation of a request for this field, by a fragment. -/
def shippingOperation : Definition := .operation { selections := [.spread "F" []] }

/-- The fragment, with the selections under the field. -/
def shippingFragment (selections : List Selection) : Definition := .fragment {
  name := "F", condition := "Query", selections := [.field { name := "_user", selections }] }

/-- Below the unknown root field, in a fragment behind the operation, the weight is put behind
shipping. -/
theorem requirements_supplement_shipping :
    shippingContext.gatewayRequirements? =
      some (parcelSchema "me" ["id", "weight", "shipping", "size"], shippingRequirements) ∧
    Document.Rooted (parcelSchema "me" ["id", "weight", "shipping", "size"])
      [shippingOperation, shippingFragment [.field { name := "shipping" }]] ∧
    (addSelectionsByField : Transform Unit).request shippingContext
        ⟨[shippingOperation, shippingFragment [.field { name := "shipping" }]], []⟩ =
      pure ⟨[shippingOperation,
        shippingFragment [.field { name := "shipping" }, .field { name := "weight" }]], []⟩ ∧
    Document.Supplemented
      ⟨parcelSchema "me" ["id", "weight", "shipping", "size"], "User"⟩
      shippingRequirements.onFields none
      [shippingOperation, shippingFragment [.field { name := "shipping" }]]
      [shippingOperation,
        shippingFragment [.field { name := "shipping" }, .field { name := "weight" }]] := by
  have hrooted : Document.Rooted (parcelSchema "me" ["id", "weight", "shipping", "size"])
      [shippingOperation, shippingFragment [.field { name := "shipping" }]] := by
    intro operation hmem
    obtain rfl := List.mem_singleton.mp hmem
    rfl
  obtain ⟨output, houtput, hsupplemented⟩ := (requirements_supplement (σ := Unit) shippingContext
    ⟨[shippingOperation, shippingFragment [.field { name := "shipping" }]], []⟩ rfl hrooted).1
  have hadded : (addSelectionsByField : Transform Unit).request shippingContext
      ⟨[shippingOperation, shippingFragment [.field { name := "shipping" }]], []⟩ =
        pure ⟨[shippingOperation,
          shippingFragment [.field { name := "shipping" }, .field { name := "weight" }]], []⟩ :=
    ofRequirements_request rfl (except_eq_ok_of_toOption (by decide +kernel))
  have hsame := congrArg (fun action => (runFrom action ⟨(), []⟩).1) (houtput.symm.trans hadded)
  cases hsame
  exact ⟨rfl, hrooted, hadded, hsupplemented⟩

/-- In a fragment in front of the operation it is not. -/
example : (addFieldRequirements
    ⟨parcelSchema "me" ["id", "weight", "shipping", "size"], "User"⟩ shippingRequirements
    [shippingFragment [.field { name := "shipping" }], shippingOperation]).toOption =
      some [shippingFragment [.field { name := "shipping" }], shippingOperation] := by
  decide +kernel

end Transform

end Gateway
