import Gateway.Proofs.Language.Places
import Gateway.Proofs.Transform.Required

/-!
# Agreeing selections

A response holds one value under a response key, so fields that a selection set directly selects
under one response key have to have one name. What merging requires is added without regard to the
response keys that a request uses: an alias of the request may stand for a required field.

Whether fields agree at every depth of what a pass leaves can be read off the request
(`Revision.Adds.agreeThroughout_iff`): in each of its selection sets along known types, the fields
that are selected have to agree with those that are added there. The second pass also walks what the
first one added (`agreeThroughout_passes_iff`).
-/

namespace Gateway

/-! ## Agreement -/

/-- Fields that are directly selected under one response key have one name. -/
def Agree (selections : List Selection) : Prop :=
  ∀ node ∈ directFields selections, ∀ other ∈ directFields selections,
    node.responseKey = other.responseKey → node.name = other.name

/-- Whether fields agree can be decided. -/
instance (selections : List Selection) : Decidable (Agree selections) :=
  inferInstanceAs (Decidable (∀ node ∈ directFields selections,
    ∀ other ∈ directFields selections, node.responseKey = other.responseKey →
      node.name = other.name))

/-- What a selection directly selects from its value. -/
def Selection.inside : Selection → List Selection
  | .field node => node.selections
  | .spread _ _ => []
  | .inline _ _ selections => selections

/-- Fields agree in the selections and in all selection sets inside of them. -/
def AgreeThroughout (selections : List Selection) : Prop :=
  Agree selections ∧ ∀ selection, Occurs selection selections → Agree selection.inside

section Agree

variable {selections others : List Selection}

/-- Fields agree when those under the same response keys and with the same names do. -/
theorem Agree.of_forall (h : Agree others)
    (hfields : ∀ node : Field, .field node ∈ selections → ∃ other : Field,
      .field other ∈ others ∧ other.name = node.name ∧ other.responseKey = node.responseKey) :
    Agree selections := by
  intro node hnode other hother hkey
  obtain ⟨node', hnode', hname, hnodeKey⟩ := hfields node (mem_directFields.mp hnode)
  obtain ⟨other', hother', hotherName, hotherKey⟩ := hfields other (mem_directFields.mp hother)
  rw [← hname, ← hotherName]
  exact h node' (mem_directFields.mpr hnode') other' (mem_directFields.mpr hother')
    (hnodeKey.trans (hkey.trans hotherKey.symm))

/-- Fields agree when they do among more selections. -/
theorem Agree.mono (h : Agree others) (hsub : selections ⊆ others) : Agree selections :=
  h.of_forall fun node hnode => ⟨node, hsub hnode, rfl, rfl⟩

/-- Fields agree throughout selections when they agree in them and throughout what each of them
selects. -/
theorem agreeThroughout_iff :
    AgreeThroughout selections ↔
      Agree selections ∧ ∀ selection ∈ selections, AgreeThroughout selection.inside := by
  constructor
  · rintro ⟨hdirect, hinside⟩
    refine ⟨hdirect, fun selection hmem => ⟨hinside selection (.here hmem), ?_⟩⟩
    intro inner hoccurs
    cases selection with
    | field node => exact hinside inner (.field hmem hoccurs)
    | spread fragment directives => exact absurd hoccurs not_occurs_nil
    | inline condition directives selections => exact hinside inner (.inline hmem hoccurs)
  · rintro ⟨hdirect, hinside⟩
    refine ⟨hdirect, fun selection hoccurs => ?_⟩
    cases hoccurs with
    | here mem => exact (hinside selection mem).1
    | field mem within => exact (hinside _ mem).2 selection within
    | inline mem within => exact (hinside _ mem).2 selection within

/-- Where nothing is selected, fields agree. -/
theorem agreeThroughout_nil : AgreeThroughout [] :=
  ⟨fun _ hnode => absurd hnode List.not_mem_nil, fun _ hoccurs => absurd hoccurs not_occurs_nil⟩

/-- What a selection opens is what it selects inside. -/
theorem Selection.Opens.inside_eq {fieldType? : Name → Name → Option Name} {parent : Name}
    {selection : Selection} {set : SelectionsOn} (h : selection.Opens fieldType? parent set) :
    selection.inside = set.selections := by
  cases h <;> rfl

/-- Where fields agree throughout a selection set, they do throughout those that it holds. -/
theorem AgreeThroughout.of_holds {fieldType? : Name → Name → Option Name}
    {outer inner : SelectionsOn} (h : AgreeThroughout outer.selections)
    (hholds : outer.Holds fieldType? inner) : AgreeThroughout inner.selections := by
  induction hholds with
  | self => exact h
  | inside _ mem opens ih =>
    rw [← opens.inside_eq]
    exact (agreeThroughout_iff.mp ih).2 _ mem

/-- Fields agree throughout selections that are all there in some way where fields agree, when
agreement inside of them follows from agreement there. -/
theorem AgreeThroughout.of_forall (h : AgreeThroughout others)
    (hthere : ∀ selection ∈ selections, ∃ other ∈ others, selection.Extends other ∧
      (AgreeThroughout other.inside → AgreeThroughout selection.inside)) :
    AgreeThroughout selections := by
  obtain ⟨hdirect, hinside⟩ := agreeThroughout_iff.mp h
  refine agreeThroughout_iff.mpr ⟨hdirect.of_forall fun node hnode => ?_, fun selection hmem => ?_⟩
  · obtain ⟨other, hother, hextends, -⟩ := hthere _ hnode
    obtain ⟨selections, rfl⟩ := hextends.exists_field
    exact ⟨{ node with selections }, hother, rfl, rfl⟩
  · obtain ⟨other, hother, -, hback⟩ := hthere selection hmem
    exact hback (hinside other hother)

/-- Where fields agree inside of a selection, they do inside of those that it extends. -/
theorem Selection.Extends.agreeThroughout {selection other : Selection}
    (h : selection.Extends other) (hother : AgreeThroughout other.inside) :
    AgreeThroughout selection.inside := by
  induction h with
  | field there mem kept ih =>
    exact hother.of_forall fun selection hmem =>
      ⟨there selection, mem selection hmem, kept selection hmem, ih selection hmem⟩
  | spread => exact agreeThroughout_nil
  | inline there mem kept ih =>
    exact hother.of_forall fun selection hmem =>
      ⟨there selection, mem selection hmem, kept selection hmem, ih selection hmem⟩

/-- Where fields agree throughout selections, they do throughout those that these cover. -/
theorem AgreeThroughout.of_covers (h : AgreeThroughout others)
    (hcovers : Covers selections others) : AgreeThroughout selections := by
  refine h.of_forall fun selection hmem => ?_
  obtain ⟨other, hother, hextends⟩ := hcovers selection hmem
  exact ⟨other, hother, hextends, hextends.agreeThroughout⟩

end Agree

/-! ## Agreement with what is added -/

/-- Added selections go with those of a selection set: fields agree in all of them together, and
throughout what each of the added ones selects. -/
def Compatible (selections added : List Selection) : Prop :=
  Agree (selections ++ added) ∧ ∀ selection ∈ added, AgreeThroughout selection.inside

section Compatible

variable {selections added more : List Selection}

/-- Nothing goes with selections in which fields agree. -/
theorem Compatible.of_agree (h : Agree selections) : Compatible selections [] := by
  refine ⟨?_, fun _ hmem => absurd hmem List.not_mem_nil⟩
  rw [List.append_nil]
  exact h

/-- What goes with selections does so without some of it. -/
theorem Compatible.mono (h : Compatible selections added) (hsub : more ⊆ added) :
    Compatible selections more :=
  ⟨h.1.mono (List.append_subset.mpr ⟨List.subset_append_left _ _,
      List.subset_append_of_subset_right _ hsub⟩), fun selection hmem => h.2 selection (hsub hmem)⟩

end Compatible

namespace Revision

variable {revision : Revision} {added : SelectionsOn → List Selection}

/-- In a revised set and more selections, fields agree when they do in the set, what is added to it
and these. -/
theorem Adds.agree_on_append (hadds : revision.Adds added) {set : SelectionsOn}
    {more : List Selection} :
    Agree ((revision.on set).selections ++ more) ↔
      Agree (set.selections ++ (added set ++ more)) := by
  rw [← List.append_assoc]
  constructor
  · refine fun h => h.of_forall fun node hnode => ?_
    rcases List.mem_append.mp hnode with hmem | hmem
    · rcases List.mem_append.mp hmem with hasked | hadded
      · obtain ⟨selections, heq⟩ := revision.exists_selection_field set.type node
        have hrevised := (hadds set _).mpr (.inl ⟨_, hasked, rfl⟩)
        exact ⟨{ node with selections }, List.mem_append_left _ (heq ▸ hrevised), rfl, rfl⟩
      · exact ⟨node, List.mem_append_left _ (hadds.subset set hadded), rfl, rfl⟩
    · exact ⟨node, List.mem_append_right _ hmem, rfl, rfl⟩
  · refine fun h => h.of_forall fun node hnode => ?_
    rcases List.mem_append.mp hnode with hmem | hmem
    · rcases (hadds set _).mp hmem with ⟨asked, hasked, heq⟩ | hadded
      · obtain ⟨original, rfl, hsame⟩ := exists_field_of_selection heq.symm
        exact ⟨original, List.mem_append_left _ (List.mem_append_left _ hasked), hsame⟩
      · exact ⟨node, List.mem_append_left _ (List.mem_append_right _ hadded), rfl, rfl⟩
    · exact ⟨node, List.mem_append_right _ hmem, rfl, rfl⟩

/-- In a revised set, fields agree when they do in the set and what is added to it. -/
theorem Adds.agree_on (hadds : revision.Adds added) {set : SelectionsOn} :
    Agree (revision.on set).selections ↔ Agree (set.selections ++ added set) := by
  have h : Agree ((revision.on set).selections ++ []) ↔
      Agree (set.selections ++ (added set ++ [])) :=
    hadds.agree_on_append
  rwa [List.append_nil, List.append_nil] at h

/-- Fields agree throughout a revised set when what is added to it goes with it and they agree
throughout what each revised selection selects. -/
theorem Adds.agreeThroughout_on (hadds : revision.Adds added) {set : SelectionsOn}
    (hadded : Compatible set.selections (added set))
    (hinside : ∀ selection ∈ set.selections,
      AgreeThroughout (revision.selection set.type selection).inside) :
    AgreeThroughout (revision.on set).selections := by
  refine agreeThroughout_iff.mpr ⟨hadds.agree_on.mpr hadded.1, fun selection hmem => ?_⟩
  rcases (hadds set selection).mp hmem with ⟨asked, hasked, rfl⟩ | hmem
  · exact hinside asked hasked
  · exact hadded.2 selection hmem

/-- Fields agree throughout what a revised selection selects when they do throughout what the
selection selects and go with what is added inside of it. -/
theorem Adds.agreeThroughout_inside (hadds : revision.Adds added) (selection : Selection)
    {parent : Name} (hasked : AgreeThroughout selection.inside)
    (hadded : ∀ set, selection.HoldsInside revision.fieldType? parent set →
      Compatible set.selections (added set)) :
    AgreeThroughout (revision.selection parent selection).inside := by
  induction selection using Selection.nestedInduction generalizing parent with
  | field node ih =>
    by_cases hselects : node.selections = []
    · rw [selection_empty hselects]
      exact hasked
    · cases hknown : revision.fieldType? parent node.name with
      | none =>
        rw [selection_unknown hknown]
        exact hasked
      | some type =>
        rw [selection_known hknown hselects]
        have hopens : (Selection.field node).Opens revision.fieldType? parent
            ⟨type, node.selections⟩ := .field hknown hselects
        refine hadds.agreeThroughout_on (hadded ⟨type, node.selections⟩ ⟨_, hopens, .self⟩)
          fun selection hmem => ?_
        refine ih selection hmem ((agreeThroughout_iff.mp hasked).2 selection hmem) ?_
        exact fun set hset => hadded set ⟨_, hopens, hset.holds hmem⟩
  | spread fragment directives =>
    rw [selection_spread]
    exact hasked
  | inline condition directives selections ih =>
    rw [selection_inline]
    have hopens : (Selection.inline condition directives selections).Opens revision.fieldType?
        parent ⟨condition.getD parent, selections⟩ := .inline
    refine hadds.agreeThroughout_on
      (hadded ⟨condition.getD parent, selections⟩ ⟨_, hopens, .self⟩) fun selection hmem => ?_
    refine ih selection hmem ((agreeThroughout_iff.mp hasked).2 selection hmem) ?_
    exact fun set hset => hadded set ⟨_, hopens, hset.holds hmem⟩

/-- Fields agree throughout a revised set exactly when what is added goes with the selection sets
that the set holds. -/
theorem Adds.agreeThroughout_iff (hadds : revision.Adds added) {outer : SelectionsOn}
    (hasked : AgreeThroughout outer.selections) :
    AgreeThroughout (revision.on outer).selections ↔
      ∀ set, outer.Holds revision.fieldType? set → Compatible set.selections (added set) := by
  constructor
  · intro h set hset
    obtain ⟨hdirect, hinside⟩ :=
      Gateway.agreeThroughout_iff.mp (h.of_holds (hadds.holds_on hset))
    exact ⟨hadds.agree_on.mp hdirect, fun selection hmem =>
      hinside selection (hadds.subset set hmem)⟩
  · refine fun h => hadds.agreeThroughout_on (h outer .self) fun selection hmem => ?_
    exact hadds.agreeThroughout_inside selection
      ((Gateway.agreeThroughout_iff.mp hasked).2 selection hmem)
      fun set hset => h set (hset.holds hmem)

end Revision

/-! ## Selection sets of documents -/

namespace Document

variable {schema : Schema} {document : Document} {root? : Option Name}

/-- The selection sets are that of the first definition, if it has one, and those of the others. -/
theorem mem_selectionSets_cons {definition : Definition} {rest : Document}
    {selections : List Selection} :
    selections ∈ selectionSets (definition :: rest) ↔
      (∃ operation, definition = .operation operation ∧ operation.selections = selections) ∨
      (∃ fragment, definition = .fragment fragment ∧ fragment.selections = selections) ∨
      selections ∈ selectionSets rest := by
  unfold selectionSets operations fragments
  cases definition <;> simp [or_left_comm, eq_comm]

/-- The selection set of every definition is one of the document. -/
theorem mem_selectionSets_of_rootSets {entry : Option Name × SelectionsOn}
    (h : entry ∈ document.rootSets schema root?) :
    entry.2.selections ∈ document.selectionSets := by
  induction document generalizing root? with
  | nil => exact absurd h List.not_mem_nil
  | cons definition rest ih =>
    rw [mem_selectionSets_cons]
    cases definition with
    | operation operation =>
      rw [rootSets] at h
      cases hroot : schema.root? operation.kind with
      | none =>
        rw [hroot] at h
        exact .inr (.inr (ih h))
      | some root =>
        rw [hroot] at h
        rcases List.mem_cons.mp h with rfl | hmem
        · exact .inl ⟨operation, rfl, rfl⟩
        · exact .inr (.inr (ih hmem))
    | fragment fragment =>
      rw [rootSets] at h
      rcases List.mem_cons.mp h with rfl | hmem
      · exact .inr (.inl ⟨fragment, rfl, rfl⟩)
      · exact .inr (.inr (ih hmem))
    | typeSystem definition => exact .inr (.inr (ih h))

/-- With declared root types, every selection set of the document is that of a definition. -/
theorem exists_rootSet (hrooted : document.Rooted schema) {selections : List Selection}
    (h : selections ∈ document.selectionSets) (root? : Option Name) :
    ∃ entry ∈ document.rootSets schema root?, entry.2.selections = selections := by
  induction document generalizing root? with
  | nil => exact absurd h List.not_mem_nil
  | cons definition rest ih =>
    cases definition with
    | operation operation =>
      obtain ⟨hfirst, hrest⟩ := List.forall_mem_cons.mp hrooted
      obtain ⟨root, hroot⟩ := Option.isSome_iff_exists.mp hfirst
      rw [rootSets, hroot]
      rcases mem_selectionSets_cons.mp h with ⟨_, heq, rfl⟩ | ⟨_, heq, -⟩ | hmem
      · cases heq
        exact ⟨_, List.mem_cons_self, rfl⟩
      · cases heq
      · obtain ⟨entry, hentry, hselections⟩ := ih hrest hmem (some root)
        exact ⟨entry, List.mem_cons_of_mem _ hentry, hselections⟩
    | fragment fragment =>
      rw [rootSets]
      rcases mem_selectionSets_cons.mp h with ⟨_, heq, -⟩ | ⟨_, heq, rfl⟩ | hmem
      · cases heq
      · cases heq
        exact ⟨_, List.mem_cons_self, rfl⟩
      · obtain ⟨entry, hentry, hselections⟩ := ih hrooted hmem root?
        exact ⟨entry, List.mem_cons_of_mem _ hentry, hselections⟩
    | typeSystem definition =>
      rcases mem_selectionSets_cons.mp h with ⟨_, heq, -⟩ | ⟨_, heq, -⟩ | hmem
      · cases heq
      · cases heq
      · exact ih hrooted hmem root?

end Document

/-! ## Selections without selection sets -/

/-- Whether a selection has no selection set. -/
def Selection.isLeaf : Selection → Bool
  | .field node => node.selections.isEmpty
  | .spread _ _ => true
  | .inline _ _ _ => false

section Leaf

variable {selection : Selection}

/-- Without a selection set, nothing is selected inside. -/
theorem Selection.inside_of_isLeaf (h : selection.isLeaf = true) : selection.inside = [] := by
  cases selection with
  | field node => exact List.isEmpty_iff.mp h
  | spread fragment directives => rfl
  | inline condition directives selections => cases h

/-- Without a selection set, no selection set stands inside. -/
theorem Selection.not_holdsInside_of_isLeaf {fieldType? : Name → Name → Option Name}
    {parent : Name} {set : SelectionsOn} (h : selection.isLeaf = true) :
    ¬ selection.HoldsInside fieldType? parent set := by
  rintro ⟨_, hopens, -⟩
  cases hopens with
  | field _ selects => exact selects (List.isEmpty_iff.mp h)
  | inline => cases h

/-- Fields without selection sets agree throughout when they agree. -/
theorem agreeThroughout_of_isLeaf {selections : List Selection} (hagree : Agree selections)
    (hleaf : ∀ selection ∈ selections, selection.isLeaf = true) : AgreeThroughout selections := by
  refine agreeThroughout_iff.mpr ⟨hagree, fun selection hmem => ?_⟩
  rw [Selection.inside_of_isLeaf (hleaf selection hmem)]
  exact agreeThroughout_nil

/-- What has no selection set goes with selections when fields agree in all of them together. -/
theorem compatible_of_isLeaf {selections added : List Selection}
    (hagree : Agree (selections ++ added))
    (hleaf : ∀ selection ∈ added, selection.isLeaf = true) : Compatible selections added := by
  refine ⟨hagree, fun selection hmem => ?_⟩
  rw [Selection.inside_of_isLeaf (hleaf selection hmem)]
  exact agreeThroughout_nil

end Leaf

/-! ## Agreement with requirements -/

namespace Transform

/-- In the selection sets of a request along known types, what is added goes with what is there. -/
def IsCompatible (types : GatewayTypes) (document : Document)
    (added : SelectionsOn → List Selection) : Prop :=
  ∀ entry ∈ document.rootSets types.schema none, ∀ set,
    entry.2.Holds (types.fieldType? entry.1) set → Compatible set.selections (added set)

/-- Inside of what the fields of a request require, what types require goes with what is there. -/
def IsCompatibleInside (types : GatewayTypes) (requirements : MergeRequirements)
    (document : Document) : Prop :=
  ∀ entry ∈ document.rootSets types.schema none, ∀ origin,
    entry.2.Holds (types.fieldType? entry.1) origin →
    ∀ selection ∈ requirements.onFields origin, ∀ set,
    selection.HoldsInside (types.fieldType? entry.1) origin.type set →
    Compatible set.selections (requirements.onType set.type)

section Passes

variable {types : GatewayTypes} {requirements : MergeRequirements} {document output : Document}

/-- Fields agree after both passes exactly when all that is required goes with the selection sets of
the request, and what types require with those inside of what fields require. -/
theorem agreeThroughout_passes_iff {root? : Option Name} {asked : SelectionsOn}
    (hasked : AgreeThroughout asked.selections) :
    AgreeThroughout ((types.typePass requirements root?).on
        ((types.fieldPass requirements root?).on asked)).selections ↔
      (∀ set, asked.Holds (types.fieldType? root?) set →
        Compatible set.selections (requirements.onFields set ++ requirements.onType set.type)) ∧
      ∀ origin, asked.Holds (types.fieldType? root?) origin →
        ∀ selection ∈ requirements.onFields origin, ∀ set,
        selection.HoldsInside (types.fieldType? root?) origin.type set →
        Compatible set.selections (requirements.onType set.type) := by
  have hfields := types.adds_fieldPass requirements root?
  have htypes := types.adds_typePass requirements root?
  constructor
  · intro h
    -- The second pass keeps all that the first one leaves, so fields already agree after the first.
    have hpassed := h.of_covers (htypes.covers _)
    have hbyField := (hfields.agreeThroughout_iff hasked).mp hpassed
    have hbyType := (htypes.agreeThroughout_iff hpassed).mp h
    refine ⟨fun set hset => ?_, fun origin horigin selection hrequired set hset => ?_⟩
    · have htype := hbyType _ (hfields.holds_on hset)
      refine ⟨hfields.agree_on_append.mp htype.1, fun selection hmem => ?_⟩
      rcases List.mem_append.mp hmem with hmem | hmem
      · exact (hbyField set hset).2 selection hmem
      · exact htype.2 selection hmem
    · obtain ⟨first, hopens, hheld⟩ := hset
      have hfirst := SelectionsOn.Holds.inside (hfields.holds_on horigin)
        (hfields.subset origin hrequired) hopens
      exact hbyType set (hfirst.trans hheld)
  · rintro ⟨hrequest, hinside⟩
    have hpassed : AgreeThroughout ((types.fieldPass requirements root?).on asked).selections :=
      (hfields.agreeThroughout_iff hasked).mpr fun set hset =>
        (hrequest set hset).mono (List.subset_append_left _ _)
    refine (htypes.agreeThroughout_iff hpassed).mpr fun set hset => ?_
    rcases hfields.holds_cases hset with ⟨origin, horigin, rfl⟩ | ⟨origin, selection, horigin,
      hrequired, hset⟩
    · exact ⟨hfields.agree_on_append.mpr (hrequest origin horigin).1, fun selection hmem =>
        (hrequest origin horigin).2 selection (List.mem_append_right _ hmem)⟩
    · exact hinside origin horigin selection hrequired set hset

/-- Passes through the selection sets of a document leave fields that agree throughout it exactly
when each pass does. -/
theorem forall_agreeThroughout_iff (pass : Option Name → SelectionsOn → SelectionsOn)
    {compatible : Option Name → SelectionsOn → Prop}
    (hpass : ∀ root? set, AgreeThroughout set.selections →
      (AgreeThroughout (pass root? set).selections ↔ compatible root? set))
    (hrooted : output.Rooted types.schema)
    (hpassed : output.rootSets types.schema none =
      (document.rootSets types.schema none).map fun entry => (entry.1, pass entry.1 entry.2))
    (hasked : ∀ selections ∈ document.selectionSets, AgreeThroughout selections) :
    (∀ selections ∈ output.selectionSets, AgreeThroughout selections) ↔
      ∀ entry ∈ document.rootSets types.schema none, compatible entry.1 entry.2 := by
  have hpass' : ∀ entry ∈ document.rootSets types.schema none,
      (AgreeThroughout (pass entry.1 entry.2).selections ↔ compatible entry.1 entry.2) :=
    fun entry hentry =>
      hpass entry.1 entry.2 (hasked _ (Document.mem_selectionSets_of_rootSets hentry))
  constructor
  · intro h entry hentry
    have hmem : (entry.1, pass entry.1 entry.2) ∈ output.rootSets types.schema none := by
      rw [hpassed]
      exact List.mem_map_of_mem hentry
    exact (hpass' entry hentry).mp (h _ (Document.mem_selectionSets_of_rootSets hmem))
  · intro h selections hmem
    obtain ⟨given, hgiven, rfl⟩ := Document.exists_rootSet hrooted hmem none
    rw [hpassed] at hgiven
    obtain ⟨entry, hentry, rfl⟩ := List.mem_map.mp hgiven
    exact (hpass' entry hentry).mpr (h entry hentry)

/-- What nothing is added to is compatible. -/
theorem isCompatible_of_eq_nil {added : SelectionsOn → List Selection}
    (hasked : ∀ selections ∈ document.selectionSets, AgreeThroughout selections)
    (hnone : ∀ set, added set = []) : IsCompatible types document added := by
  intro entry hentry set hset
  rw [hnone set]
  exact .of_agree ((hasked _ (Document.mem_selectionSets_of_rootSets hentry)).of_holds hset).1

/-- After a revision, fields agree exactly when what it adds goes with the request. -/
theorem agreeThroughout_revise_iff {finish : Name → List Selection → List Selection}
    {added : SelectionsOn → List Selection}
    (hadds : ∀ root?, (Revision.mk (types.fieldType? root?) finish).Adds added)
    (hasked : ∀ selections ∈ document.selectionSets, AgreeThroughout selections)
    (h : types.revise finish document = .ok output) :
    (∀ selections ∈ output.selectionSets, AgreeThroughout selections) ↔
      IsCompatible types document added :=
  forall_agreeThroughout_iff (fun root? => (Revision.mk (types.fieldType? root?) finish).on)
    (fun root? _ hset => (hadds root?).agreeThroughout_iff hset)
    (Document.rooted_of_revise h).2 (Document.rootSets_revise h) hasked

/-- After the pass for fields, they agree exactly when what they require goes with the request. -/
theorem agreeThroughout_addFieldRequirements_iff
    (hasked : ∀ selections ∈ document.selectionSets, AgreeThroughout selections)
    (h : addFieldRequirements types requirements document = .ok output) :
    (∀ selections ∈ output.selectionSets, AgreeThroughout selections) ↔
      IsCompatible types document requirements.onFields := by
  unfold addFieldRequirements at h
  split_ifs at h with hsome
  · exact agreeThroughout_revise_iff (types.adds_fieldPass requirements) hasked h
  · cases h
    have hnone := eq_false_of_ne_true hsome
    exact iff_of_true hasked
      (isCompatible_of_eq_nil hasked (MergeRequirements.onFields_eq_nil hnone))

/-- After the pass for types, fields agree exactly when what the types require goes with the
request. -/
theorem agreeThroughout_addTypeRequirements_iff
    (hasked : ∀ selections ∈ document.selectionSets, AgreeThroughout selections)
    (h : addTypeRequirements types requirements document = .ok output) :
    (∀ selections ∈ output.selectionSets, AgreeThroughout selections) ↔
      IsCompatible types document fun set => requirements.onType set.type := by
  unfold addTypeRequirements at h
  split_ifs at h with hsome
  · exact agreeThroughout_revise_iff (types.adds_typePass requirements) hasked h
  · cases h
    have hnone := eq_false_of_ne_true hsome
    exact iff_of_true hasked (isCompatible_of_eq_nil hasked fun set =>
      MergeRequirements.onType_eq_nil hnone set.type)

/-- After both passes, fields agree exactly when all that is required goes with the request, and
what types require with the selections that fields require. -/
theorem agreeThroughout_addRequirements_iff
    (hasked : ∀ selections ∈ document.selectionSets, AgreeThroughout selections)
    (h : addRequirements types requirements document = .ok output) :
    (∀ selections ∈ output.selectionSets, AgreeThroughout selections) ↔
      IsCompatible types document
          (fun set => requirements.onFields set ++ requirements.onType set.type) ∧
        IsCompatibleInside types requirements document := by
  cases hsome : requirements.hasSelections with
  | false =>
    cases (addRequirements_eq_self hsome types document).symm.trans h
    refine iff_of_true hasked ⟨isCompatible_of_eq_nil hasked fun set => ?_, ?_⟩
    · rw [MergeRequirements.onFields_eq_nil hsome, MergeRequirements.onType_eq_nil hsome]
      rfl
    · intro entry hentry origin horigin selection hrequired
      rw [MergeRequirements.onFields_eq_nil hsome] at hrequired
      exact absurd hrequired List.not_mem_nil
  | true =>
    obtain ⟨passed, -, houtput⟩ := except_bind_eq_ok_iff.mp h
    have hrevised := (if_pos hsome).symm.trans houtput
    refine (forall_agreeThroughout_iff
      (fun root? set => (types.typePass requirements root?).on
        ((types.fieldPass requirements root?).on set))
      (fun root? set => agreeThroughout_passes_iff)
      (Document.rooted_of_revise hrevised).2 (rootSets_addRequirements hsome h) hasked).trans ?_
    exact ⟨fun hentries => ⟨fun entry hentry => (hentries entry hentry).1,
      fun entry hentry => (hentries entry hentry).2⟩,
      fun hboth entry hentry => ⟨hboth.1 entry hentry, hboth.2 entry hentry⟩⟩

end Passes

/-- Whether fields still agree where requirements are added to a request in which they do: exactly
when what the pass adds goes with the selection sets of the request, and, for both passes, when what
types require goes with what fields require. -/
theorem agreeThroughout_added_iff (types : GatewayTypes) (requirements : MergeRequirements)
    {document : Document}
    (hasked : ∀ selections ∈ document.selectionSets, AgreeThroughout selections) :
    (∀ output, addFieldRequirements types requirements document = .ok output →
      ((∀ selections ∈ output.selectionSets, AgreeThroughout selections) ↔
        IsCompatible types document requirements.onFields)) ∧
    (∀ output, addTypeRequirements types requirements document = .ok output →
      ((∀ selections ∈ output.selectionSets, AgreeThroughout selections) ↔
        IsCompatible types document fun set => requirements.onType set.type)) ∧
    ∀ output, addRequirements types requirements document = .ok output →
      ((∀ selections ∈ output.selectionSets, AgreeThroughout selections) ↔
        IsCompatible types document
            (fun set => requirements.onFields set ++ requirements.onType set.type) ∧
          IsCompatibleInside types requirements document) :=
  ⟨fun _ => agreeThroughout_addFieldRequirements_iff hasked,
    fun _ => agreeThroughout_addTypeRequirements_iff hasked,
    fun _ => agreeThroughout_addRequirements_iff hasked⟩

/-- A query for fields of a user agrees throughout when these fields do and select nothing
inside. -/
theorem forall_agreeThroughout_parcelQuery {fields : List Field}
    (hagree : Agree (fields.map .field))
    (hleaf : ∀ selection ∈ fields.map Selection.field, selection.isLeaf = true) :
    ∀ selections ∈ (parcelQuery fields).selectionSets, AgreeThroughout selections := by
  intro selections hmem
  obtain rfl := List.mem_singleton.mp hmem
  refine agreeThroughout_iff.mpr ⟨?_, fun selection hselection => ?_⟩
  · intro node hnode other hother _
    obtain rfl := List.mem_singleton.mp hnode
    obtain rfl := List.mem_singleton.mp hother
    rfl
  · obtain rfl := List.mem_singleton.mp hselection
    exact agreeThroughout_of_isLeaf hagree hleaf

/-- The shipping of a user goes with the weight that it brings. -/
theorem agreeThroughout_parcelQuery :
    (∀ selections ∈ (parcelQuery [{ name := "shipping" }]).selectionSets,
        AgreeThroughout selections) ∧
      addRequirements parcelTypes parcelStitching.requirements
          (parcelQuery [{ name := "shipping" }]) =
        .ok (parcelQuery [{ name := "shipping" }, { name := "weight" }]) ∧
      ∀ selections ∈ (parcelQuery [{ name := "shipping" }, { name := "weight" }]).selectionSets,
        AgreeThroughout selections := by
  have hasked : ∀ selections ∈ (parcelQuery [{ name := "shipping" }]).selectionSets,
      AgreeThroughout selections :=
    forall_agreeThroughout_parcelQuery (by decide) (by decide)
  have hadded : (addRequirements parcelTypes parcelStitching.requirements
      (parcelQuery [{ name := "shipping" }])).toOption =
      some (parcelQuery [{ name := "shipping" }, { name := "weight" }]) := by
    decide +kernel
  have hok := except_eq_ok_of_toOption hadded
  -- The query has two selection sets, its own and that of the user.
  have hsets : ∀ entry ∈ (parcelQuery [{ name := "shipping" }]).rootSets parcelTypes.schema none,
      ∀ set, entry.2.Holds (parcelTypes.fieldType? entry.1) set →
      set = ⟨"Query", [.field { name := "me", selections := [.field { name := "shipping" }] }]⟩ ∨
        set = ⟨"User", [.field { name := "shipping" }]⟩ := by
    intro entry hentry set hset
    obtain rfl := List.mem_singleton.mp hentry
    rcases hset.cases_inside with rfl | ⟨selection, hselection, first, hopens, hfirst⟩
    · exact .inl rfl
    · obtain rfl := List.mem_singleton.mp hselection
      cases hopens with
      | field known _ =>
        obtain rfl : "User" = _ := Option.some.inj known
        rcases hfirst.cases_inside with rfl | ⟨leaf, hleaf, hinside⟩
        · exact .inr rfl
        · obtain rfl := List.mem_singleton.mp hleaf
          exact absurd hinside (Selection.not_holdsInside_of_isLeaf rfl)
  refine ⟨hasked, hok, ((agreeThroughout_added_iff parcelTypes parcelStitching.requirements
    hasked).2.2 _ hok).mpr ⟨fun entry hentry set hset => ?_, ?_⟩⟩
  · rcases hsets entry hentry set hset with rfl | rfl
    · exact compatible_of_isLeaf (by decide +kernel) (by decide +kernel)
    · exact compatible_of_isLeaf (by decide +kernel) (by decide +kernel)
  · intro entry hentry origin horigin selection hrequired set hset
    have hleaf : selection.isLeaf = true := by
      rcases hsets entry hentry origin horigin with rfl | rfl
      · exact (by decide +kernel : ∀ selection ∈ parcelStitching.requirements.onFields
          ⟨"Query", [.field { name := "me", selections := [.field { name := "shipping" }] }]⟩,
          selection.isLeaf = true) selection hrequired
      · exact (by decide +kernel : ∀ selection ∈ parcelStitching.requirements.onFields
          ⟨"User", [.field { name := "shipping" }]⟩, selection.isLeaf = true) selection hrequired
    exact absurd hset (Selection.not_holdsInside_of_isLeaf hleaf)

/-- Shipping brings the weight next to another field that the query has under its name. -/
theorem not_agreeThroughout_parcelQuery :
    let asked : List Field := [{ name := "shipping" }, { alias? := some "weight", name := "size" }]
    let given : List Field := asked ++ [{ name := "weight" }]
    Stitching.ofServices parcelServices = .ok parcelStitching ∧
      (∀ selections ∈ (parcelQuery asked).selectionSets, AgreeThroughout selections) ∧
      addFieldRequirements parcelTypes parcelStitching.requirements (parcelQuery asked) =
        .ok (parcelQuery given) ∧
      addRequirements parcelTypes parcelStitching.requirements (parcelQuery asked) =
        .ok (parcelQuery given) ∧
      ¬ ∀ selections ∈ (parcelQuery given).selectionSets, AgreeThroughout selections := by
  intro asked given
  have hfields : (addFieldRequirements parcelTypes parcelStitching.requirements
      (parcelQuery asked)).toOption = some (parcelQuery given) := by decide +kernel
  have hadded : (addRequirements parcelTypes parcelStitching.requirements
      (parcelQuery asked)).toOption = some (parcelQuery given) := by decide +kernel
  refine ⟨ofServices_parcelServices, forall_agreeThroughout_parcelQuery (by decide) (by decide),
    except_eq_ok_of_toOption hfields, except_eq_ok_of_toOption hadded, fun hall => ?_⟩
  have hagree := agreeThroughout_iff.mp (hall _ List.mem_cons_self)
  have hinside : Agree (given.map .field) := (hagree.2 _ List.mem_cons_self).1
  exact absurd hinside (by decide)

end Transform

end Gateway
