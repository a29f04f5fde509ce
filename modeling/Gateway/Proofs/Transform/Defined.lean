import Gateway.Proofs.Transform.Gapless
import Mathlib.Data.Set.List

/-!
# Definitions of an expanded document

An expanded document has the definitions of the document in front, with other selections, and behind
them one fragment for each fragment on a replaced type and each type that takes the place of this
one (`Expansion.pairs`, `Transform.expandAbstract_defines`). All fragments have different names, and
what is spread is defined: a spread is left, or it becomes one of a new fragment
(`Expander.exists_of_occurs_spread`), whatever names the document uses.
-/

namespace Gateway

/-- Every spread is of a fragment that the document defines. -/
def Document.SpreadsDefined (document : Document) : Prop :=
  ∀ selections ∈ document.selectionSets, ∀ name directives,
    Occurs (.spread name directives) selections → name ∈ document.fragments.map Fragment.name

/-- A definition without its selections. -/
def Definition.heading : Definition → Definition
  | .operation asked => .operation { asked with selections := [] }
  | .fragment asked => .fragment { asked with selections := [] }
  | .typeSystem described => .typeSystem described

/-- Revised definitions differ in their selections only. -/
theorem Document.headings_revise {schema : Schema}
    {revise : Option Name → Name → List Selection → List Selection} {root? : Option Name}
    {document output : Document}
    (h : Document.revise schema revise root? document = .ok output) :
    output.map Definition.heading = document.map Definition.heading := by
  replace h := revises_of_revise h
  induction h with
  | nil => rfl
  | operation _ _ ih => exact congrArg (List.cons _) ih
  | fragment _ ih => exact congrArg (List.cons _) ih
  | typeSystem _ ih => exact congrArg (List.cons _) ih

/-- Fragments that are added to a document are no operations. -/
theorem Document.operations_append (document : Document) (more : List Fragment) :
    Document.operations (document ++ more.map Definition.fragment) = document.operations := by
  unfold Document.operations
  rw [List.filterMap_append, List.filterMap_map]
  have hnone : more.filterMap (fun _ => (none : Option Operation)) = [] :=
    List.filterMap_eq_nil_iff.mpr fun _ _ => rfl
  exact (congrArg (_ ++ ·) hnone).trans (List.append_nil _)

/-- Only fragments have the heading of a fragment. -/
theorem Definition.exists_of_heading_eq {definition : Definition} {fragment : Fragment}
    (h : definition.heading = (Definition.fragment fragment).heading) :
    ∃ other, definition = .fragment other := by
  cases definition with
  | operation asked => cases h
  | fragment asked => exact ⟨asked, rfl⟩
  | typeSystem described => cases h

namespace Transform

/-! ## New fragments -/

namespace Expansion

/-- The fragments on replaced types, each with each of the types that take the place of its own. -/
def pairs (expansion : Expansion) (fragments : List Fragment) : List (Fragment × Name) :=
  fragments.flatMap fun fragment =>
    ((expansion.get? fragment.condition).getD []).map (Prod.mk fragment)

/-- The pairs of one more fragment come last. -/
theorem pairs_append_singleton (expansion : Expansion) (fragments : List Fragment)
    (last : Fragment) :
    expansion.pairs (fragments ++ [last]) = expansion.pairs fragments ++
      ((expansion.get? last.condition).getD []).map (Prod.mk last) := by
  unfold pairs
  rw [List.flatMap_append, List.flatMap_singleton]

/-- In a pair is one of the fragments. -/
theorem fst_mem_of_mem_pairs {expansion : Expansion} {fragments : List Fragment}
    {pair : Fragment × Name} (h : pair ∈ expansion.pairs fragments) : pair.1 ∈ fragments := by
  obtain ⟨fragment, hmem, hpair⟩ := List.mem_flatMap.mp h
  obtain ⟨_, -, rfl⟩ := List.mem_map.mp hpair
  exact hmem

/-- No pair occurs twice. -/
theorem nodup_pairs {source target : Schema} {fragments : List Fragment}
    (hsource : (source.types.map TypeDefinition.name).Nodup)
    (hdistinct : (fragments.map Fragment.name).Nodup) :
    ((between source target).pairs fragments).Nodup := by
  refine List.nodup_flatMap.mpr ⟨fun fragment _ => ?_, ?_⟩
  · refine List.Nodup.map (fun _ _ h => (Prod.mk.inj h).2) ?_
    cases htypes : (between source target).get? fragment.condition with
    | none => exact List.nodup_nil
    | some types => exact nodup_between hsource htypes
  · refine (List.Nodup.of_map _ hdistinct).imp ?_
    intro fragment other hne pair hpair hother
    obtain ⟨_, -, rfl⟩ := List.mem_map.mp hpair
    obtain ⟨_, -, hsame⟩ := List.mem_map.mp hother
    exact hne (Prod.mk.inj hsame).1.symm

end Expansion

namespace Replacements

/-- For a fragment is defined one new fragment on each of the types that take the place of its
own. -/
theorem exists_definitions_addFragment (expansion : Expansion) (replacements : Replacements)
    (fragment : Fragment) :
    ∃ copies : List Replacement,
      (replacements.addFragment expansion fragment).definitions =
        replacements.definitions ++ copies.map fragment.narrowed ∧
      copies.map Replacement.type = (expansion.get? fragment.condition).getD [] := by
  unfold addFragment
  cases expansion.get? fragment.condition with
  | none => exact ⟨[], (List.append_nil _).symm, rfl⟩
  | some types =>
    obtain ⟨copies, htypes, hadds⟩ := exists_adds fragment _ types
    exact ⟨copies, hadds.definitions, htypes⟩

/-- The new fragments of a document narrow its fragments pair by pair. -/
theorem exists_definitions_ofDocument (expansion : Expansion) (document : Document) :
    ∃ made : List (Fragment × Replacement),
      (ofDocument expansion document).definitions =
        made.map (fun entry => entry.1.narrowed entry.2) ∧
      made.map (fun entry => (entry.1, entry.2.type)) = expansion.pairs document.fragments := by
  unfold ofDocument
  suffices h : ∀ fragments : List Fragment, ∃ made : List (Fragment × Replacement),
      (fragments.foldl (addFragment expansion)
        { names := document.fragments.map Fragment.name }).definitions =
          made.map (fun entry => entry.1.narrowed entry.2) ∧
      made.map (fun entry => (entry.1, entry.2.type)) = expansion.pairs fragments from h _
  intro fragments
  induction fragments using List.reverseRecOn with
  | nil => exact ⟨[], rfl, rfl⟩
  | append_singleton fragments last ih =>
    obtain ⟨made, hdefinitions, hpairs⟩ := ih
    rw [List.foldl_append]
    obtain ⟨copies, hcopies, htypes⟩ := exists_definitions_addFragment expansion
      (fragments.foldl (addFragment expansion)
        { names := document.fragments.map Fragment.name }) last
    refine ⟨made ++ copies.map (Prod.mk last), ?_, ?_⟩
    · rw [List.foldl_cons, List.foldl_nil, hcopies, hdefinitions, List.map_append, List.map_map]
      rfl
    · rw [Expansion.pairs_append_singleton, ← hpairs, ← htypes, List.map_append, List.map_map,
        List.map_map]
      rfl

end Replacements

/-! ## Spreads -/

namespace Expander

variable {expander : Expander} {parent name : Name} {directives : List Directive}

/-- A spread stands for another one: it is the same, or of a fragment that takes the place of its
fragment. -/
def Redirects (expander : Expander) (asked name : Name) : Prop :=
  name = asked ∨ ∃ copies, expander.replacements.get? asked = some copies ∧
    name ∈ copies.map Replacement.name

/-- A spread that occurs in an expanded selection set comes from one that occurs in it, when this is
so for its selections. -/
theorem exists_of_occurs_spread_of_forall {selections : List Selection}
    (hall : ∀ first ∈ selections,
      Occurs (.spread name directives) (expander.selection parent first) →
        ∃ asked, Occurs (.spread asked directives) [first] ∧ expander.Redirects asked name)
    (h : Occurs (.spread name directives) (expander.selections parent selections)) :
    ∃ asked, Occurs (.spread asked directives) selections ∧ expander.Redirects asked name := by
  obtain ⟨made, hmade, hoccurs⟩ := occurs_iff_exists.mp h
  rcases exists_of_mem_selections hmade with ⟨first, hfirst, hmem⟩ | rfl
  · obtain ⟨asked, hasked, hredirects⟩ :=
      hall first hfirst (occurs_iff_exists.mpr ⟨made, hmem, hoccurs⟩)
    exact ⟨asked, occurs_iff_exists.mpr ⟨first, hfirst, hasked⟩, hredirects⟩
  · -- The meta field holds no spread.
    rcases occurs_field_iff.mp hoccurs with hsame | hoccurs
    · cases hsame
    · exact absurd hoccurs not_occurs_nil

/-- A spread that occurs in what takes the place of a selection comes from one that occurs in the
selection. -/
theorem exists_of_occurs_spread (selection : Selection) (parent : Name)
    (h : Occurs (.spread name directives) (expander.selection parent selection)) :
    ∃ asked, Occurs (.spread asked directives) [selection] ∧ expander.Redirects asked name := by
  induction selection using Selection.nestedInduction generalizing parent with
  | field node ih =>
    rw [selection_field] at h
    rcases occurs_field_iff.mp h with hsame | hoccurs
    · cases hsame
    unfold Expander.node at hoccurs
    split at hoccurs
    next type first rest _ hselections =>
      obtain ⟨asked, hasked, hredirects⟩ := exists_of_occurs_spread_of_forall
        (fun inner hinner => ih inner (hselections ▸ hinner) type) hoccurs
      exact ⟨asked, occurs_field_iff.mpr (.inr (hselections ▸ hasked)), hredirects⟩
    next => exact ⟨name, occurs_field_iff.mpr (.inr hoccurs), .inl rfl⟩
  | spread asked directives' =>
    rw [selection] at h
    cases hcopies : expander.replacements.get? asked with
    | none =>
      rw [hcopies] at h
      exact ⟨name, h, .inl rfl⟩
    | some copies =>
      rw [hcopies] at h
      obtain ⟨made, hmade, hoccurs⟩ := occurs_iff_exists.mp h
      obtain ⟨copy, hcopy, rfl⟩ := List.mem_map.mp hmade
      cases occurs_spread_iff.mp hoccurs
      exact ⟨asked, .here List.mem_cons_self,
        .inr ⟨copies, hcopies, List.mem_map_of_mem (List.mem_filter.mp hcopy).1⟩⟩
  | inline condition directives' inner ih =>
    -- Whatever its condition becomes, the selections inside are expanded on this.
    have hinside : ∀ condition' type,
        Occurs (.spread name directives)
          [.inline condition' directives' (expander.selections type inner)] →
        ∃ asked, Occurs (.spread asked directives) [.inline condition directives' inner] ∧
          expander.Redirects asked name := by
      intro condition' type hoccurs
      rcases occurs_inline_iff.mp hoccurs with hsame | hoccurs
      · cases hsame
      · obtain ⟨asked, hasked, hredirects⟩ := exists_of_occurs_spread_of_forall
          (fun first hfirst => ih first hfirst type) hoccurs
        exact ⟨asked, occurs_inline_iff.mpr (.inr hasked), hredirects⟩
    cases condition with
    | none =>
      rw [selection] at h
      exact hinside _ _ h
    | some condition =>
      rw [selection] at h
      cases htypes : expander.expansion.get? condition with
      | none =>
        rw [htypes] at h
        exact hinside _ _ h
      | some types =>
        rw [htypes] at h
        obtain ⟨made, hmade, hoccurs⟩ := occurs_iff_exists.mp h
        obtain ⟨type, -, rfl⟩ := List.mem_map.mp hmade
        exact hinside _ _ hoccurs

/-- A spread that occurs in an expanded selection set comes from one that occurs in it. -/
theorem exists_of_occurs_spread_selections {selections : List Selection}
    (h : Occurs (.spread name directives) (expander.selections parent selections)) :
    ∃ asked, Occurs (.spread asked directives) selections ∧ expander.Redirects asked name :=
  exists_of_occurs_spread_of_forall (fun first _ => exists_of_occurs_spread first parent) h

end Expander

/-! ## Expanded documents -/

section Document

variable {source target : Schema} {document output : Document}

/-- The new fragments are behind the definitions of the document, which have other selections. -/
theorem exists_added_of_expandAbstract
    (h : expandAbstract source target document = .ok output) :
    ∃ own added, output = own ++ List.map Definition.fragment added ∧
      own.map Definition.heading = document.map Definition.heading ∧
      added = (Replacements.ofDocument (Expansion.between source target) document).definitions.map
        (Expander.ofDocument source target document).fragment := by
  have hfragments := Expander.fragments_expandAbstract h
  rcases Expander.expandAbstract_cases h with ⟨-, rfl⟩ | ⟨-, hrevise⟩
  · -- Nothing is expanded, so there are no new fragments.
    have hlength := congrArg List.length hfragments
    rw [List.length_map, List.length_append, Nat.left_eq_add, List.length_eq_zero_iff] at hlength
    exact ⟨output, [], (List.append_nil _).symm, rfl, by rw [hlength, List.map_nil]⟩
  · have hheadings := Document.headings_revise hrevise
    rw [List.map_append] at hheadings
    obtain ⟨own, rest, rfl, hown, hrest⟩ := List.map_eq_append_iff.mp hheadings
    -- What has the headings of fragments consists of fragments.
    obtain ⟨added, rfl⟩ : rest ∈ Set.range (List.map Definition.fragment) := by
      rw [Set.range_list_map]
      intro definition hmem
      have hheading := List.mem_map_of_mem (f := Definition.heading) hmem
      rw [hrest] at hheading
      obtain ⟨other, hother, hheading⟩ := List.mem_map.mp hheading
      obtain ⟨fragment, -, rfl⟩ := List.mem_map.mp hother
      exact (Definition.exists_of_heading_eq hheading.symm).imp fun _ h => h.symm
    refine ⟨own, added, rfl, hown, ?_⟩
    rw [Document.fragments_append, List.map_append] at hfragments
    have hlength := congrArg List.length hrest
    simp only [List.length_map] at hlength
    exact (List.append_inj' hfragments (by rw [List.length_map]; exact hlength)).2

/-- A selection set of an expanded document is one of the document, expanded or not. -/
theorem exists_origin_of_expandAbstract
    (h : expandAbstract source target document = .ok output) {selections : List Selection}
    (hmem : selections ∈ output.selectionSets) :
    ∃ original ∈ document.selectionSets, selections = original ∨
      ∃ parent, selections = (Expander.ofDocument source target document).selections parent
        original := by
  rcases List.mem_append.mp hmem with hselections | hselections
  · obtain ⟨operation, hoperation, rfl⟩ := List.mem_map.mp hselections
    rcases Expander.expandAbstract_cases h with ⟨-, rfl⟩ | ⟨-, hrevise⟩
    · exact ⟨_, List.mem_append_left _ (List.mem_map_of_mem hoperation), .inl rfl⟩
    · rw [Document.operations_revise hrevise, Document.operations_append] at hoperation
      obtain ⟨original, horiginal, rfl⟩ := List.mem_map.mp hoperation
      refine ⟨original.selections, List.mem_append_left _ (List.mem_map_of_mem horiginal), ?_⟩
      cases hroot : target.root? original.kind with
      | none => exact .inl rfl
      | some root => exact .inr ⟨root, rfl⟩
  · obtain ⟨fragment, hfragment, rfl⟩ := List.mem_map.mp hselections
    rw [Expander.fragments_expandAbstract h] at hfragment
    obtain ⟨original, horiginal, rfl⟩ := List.mem_map.mp hfragment
    -- A new fragment has the selections of the one that it narrows.
    obtain ⟨defined, hdefined, hsame⟩ : ∃ defined ∈ document.fragments,
        original.selections = defined.selections := by
      rcases List.mem_append.mp horiginal with hown | hnew
      · exact ⟨original, hown, rfl⟩
      · obtain ⟨made, hmade, hpairs⟩ := Replacements.exists_definitions_ofDocument
          (Expansion.between source target) document
        rw [hmade] at hnew
        obtain ⟨entry, hentry, rfl⟩ := List.mem_map.mp hnew
        have hpair : (entry.1, entry.2.type) ∈
            (Expansion.between source target).pairs document.fragments :=
          hpairs ▸ List.mem_map_of_mem hentry
        exact ⟨entry.1, Expansion.fst_mem_of_mem_pairs hpair, rfl⟩
    exact ⟨defined.selections, List.mem_append_right _ (List.mem_map_of_mem hdefined),
      .inr ⟨original.condition, hsame ▸ rfl⟩⟩

/-- The names of the fragments are those of the document, followed by those of the new ones. -/
theorem map_name_expandAbstract (h : expandAbstract source target document = .ok output) :
    output.fragments.map Fragment.name = document.fragments.map Fragment.name ++
      (Replacements.ofDocument (Expansion.between source target) document).definitions.map
        Fragment.name := by
  rw [Expander.fragments_expandAbstract h, List.map_map, ← List.map_append]
  rfl

/-- What is spread in an expanded document is defined in it, when this is so in the document. -/
theorem spreadsDefined_expandAbstract
    (hdistinct : (document.fragments.map Fragment.name).Nodup) (hdefined : document.SpreadsDefined)
    (h : expandAbstract source target document = .ok output) : output.SpreadsDefined := by
  intro selections hmem name directives hoccurs
  obtain ⟨original, horiginal, hselections⟩ := exists_origin_of_expandAbstract h hmem
  -- Whether it is expanded or not, a spread comes from one in the document.
  obtain ⟨asked, hasked, hredirects⟩ : ∃ asked, Occurs (.spread asked directives) original ∧
      (Expander.ofDocument source target document).Redirects asked name := by
    rcases hselections with rfl | ⟨parent, rfl⟩
    · exact ⟨name, hoccurs, .inl rfl⟩
    · exact Expander.exists_of_occurs_spread_selections hoccurs
  rw [map_name_expandAbstract h]
  rcases hredirects with rfl | ⟨copies, hcopies, hname⟩
  · exact List.mem_append_left _ (hdefined original horiginal name directives hasked)
  · obtain ⟨made, hmade⟩ := Replacements.exists_made (Expansion.between source target) hdistinct
    obtain ⟨fragment, -, -, -, hlisted⟩ := hmade.exists_replaced hcopies
    obtain ⟨copy, hcopy, rfl⟩ := List.mem_map.mp hname
    have hnew : fragment.narrowed copy ∈
        (Replacements.ofDocument (Expansion.between source target) document).definitions :=
      hmade.definitions ▸ List.mem_map_of_mem (hlisted copy hcopy)
    exact List.mem_append_right _ (List.mem_map_of_mem (f := Fragment.name) hnew)

end Document

/-- A document whose fragments have different names and whose spreads are all defined is such a
document again when its abstract types are expanded. Its own definitions keep their headings, in
order. Behind them there is exactly one new fragment for each fragment on an expanded type and each
type that takes the place of this one: the fragment narrowed to the type, and expanded. -/
theorem expandAbstract_defines {source target : Schema} {document output : Document}
    (hsource : (source.types.map TypeDefinition.name).Nodup)
    (hdistinct : (document.fragments.map Fragment.name).Nodup) (hdefined : document.SpreadsDefined)
    (h : expandAbstract source target document = .ok output) :
    (output.fragments.map Fragment.name).Nodup ∧ output.SpreadsDefined ∧
      ((Expansion.between source target).pairs document.fragments).Nodup ∧
      ∃ own added, output = own ++ List.map Definition.fragment added ∧
        own.map Definition.heading = document.map Definition.heading ∧
        List.Forall₂
          (fun pair new => new = (Expander.ofDocument source target document).fragment
            (pair.1.narrowed ⟨new.name, pair.2⟩))
          ((Expansion.between source target).pairs document.fragments) added := by
  obtain ⟨own, added, hsplit, hown, hadded⟩ := exists_added_of_expandAbstract h
  obtain ⟨made, hmade, hpairs⟩ := Replacements.exists_definitions_ofDocument
    (Expansion.between source target) document
  refine ⟨Expander.nodup_expandAbstract hdistinct h,
    spreadsDefined_expandAbstract hdistinct hdefined h, Expansion.nodup_pairs hsource hdistinct,
    own, added, hsplit, hown, ?_⟩
  rw [hadded, hmade, ← hpairs, List.map_map, List.forall₂_map_left_iff, List.forall₂_map_right_iff,
    List.forall₂_same]
  exact fun _ _ => rfl

/-- A query of a node, with a fragment on nodes that has the name a new fragment would get first. -/
def takenQuery : Document := [
  .operation
    { selections := [.field { name := "node", selections := [.spread "_User_Fragment0" []] }] },
  .fragment
    { name := "_User_Fragment0", condition := "Node", selections := [.field { name := "id" }] }]

/-- The new fragment gets the next name, and is spread in place of the other one. -/
theorem expandAbstract_defines_takenQuery :
    (nodeSchema.types.map TypeDefinition.name).Nodup ∧
      (takenQuery.fragments.map Fragment.name).Nodup ∧ takenQuery.SpreadsDefined ∧
      ∃ output, expandAbstract nodeSchema flatSchema takenQuery = .ok output ∧
        output.fragments.map Fragment.name = ["_User_Fragment0", "_User_Fragment1"] ∧
        output.SpreadsDefined ∧
        Occurs (.spread "_User_Fragment1" []) (output.operations.flatMap Operation.selections) := by
  have hsource : (nodeSchema.types.map TypeDefinition.name).Nodup := by decide
  have hdistinct : (takenQuery.fragments.map Fragment.name).Nodup := by decide
  have hdefined : takenQuery.SpreadsDefined := by
    intro selections hmem name directives hoccurs
    rcases List.mem_pair.mp hmem with rfl | rfl
    · rcases occurs_field_iff.mp hoccurs with hsame | hoccurs
      · cases hsame
      · cases occurs_spread_iff.mp hoccurs
        exact List.mem_singleton_self _
    · rcases occurs_field_iff.mp hoccurs with hsame | hoccurs
      · cases hsame
      · exact absurd hoccurs not_occurs_nil
  obtain ⟨output, houtput⟩ :
      ∃ output, expandAbstract nodeSchema flatSchema takenQuery = .ok output := ⟨_, rfl⟩
  have hspread :
      Occurs (.spread "_User_Fragment1" []) (output.operations.flatMap Operation.selections) := by
    cases houtput
    exact occurs_field_iff.mpr (.inr (.here List.mem_cons_self))
  refine ⟨hsource, hdistinct, hdefined, output, houtput, ?_,
    (expandAbstract_defines hsource hdistinct hdefined houtput).2.1, hspread⟩
  cases houtput
  rfl

end Transform

end Gateway
