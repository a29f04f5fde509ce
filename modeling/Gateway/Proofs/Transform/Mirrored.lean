import Gateway.Proofs.Operation.Gather
import Gateway.Proofs.Schema.Overlap
import Gateway.Proofs.Transform.Filtered

/-!
# Gathering from filtered selections

Nodes are gathered for an object from selections and, on the other side, from what a filter leaves
of them. What is gathered there is what is left of the nodes (`Sides.map_placesOf`).

Both sides visit the same fragments of those that can be spread and apply to the object: where such
a fragment is spread, its condition overlaps with the type around it, so the spread is kept. A
fragment that cannot be spread is followed on one side only. But nothing is left of it, so gathering
from it mirrors gathering from nothing, and it spreads no fragment that could be spread.
-/

namespace Gateway.Transform

/-! ## Nodes that are left -/

namespace Filter

/-- What is left of a node of a type. -/
def node? (filter : Filter) (place : Place) : Option Field :=
  (filter.selection? place.parent (.field place.node)).bind Selection.asField?

/-- A node of which nothing is left. -/
inductive LeavesOut (filter : Filter) (place : Place) : Prop
  /-- Its type does not declare the field. -/
  | undeclared (named : place.node.name ≠ typenameField)
    (undeclared : filter.schema.field? place.parent place.node.name = none)
  /-- Nothing is left of the selections below it. -/
  | empty {definition : FieldDefinition} (named : place.node.name ≠ typenameField)
    (declared : filter.schema.field? place.parent place.node.name = some definition)
    (composite : filter.schema.isComposite definition.type.innerName = true)
    (empty : filter.filterAll definition.type.innerName place.node.selections = [])

variable {filter : Filter} {parent : Name}

/-- What is left of a field is a field with its directives, under its response key. -/
theorem Leaves.exists_field {node : Field} {kept : Selection}
    (h : filter.Leaves parent (.field node) kept) :
    ∃ left : Field, kept = .field left ∧ left.directives = node.directives ∧
      left.responseKey = node.responseKey := by
  cases h with
  | typename => exact ⟨_, rfl, rfl, rfl⟩
  | leaf => exact ⟨_, rfl, rfl, rfl⟩
  | composite => exact ⟨_, rfl, rfl, rfl⟩

/-- A node is left of a place when it is left of the field. -/
theorem selection?_field (parent : Name) (node : Field) :
    filter.selection? parent (.field node) = (filter.node? ⟨parent, node⟩).map .field := by
  unfold node?
  cases hkept : filter.selection? parent (.field node) with
  | none => rfl
  | some kept =>
    obtain ⟨left, rfl, -, -⟩ := (selection?_eq_some_iff.mp hkept).exists_field
    rfl

/-- What is left of a node has its directives and its response key. -/
theorem of_node? {node left : Field} (h : filter.node? ⟨parent, node⟩ = some left) :
    left.directives = node.directives ∧ left.responseKey = node.responseKey := by
  have hleaves : filter.Leaves parent (.field node) (.field left) := by
    rw [← selection?_eq_some_iff, selection?_field, h, Option.map_some]
  obtain ⟨other, hsame, hdirectives, hkey⟩ := hleaves.exists_field
  cases hsame
  exact ⟨hdirectives, hkey⟩

/-- Nothing is left of exactly these nodes. -/
theorem node?_eq_none_iff {place : Place} : filter.node? place = none ↔ filter.LeavesOut place := by
  obtain ⟨parent, node⟩ := place
  have hnone : filter.node? ⟨parent, node⟩ = none ↔
      filter.selection? parent (.field node) = none := by
    rw [selection?_field, Option.map_eq_none_iff]
  rw [hnone]
  constructor
  · intro h
    by_cases named : node.name = typenameField
    · rw [selection?_typename named] at h
      exact absurd h (by simp)
    · cases hdeclared : filter.schema.field? parent node.name with
      | none => exact .undeclared named hdeclared
      | some definition =>
        cases hcomposite : filter.schema.isComposite definition.type.innerName with
        | false =>
          rw [selection?_leaf named hdeclared hcomposite] at h
          exact absurd h (by simp)
        | true =>
          rw [selection?_composite named hdeclared hcomposite] at h
          refine .empty named hdeclared hcomposite ?_
          by_contra hleft
          rw [if_neg hleft] at h
          exact absurd h (by simp)
  · intro h
    cases h with
    | undeclared named undeclared => exact selection?_undeclared named undeclared
    | empty named declared composite empty =>
      rw [selection?_composite named declared composite, if_pos empty]

/-- A fragment that applies to an object is kept where the object can occur. -/
theorem applies_of_mem_possibleTypes {type condition : Name}
    (hparent : type ∈ filter.schema.possibleTypes parent)
    (hcondition : type ∈ filter.schema.possibleTypes condition) :
    filter.applies parent condition = true :=
  Bool.and_eq_true_iff.mpr ⟨Schema.hasType_of_mem_possibleTypes hcondition,
    Schema.typesOverlap_of_mem_possibleTypes hparent hcondition⟩

end Filter

/-! ## Fragments that have not been visited -/

/-- How many fragments have not been visited. -/
def unvisited (fragments : Entries Fragment) (visited : List Name) : Nat :=
  (fragments.filter fun entry => !visited.contains entry.1).length

/-- A visit leaves no more fragments. -/
theorem unvisited_cons_le (fragments : Entries Fragment) (visited : List Name) (name : Name) :
    unvisited fragments (name :: visited) ≤ unvisited fragments visited := by
  unfold unvisited
  rw [← List.countP_eq_length_filter, ← List.countP_eq_length_filter]
  refine List.countP_mono_left fun entry _ h => ?_
  simp only [List.contains_cons, Bool.not_or, Bool.and_eq_true] at h
  exact h.2

/-- The visit of a new fragment leaves fewer. -/
theorem unvisited_cons_lt {fragments : Entries Fragment} {visited : List Name} {name : Name}
    (hmem : name ∈ fragments.keys) (hnew : name ∉ visited) :
    unvisited fragments (name :: visited) < unvisited fragments visited := by
  obtain ⟨entry, hentry, rfl⟩ := List.mem_map.mp hmem
  unfold unvisited
  have hsub : (fragments.filter fun other => !(entry.1 :: visited).contains other.1) =
      (fragments.filter fun other => !visited.contains other.1).filter
        fun other => !(other.1 == entry.1) := by
    rw [List.filter_filter]
    refine List.filter_congr fun other _ => ?_
    rw [List.contains_cons, Bool.not_or]
  rw [hsub]
  refine List.length_filter_lt_length_iff_exists.mpr ⟨entry, ?_, by simp⟩
  exact List.mem_filter.mpr ⟨hentry, by simpa using hnew⟩

/-! ## Gathering from both sides -/

/-- What is needed to collect from selections and from what a filter leaves of them. -/
structure Sides (filter : Filter) (original filtered : Scope) : Prop where
  /-- Both sides have the schema of the filter. -/
  originalSchema : original.schema = filter.schema
  /-- Both sides have the schema of the filter. -/
  filteredSchema : filtered.schema = filter.schema
  /-- Both sides include the same selections. -/
  included : ∀ directives, filtered.includes directives filtered.vars =
    original.includes directives original.vars
  /-- The fragments that can be spread are among the original ones. -/
  found : ∀ name definition, filter.fragments.get? name = some definition →
    original.fragments.get? name = some definition
  /-- Nothing is left of the others that can apply to an object. -/
  dropped : ∀ name definition, original.fragments.get? name = some definition →
    filter.fragments.get? name = none → ∀ type ∈ filter.schema.possibleTypes definition.condition,
      filter.filterAll definition.condition definition.selections = []
  /-- The fragments on the other side are what is left of fragments. -/
  leftOf : ∀ name fragment, filtered.fragments.get? name = some fragment →
    ∃ definition, filter.fragments.get? name = some definition ∧
      filter.fragment definition = fragment
  /-- What they spread is there, too. -/
  closed : ∀ name fragment, filtered.fragments.get? name = some fragment →
    ∀ other ∈ usedFragmentsOfAll fragment.selections, other ∈ filtered.fragments.keys

/-- What is gathered from what is left mirrors what is gathered from the original selections; both
sides have only so many fragments to visit. -/
structure Mirrors (filter : Filter) (original filtered : Scope) (type : Name) (fuel fuel' : Nat)
    (gathered gathered' : Gathered) : Prop where
  /-- The nodes are what is left of the original ones. -/
  nodes : gathered'.places.map Place.node = gathered.places.filterMap filter.node?
  /-- Of the fragments that can be spread and apply, the same have been visited. -/
  visited : ∀ name definition, filter.fragments.get? name = some definition →
    type ∈ filter.schema.possibleTypes definition.condition →
      (name ∈ gathered'.visited ↔ name ∈ gathered.visited)
  /-- Not more fragments are left to visit than the fuel lasts for. -/
  bound : unvisited original.fragments gathered.visited ≤ fuel
  /-- Not more fragments are left to visit than the fuel lasts for. -/
  bound' : unvisited filtered.fragments gathered'.visited ≤ fuel'

namespace Mirrors

variable {filter : Filter} {original filtered : Scope} {type : Name} {fuel fuel' : Nat}
  {gathered gathered' : Gathered}

/-- The fuel may last for more. -/
theorem mono (h : Mirrors filter original filtered type fuel fuel' gathered gathered')
    {more more' : Nat} (hfuel : fuel ≤ more) (hfuel' : fuel' ≤ more') :
    Mirrors filter original filtered type more more' gathered gathered' :=
  { h with bound := Nat.le_trans h.bound hfuel, bound' := Nat.le_trans h.bound' hfuel' }

/-- A node and what is left of it are added. -/
theorem add (h : Mirrors filter original filtered type fuel fuel' gathered gathered')
    {parent : Name} {node kept : Field} (hkept : filter.node? ⟨parent, node⟩ = some kept) :
    Mirrors filter original filtered type fuel fuel' (gathered.add parent node)
      (gathered'.add parent kept) where
  nodes := by
    unfold Gathered.add
    rw [List.map_append, List.filterMap_append, h.nodes, List.filterMap_cons_some hkept]
    rfl
  visited := h.visited
  bound := h.bound
  bound' := h.bound'

/-- A node of which nothing is left is added. -/
theorem addLeftOut (h : Mirrors filter original filtered type fuel fuel' gathered gathered')
    {parent : Name} {node : Field} (hnone : filter.node? ⟨parent, node⟩ = none) :
    Mirrors filter original filtered type fuel fuel' (gathered.add parent node) gathered' where
  nodes := by
    unfold Gathered.add
    rw [List.filterMap_append, h.nodes, List.filterMap_cons_none hnone, List.filterMap_nil,
      List.append_nil]
  visited := h.visited
  bound := h.bound
  bound' := h.bound'

/-- A fragment is visited on both sides. -/
theorem visitBoth (h : Mirrors filter original filtered type fuel fuel' gathered gathered')
    (name : Name) :
    Mirrors filter original filtered type fuel fuel' (gathered.visit name)
      (gathered'.visit name) where
  nodes := h.nodes
  visited := by
    intro other definition hfound happlies
    unfold Gathered.visit
    rw [List.mem_cons, List.mem_cons, h.visited other definition hfound happlies]
  bound := Nat.le_trans (unvisited_cons_le _ _ _) h.bound
  bound' := Nat.le_trans (unvisited_cons_le _ _ _) h.bound'

/-- A fragment that cannot be spread or does not apply is visited on one side. -/
theorem visitOriginal (h : Mirrors filter original filtered type fuel fuel' gathered gathered')
    {name : Name} (hname : ∀ definition, filter.fragments.get? name = some definition →
      type ∉ filter.schema.possibleTypes definition.condition) :
    Mirrors filter original filtered type fuel fuel' (gathered.visit name) gathered' where
  nodes := h.nodes
  visited := by
    intro other definition hfound happlies
    have hother : other ≠ name := by
      rintro rfl
      exact hname definition hfound happlies
    unfold Gathered.visit
    rw [h.visited other definition hfound happlies, List.mem_cons]
    exact (or_iff_right hother).symm
  bound := Nat.le_trans (unvisited_cons_le _ _ _) h.bound
  bound' := h.bound'

/-- A fragment that cannot be spread or does not apply is visited on the other side. -/
theorem visitLeft (h : Mirrors filter original filtered type fuel fuel' gathered gathered')
    {name : Name} (hname : ∀ definition, filter.fragments.get? name = some definition →
      type ∉ filter.schema.possibleTypes definition.condition) :
    Mirrors filter original filtered type fuel fuel' gathered (gathered'.visit name) where
  nodes := h.nodes
  visited := by
    intro other definition hfound happlies
    have hother : other ≠ name := by
      rintro rfl
      exact hname definition hfound happlies
    unfold Gathered.visit
    rw [← h.visited other definition hfound happlies, List.mem_cons]
    exact or_iff_right hother
  bound := h.bound
  bound' := Nat.le_trans (unvisited_cons_le _ _ _) h.bound'

end Mirrors

/-- What is left of a selection comes before what is left of the others. -/
theorem Filter.filterAll_cons (filter : Filter) (parent : Name) (first : Selection)
    (rest : List Selection) :
    filter.filterAll parent (first :: rest) =
      (filter.selection? parent first).toList ++ filter.filterAll parent rest := by
  rw [filterAll]
  cases filter.selection? parent first <;> rfl

/-- How fragments are followed from both sides. -/
structure FollowsAlike (filter : Filter) (original filtered : Scope) (type : Name)
    (fuel fuel' : Nat) : Prop where
  /-- A fragment that cannot be spread is followed on one side. -/
  dropped : ∀ {name : Name} {definition : Fragment} {gathered gathered' : Gathered},
    original.fragments.get? name = some definition → filter.fragments.get? name = none →
      type ∈ filter.schema.possibleTypes definition.condition → name ∉ gathered.visited →
        Mirrors filter original filtered type fuel fuel' gathered gathered' →
          Mirrors filter original filtered type fuel fuel'
            (original.follow type fuel definition (gathered.visit name)) gathered'
  /-- A fragment that can be spread is followed on both sides. -/
  kept : ∀ {name : Name} {definition : Fragment} {gathered gathered' : Gathered},
    filter.fragments.get? name = some definition → name ∈ filtered.fragments.keys →
      type ∈ filter.schema.possibleTypes definition.condition → name ∉ gathered.visited →
        Mirrors filter original filtered type fuel fuel' gathered gathered' →
          Mirrors filter original filtered type fuel fuel'
            (original.follow type fuel definition (gathered.visit name))
            (filtered.follow type fuel' (filter.fragment definition) (gathered'.visit name))

section Gathering

variable {filter : Filter} {original filtered : Scope} {type : Name} {fuel fuel' : Nat}

/-- On both sides a fragment applies to the objects of the possible types of its condition. -/
theorem Sides.applies_iff (sides : Sides filter original filtered)
    (hobject : filter.schema.isObject type = true) (condition : Name) :
    (original.applies type (some condition) = true ↔
        type ∈ filter.schema.possibleTypes condition) ∧
      (filtered.applies type (some condition) = true ↔
        type ∈ filter.schema.possibleTypes condition) := by
  unfold Scope.applies
  rw [sides.originalSchema, sides.filteredSchema]
  exact ⟨Schema.fragmentApplies_iff hobject, Schema.fragmentApplies_iff hobject⟩

/-- Gathering from one selection and from what is left of it. -/
def Filter.Mirrored (filter : Filter) (original filtered : Scope) (type : Name)
    (fuel fuel' : Nat) (selection : Selection) : Prop :=
  ∀ {parent : Name} {gathered gathered' : Gathered}, type ∈ filter.schema.possibleTypes parent →
    (∀ name ∈ usedFragmentsOfAll (filter.selection? parent selection).toList,
      name ∈ filtered.fragments.keys) →
    Mirrors filter original filtered type fuel fuel' gathered gathered' →
      Mirrors filter original filtered type fuel fuel'
        (original.gatherSelection type (original.follow type fuel) parent selection gathered)
        (filtered.gatherSelections type (filtered.follow type fuel') parent
          (filter.selection? parent selection).toList gathered')

/-- Gathering from selections one by one. -/
theorem Mirrors.gatherSelections {selections : List Selection}
    (hall : ∀ selection ∈ selections,
      filter.Mirrored original filtered type fuel fuel' selection)
    {parent : Name} (hparent : type ∈ filter.schema.possibleTypes parent)
    (hkeys : ∀ name ∈ usedFragmentsOfAll (filter.filterAll parent selections),
      name ∈ filtered.fragments.keys) {gathered gathered' : Gathered}
    (h : Mirrors filter original filtered type fuel fuel' gathered gathered') :
    Mirrors filter original filtered type fuel fuel'
      (original.gatherSelections type (original.follow type fuel) parent selections gathered)
      (filtered.gatherSelections type (filtered.follow type fuel') parent
        (filter.filterAll parent selections) gathered') := by
  induction selections generalizing gathered gathered' with
  | nil => exact h
  | cons first rest ih =>
    rw [Filter.filterAll_cons, usedFragmentsOfAll_eq_flatMap, List.flatMap_append] at hkeys
    rw [Scope.gatherSelections, Filter.filterAll_cons, Scope.gatherSelections_append]
    refine ih (fun selection hmem => hall selection (List.mem_cons_of_mem _ hmem)) ?_
      (hall first List.mem_cons_self hparent ?_ h)
    · intro name hname
      rw [usedFragmentsOfAll_eq_flatMap] at hname
      exact hkeys name (List.mem_append_right _ hname)
    · intro name hname
      rw [usedFragmentsOfAll_eq_flatMap] at hname
      exact hkeys name (List.mem_append_left _ hname)

/-- What is gathered from a field is left when the field is. -/
theorem Filter.mirrored_field (sides : Sides filter original filtered) (node : Field) :
    filter.Mirrored original filtered type fuel fuel' (.field node) := by
  intro parent gathered gathered' _ _ h
  rw [Scope.gatherSelection_field, selection?_field]
  cases hkept : filter.node? ⟨parent, node⟩ with
  | none =>
    split
    · exact h.addLeftOut hkept
    · exact h
  | some kept =>
    change Mirrors _ _ _ _ _ _ _ (filtered.gatherSelection _ _ _ _ _)
    rw [Scope.gatherSelection_field, (of_node? hkept).1, sides.included]
    split
    · exact h.add hkept
    · exact h

/-- A spread of a fragment that can be spread and applies is kept, and followed on both sides. -/
theorem Filter.mirrored_spread_kept (sides : Sides filter original filtered)
    (hfollow : FollowsAlike filter original filtered type fuel fuel') {fragment : Name}
    {definition : Fragment} (hfound : filter.fragments.get? fragment = some definition)
    (hpossible : type ∈ filter.schema.possibleTypes definition.condition)
    (directives : List Directive) :
    filter.Mirrored original filtered type fuel fuel' (.spread fragment directives) := by
  intro parent gathered gathered' hparent hkeys h
  have happlies := sides.applies_iff (Schema.isObject_of_mem_possibleTypes hparent)
  have hkept : filter.selection? parent (.spread fragment directives) =
      some (.spread fragment directives) := by
    rw [selection?_spread hfound, if_pos (applies_of_mem_possibleTypes hparent hpossible)]
  rw [hkept] at hkeys ⊢
  change Mirrors _ _ _ _ _ _ _ (filtered.gatherSelection _ _ _ _ _)
  have hvisited := h.visited fragment definition hfound hpossible
  by_cases hskip : original.includes directives original.vars = true ∧
      fragment ∉ gathered.visited
  · have hkey : fragment ∈ filtered.fragments.keys := by
      refine hkeys fragment ?_
      rw [Option.toList_some, usedFragmentsOfAll, usedFragments]
      exact List.mem_cons_self
    obtain ⟨left, hleft⟩ := Entries.exists_get?_iff.mpr hkey
    obtain ⟨definition', hfound', rfl⟩ := sides.leftOf fragment left hleft
    cases hfound.symm.trans hfound'
    rw [Scope.gatherSelection_spread hskip.1 hskip.2, sides.found _ _ hfound,
      Scope.gatherSelection_spread (by rw [sides.included]; exact hskip.1)
        (hvisited.not.mpr hskip.2), hleft]
    dsimp only
    rw [if_pos ((happlies _).1.mpr hpossible),
      if_pos ((happlies (filter.fragment definition).condition).2.mpr hpossible)]
    exact hfollow.kept hfound hkey hpossible hskip.2 h
  · -- Both sides have visited the fragment, or neither includes the spread.
    rw [Scope.gatherSelection_spread_skip hskip, Scope.gatherSelection_spread_skip]
    · exact h
    · rw [sides.included, hvisited]
      exact hskip

section Elsewhere

variable {fragment : Name} (hother : ∀ definition,
  filter.fragments.get? fragment = some definition →
    type ∉ filter.schema.possibleTypes definition.condition)

include hother

/-- What is left of a spread of a fragment that cannot be spread or does not apply is visited at
most. -/
theorem Mirrors.spreadLeft (sides : Sides filter original filtered)
    (hobject : filter.schema.isObject type = true) (parent : Name) (directives : List Directive)
    {gathered gathered' : Gathered}
    (h : Mirrors filter original filtered type fuel fuel' gathered gathered') :
    Mirrors filter original filtered type fuel fuel' gathered
      (filtered.gatherSelections type (filtered.follow type fuel') parent
        (filter.selection? parent (.spread fragment directives)).toList gathered') := by
  cases hkept : filter.selection? parent (.spread fragment directives) with
  | none => exact h
  | some kept =>
    cases Filter.selection?_eq_some_iff.mp hkept with
    | spread =>
      change Mirrors _ _ _ _ _ _ _ (filtered.gatherSelection _ _ _ _ _)
      have helsewhere : ∀ left, filtered.fragments.get? fragment = some left →
          ¬ filtered.applies type (some left.condition) = true := by
        intro left hleft
        obtain ⟨definition, hfound, rfl⟩ := sides.leftOf fragment left hleft
        rw [(sides.applies_iff hobject _).2]
        exact hother definition hfound
      rcases Scope.gatherSelection_spread_elsewhere helsewhere with hsame | hvisit
      · rw [hsame]
        exact h
      · rw [hvisit]
        exact h.visitLeft hother

/-- Nothing is left of what is gathered from a spread of a fragment that cannot be spread or does
not apply. -/
theorem Filter.mirrored_spread_elsewhere (sides : Sides filter original filtered)
    (hfollow : FollowsAlike filter original filtered type fuel fuel')
    (directives : List Directive) :
    filter.Mirrored original filtered type fuel fuel' (.spread fragment directives) := by
  intro parent gathered gathered' hparent _ h
  have hobject := Schema.isObject_of_mem_possibleTypes hparent
  refine Mirrors.spreadLeft hother sides hobject parent directives ?_
  by_cases hskip : original.includes directives original.vars = true ∧
      fragment ∉ gathered.visited
  · rw [Scope.gatherSelection_spread hskip.1 hskip.2]
    cases hfound : original.fragments.get? fragment with
    | none => exact h.visitOriginal hother
    | some definition =>
      dsimp only
      split
      · rename_i hpossible
        rw [(sides.applies_iff hobject _).1] at hpossible
        -- It applies, so it is not among the fragments that can be spread.
        have hnone : filter.fragments.get? fragment = none := by
          rw [Option.eq_none_iff_forall_not_mem]
          intro definition' hfound'
          cases (sides.found _ _ hfound').symm.trans hfound
          exact hother definition hfound' hpossible
        exact hfollow.dropped hfound hnone hpossible hskip.2 h
      · exact h.visitOriginal hother
  · rw [Scope.gatherSelection_spread_skip hskip]
    exact h

end Elsewhere

/-- What is gathered from a spread is left: the fragment is followed on both sides, or nothing is
left of what is gathered from it. -/
theorem Filter.mirrored_spread (sides : Sides filter original filtered)
    (hfollow : FollowsAlike filter original filtered type fuel fuel') (fragment : Name)
    (directives : List Directive) :
    filter.Mirrored original filtered type fuel fuel' (.spread fragment directives) := by
  by_cases hkept : ∃ definition, filter.fragments.get? fragment = some definition ∧
      type ∈ filter.schema.possibleTypes definition.condition
  · obtain ⟨definition, hfound, hpossible⟩ := hkept
    exact mirrored_spread_kept sides hfollow hfound hpossible directives
  · exact mirrored_spread_elsewhere
      (fun definition hfound hpossible => hkept ⟨definition, hfound, hpossible⟩) sides hfollow
      directives

/-- What is gathered from an inline fragment is left when this holds for its selections. -/
theorem Filter.mirrored_inline (sides : Sides filter original filtered) (condition : Option Name)
    (directives : List Directive) {selections : List Selection}
    (hall : ∀ selection ∈ selections,
      filter.Mirrored original filtered type fuel fuel' selection) :
    filter.Mirrored original filtered type fuel fuel'
      (.inline condition directives selections) := by
  intro parent gathered gathered' hparent hkeys h
  have happlies := sides.applies_iff (Schema.isObject_of_mem_possibleTypes hparent)
  have hboth : filtered.applies type condition = original.applies type condition := by
    unfold Scope.applies
    rw [sides.originalSchema, sides.filteredSchema]
  rw [Scope.gatherSelection_inline]
  by_cases hin : (original.includes directives original.vars &&
      original.applies type condition) = true
  · rw [if_pos hin]
    obtain ⟨hincluded, hcondition⟩ := Bool.and_eq_true_iff.mp hin
    have hpossible : type ∈ filter.schema.possibleTypes (condition.getD parent) := by
      cases condition with
      | none => exact hparent
      | some name => exact (happlies name).1.mp hcondition
    have hstatic : ∀ name, condition = some name → filter.applies parent name = true := by
      rintro name rfl
      exact applies_of_mem_possibleTypes hparent hpossible
    rw [selection?_inline hstatic] at hkeys ⊢
    by_cases hempty : filter.filterAll (condition.getD parent) selections = []
    · rw [if_pos hempty]
      have hinner := Mirrors.gatherSelections hall hpossible (by
        rw [hempty]
        exact fun _ hname => absurd hname List.not_mem_nil) h
      rw [hempty] at hinner
      exact hinner
    · rw [if_neg hempty] at hkeys ⊢
      change Mirrors _ _ _ _ _ _ _ (filtered.gatherSelection _ _ _ _ _)
      rw [Scope.gatherSelection_inline, sides.included, hboth, if_pos hin]
      refine Mirrors.gatherSelections hall hpossible (fun name hname => hkeys name ?_) h
      rw [Option.toList_some, usedFragmentsOfAll, usedFragments]
      exact List.mem_append_left _ hname
  · rw [if_neg hin]
    cases hkept : filter.selection? parent (.inline condition directives selections) with
    | none => exact h
    | some kept =>
      cases selection?_eq_some_iff.mp hkept with
      | inline =>
        change Mirrors _ _ _ _ _ _ _ (filtered.gatherSelection _ _ _ _ _)
        rw [Scope.gatherSelection_inline, sides.included, hboth, if_neg hin]
        exact h

/-- Where fragments are followed alike, what is gathered from selections is left of them. -/
theorem Filter.mirrored (sides : Sides filter original filtered)
    (hfollow : FollowsAlike filter original filtered type fuel fuel') (selection : Selection) :
    filter.Mirrored original filtered type fuel fuel' selection := by
  induction selection using Selection.nestedInduction with
  | field node => exact mirrored_field sides node
  | spread fragment directives => exact mirrored_spread sides hfollow fragment directives
  | inline condition directives selections ih => exact mirrored_inline sides condition directives ih

/-- Fragments are followed alike for all fuels: each new fragment leaves fewer to visit. -/
theorem Sides.followsAlike (sides : Sides filter original filtered) (fuel fuel' : Nat) :
    FollowsAlike filter original filtered type fuel fuel' := by
  induction fuel generalizing fuel' with
  | zero =>
    -- No known fragment is new when there is no fuel.
    have hnone : ∀ {name : Name} {definition : Fragment} {gathered gathered' : Gathered},
        original.fragments.get? name = some definition → name ∉ gathered.visited →
          ¬ Mirrors filter original filtered type 0 fuel' gathered gathered' := by
      intro name definition gathered gathered' hfound hnew h
      have hless := unvisited_cons_lt (Entries.exists_get?_iff.mp ⟨definition, hfound⟩) hnew
      exact absurd (Nat.lt_of_lt_of_le hless h.bound) (Nat.not_lt_zero _)
    exact ⟨fun hfound _ _ hnew h => absurd h (hnone hfound hnew),
      fun hfound _ _ hnew h => absurd h (hnone (sides.found _ _ hfound) hnew)⟩
  | succ fuel ih =>
    have hfewer : ∀ {name : Name} {definition : Fragment} {gathered : Gathered},
        original.fragments.get? name = some definition → name ∉ gathered.visited →
          unvisited original.fragments gathered.visited ≤ fuel + 1 →
            unvisited original.fragments (gathered.visit name).visited ≤ fuel := by
      intro name definition gathered hfound hnew hbound
      have hless := unvisited_cons_lt (Entries.exists_get?_iff.mp ⟨definition, hfound⟩) hnew
      exact Nat.le_of_lt_succ (Nat.lt_of_lt_of_le hless hbound)
    constructor
    · intro name definition gathered gathered' hfound hnone hpossible hnew h
      have hother : ∀ definition, filter.fragments.get? name = some definition →
          type ∉ filter.schema.possibleTypes definition.condition :=
        fun definition hsome => absurd (hnone.symm.trans hsome) (by simp)
      have hvisit := { h.visitOriginal hother with
        bound := hfewer hfound hnew h.bound : Mirrors filter original filtered type fuel fuel' _ _ }
      have hempty := sides.dropped name definition hfound hnone type hpossible
      have hinner := Mirrors.gatherSelections
        (fun selection _ => Filter.mirrored sides (ih fuel') selection) hpossible
        (by rw [hempty]; exact fun _ hname => absurd hname List.not_mem_nil) hvisit
      rw [hempty] at hinner
      exact hinner.mono (Nat.le_succ fuel) (Nat.le_refl fuel')
    · intro name definition gathered gathered' hfound hkey hpossible hnew h
      have hnew' : name ∉ gathered'.visited := (h.visited _ _ hfound hpossible).not.mpr hnew
      have hless := unvisited_cons_lt hkey hnew'
      cases fuel' with
      | zero => exact absurd (Nat.lt_of_lt_of_le hless h.bound') (Nat.not_lt_zero _)
      | succ fuel' =>
        have hvisit := { h.visitBoth name with
          bound := hfewer (sides.found _ _ hfound) hnew h.bound
          bound' := Nat.le_of_lt_succ (Nat.lt_of_lt_of_le hless h.bound') :
            Mirrors filter original filtered type fuel fuel' _ _ }
        obtain ⟨left, hleft⟩ := Entries.exists_get?_iff.mpr hkey
        obtain ⟨definition', hfound', rfl⟩ := sides.leftOf name left hleft
        cases hfound.symm.trans hfound'
        have hinner := Mirrors.gatherSelections
          (fun selection _ => Filter.mirrored sides (ih fuel') selection) hpossible
          (sides.closed name _ hleft) hvisit
        exact hinner.mono (Nat.le_succ fuel) (Nat.le_succ fuel')

/-- The nodes of what is left of selections are what is left of their nodes. -/
theorem Sides.map_placesOf (sides : Sides filter original filtered) {parent : Name}
    (hparent : type ∈ filter.schema.possibleTypes parent) {selections : List Selection}
    (hkeys : ∀ name ∈ usedFragmentsOfAll (filter.filterAll parent selections),
      name ∈ filtered.fragments.keys) :
    (filtered.placesOf type parent (filter.filterAll parent selections)).map Place.node =
      (original.placesOf type parent selections).filterMap filter.node? := by
  have hstart : Mirrors filter original filtered type original.fragments.length
      filtered.fragments.length {} {} :=
    ⟨rfl, fun _ _ _ _ => Iff.rfl, List.length_filter_le _ _, List.length_filter_le _ _⟩
  exact (Mirrors.gatherSelections
    (fun selection _ => Filter.mirrored sides (sides.followsAlike _ _) selection)
    hparent hkeys hstart).nodes

end Gathering

end Gateway.Transform
