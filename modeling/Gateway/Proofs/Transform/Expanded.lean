import Gateway.Proofs.Transform.Mirrored
import Gateway.Proofs.Transform.Replaced

/-!
# Gathering from expanded selections

Nodes are gathered for an object from selections and, on the other side, from what an expander makes
of them. What is gathered there are the same nodes, each expanded in turn, apart from meta fields
(`Expander.Scopes.expandsTo_placesOf`).

Of the inline fragments that take the place of one, exactly that on the type of the object applies,
if its type is among them; and so it is with the spreads that take the place of one. Both sides
visit the same fragments, where a fragment that has been replaced stands for its copy on the type of
the object. A spread must not have the name of such a copy itself
(`Expander.Suits`), or the copy could be visited without the fragment.
-/

namespace Gateway.Transform

/-- Whether the node is the meta field without alias. -/
def isMeta (node : Field) : Bool :=
  node.name = typenameField && node.responseKey = typenameField

/-- The nodes other than meta fields. -/
def ordinary (nodes : List Field) : List Field :=
  nodes.filter fun node => !isMeta node

/-- The same object types are possible in both schemas for a type that is abstract in the target. -/
def AgreeOn (source target : Schema) (condition : Name) : Prop :=
  target.isAbstract condition = true →
    ∀ type, type ∈ source.possibleTypes condition ↔ type ∈ target.possibleTypes condition

namespace Expander

/-! ## Expanded nodes -/

/-- The node that takes the place of a node that is selected from a type. -/
def node (expander : Expander) (parent : Name) (node : Field) : Field :=
  match expander.schema.fieldTypeName? parent node.name, node.selections with
  | some type, first :: rest =>
    { node with selections := expander.selections type (first :: rest) }
  | _, _ => node

/-- The fragment with its selections expanded. -/
def fragment (expander : Expander) (fragment : Fragment) : Fragment :=
  { fragment with selections := expander.selections fragment.condition fragment.selections }

/-- On objects of the type a node is selected with what takes the place of its selections. -/
def ExpandsTo (expander : Expander) (type : Name) (original expanded : Field) : Prop :=
  ∃ parent, type ∈ expander.schema.possibleTypes parent ∧ expanded = expander.node parent original

section Node

variable {expander : Expander} {parent : Name}

/-- A field is replaced by its expanded node. -/
theorem selection_field (node : Field) :
    expander.selection parent (.field node) = [.field (expander.node parent node)] := by
  obtain ⟨alias?, name, arguments, directives, selections⟩ := node
  unfold selection Expander.node
  dsimp only
  cases expander.schema.fieldTypeName? parent name <;> cases selections <;> rfl

/-- Only the selections of a node are changed. -/
theorem node_fixed (node : Field) :
    (expander.node parent node).alias? = node.alias? ∧
      (expander.node parent node).name = node.name ∧
      (expander.node parent node).directives = node.directives := by
  unfold Expander.node
  split <;> exact ⟨rfl, rfl, rfl⟩

/-- An expanded node has the response key of the node. -/
theorem responseKey_node (node : Field) :
    (expander.node parent node).responseKey = node.responseKey := by
  unfold FieldOf.responseKey
  rw [(node_fixed node).1, (node_fixed node).2.1]

/-- An expanded node is the meta field when the node is. -/
theorem isMeta_node (node : Field) : isMeta (expander.node parent node) = isMeta node := by
  unfold isMeta
  rw [responseKey_node, (node_fixed node).2.1]

end Node

/-! ## Both sides -/

/-- A name is that of a new fragment. -/
def IsCopy (expander : Expander) (name : Name) : Prop :=
  ∃ replaced copies, expander.replacements.get? replaced = some copies ∧
    ∃ copy ∈ copies, copy.name = name

/-- Selections that an expander can deal with: both schemas agree on their conditions, and none of
their spreads has the name of a new fragment. -/
structure Suits (expander : Expander) (source : Schema) (selections : List Selection) : Prop where
  /-- The schemas agree on the conditions. -/
  conditions : ∀ condition directives inner,
    Occurs (.inline (some condition) directives inner) selections →
      AgreeOn source expander.schema condition
  /-- No spread has the name of a new fragment. -/
  spreads : ∀ fragment directives, Occurs (.spread fragment directives) selections →
    ¬ expander.IsCopy fragment

/-- What is needed to collect from selections and from what an expander makes of them, for objects
of a type. -/
structure Scopes (expander : Expander) (original expanded : Scope) (type : Name) : Prop where
  /-- The expanded selections are for the schema of the expander. -/
  schema : expanded.schema = expander.schema
  /-- Both sides include the same selections. -/
  included : ∀ directives, expanded.includes directives expanded.vars =
    original.includes directives original.vars
  /-- The type is an object type of both schemas. -/
  object : original.schema.isObject type = true
  /-- The type is an object type of both schemas. -/
  expandedObject : expander.schema.isObject type = true
  /-- Object types take the place of an abstract type, and the type does when it is possible. -/
  placed : ∀ condition types, expander.expansion.get? condition = some types →
    types.Nodup ∧ (∀ other ∈ types, expander.schema.isObject other = true) ∧
      (type ∈ types ↔ type ∈ original.schema.possibleTypes condition)
  /-- It is possible for other types in both schemas or in none. -/
  agree : ∀ condition, expander.expansion.get? condition = none →
    AgreeOn original.schema expander.schema condition →
      (type ∈ original.schema.possibleTypes condition ↔
        type ∈ expander.schema.possibleTypes condition)
  /-- The expander can deal with the fragments. -/
  suits : ∀ name definition, original.fragments.get? name = some definition →
    AgreeOn original.schema expander.schema definition.condition ∧
      expander.Suits original.schema definition.selections
  /-- A fragment on another type is kept. -/
  kept : ∀ name definition, original.fragments.get? name = some definition →
    expander.replacements.get? name = none →
      expander.expansion.get? definition.condition = none ∧
        expanded.fragments.get? name = some (expander.fragment definition)
  /-- A fragment on a replaced type has a copy for each type that takes its place. -/
  replaced : ∀ name copies, expander.replacements.get? name = some copies →
    ∃ definition types, original.fragments.get? name = some definition ∧
      expander.expansion.get? definition.condition = some types ∧
      copies.map Replacement.type = types ∧
      ∀ copy ∈ copies, expanded.fragments.get? copy.name =
        some (expander.fragment (definition.narrowed copy))
  /-- All copies have different names. -/
  apart : ∀ name other copies others, expander.replacements.get? name = some copies →
    expander.replacements.get? other = some others → ∀ copy ∈ copies, ∀ copy' ∈ others,
      copy.name = copy'.name → name = other ∧ copy = copy'
  /-- There are no other fragments. -/
  undefined : ∀ name, original.fragments.get? name = none → ¬ expander.IsCopy name →
    expanded.fragments.get? name = none

/-- A fragment has one copy for a type. -/
theorem Scopes.eq_of_type {expander : Expander} {original expanded : Scope} {type : Name}
    (scopes : Scopes expander original expanded type) {name : Name} {copies : List Replacement}
    (hcopies : expander.replacements.get? name = some copies) {copy other : Replacement}
    (hcopy : copy ∈ copies) (hother : other ∈ copies) (h : copy.type = other.type) :
    copy = other := by
  obtain ⟨definition, types, -, htypes, hmap, -⟩ := scopes.replaced name copies hcopies
  have hdistinct : (copies.map Replacement.type).Nodup := by
    rw [hmap]
    exact (scopes.placed _ _ htypes).1
  exact List.inj_on_of_nodup_map hdistinct hcopy hother h

/-- What is gathered from expanded selections matches what is gathered from the original ones; both
sides have only so many fragments to visit. -/
structure Matches (expander : Expander) (original expanded : Scope) (type : Name) (fuel fuel' : Nat)
    (gathered gathered' : Gathered) : Prop where
  /-- The nodes are the expanded ones, apart from meta fields. -/
  nodes : List.Forall₂ (expander.ExpandsTo type) (ordinary (gathered.places.map Place.node))
    (ordinary (gathered'.places.map Place.node))
  /-- Of the fragments that are not replaced the same have been visited. -/
  visited : ∀ name, expander.replacements.get? name = none → ¬ expander.IsCopy name →
    (name ∈ gathered'.visited ↔ name ∈ gathered.visited)
  /-- The copy on the type has been visited when the fragment has. -/
  copied : ∀ name copies, expander.replacements.get? name = some copies → ∀ copy ∈ copies,
    copy.type = type → (copy.name ∈ gathered'.visited ↔ name ∈ gathered.visited)
  /-- Not more fragments are left to visit than the fuel lasts for. -/
  bound : unvisited original.fragments gathered.visited ≤ fuel
  /-- Not more fragments are left to visit than the fuel lasts for. -/
  bound' : unvisited expanded.fragments gathered'.visited ≤ fuel'

namespace Matches

variable {expander : Expander} {original expanded : Scope} {type : Name} {fuel fuel' : Nat}
  {gathered gathered' : Gathered}

/-- The fuel may last for more. -/
theorem mono (h : Matches expander original expanded type fuel fuel' gathered gathered')
    {more more' : Nat} (hfuel : fuel ≤ more) (hfuel' : fuel' ≤ more') :
    Matches expander original expanded type more more' gathered gathered' :=
  { h with bound := Nat.le_trans h.bound hfuel, bound' := Nat.le_trans h.bound' hfuel' }

/-- A node and the expanded node are added. -/
theorem add (h : Matches expander original expanded type fuel fuel' gathered gathered')
    {place parent : Name} (hparent : type ∈ expander.schema.possibleTypes parent) (node : Field) :
    Matches expander original expanded type fuel fuel' (gathered.add place node)
      (gathered'.add parent (expander.node parent node)) :=
  { h with
    nodes := by
      unfold Gathered.add ordinary
      rw [List.map_append, List.map_append, List.filter_append, List.filter_append]
      refine List.rel_append h.nodes ?_
      rw [List.map_singleton, List.map_singleton, List.filter_singleton, List.filter_singleton,
        isMeta_node]
      cases isMeta node with
      | false => exact .cons ⟨parent, hparent, rfl⟩ .nil
      | true => exact .nil }

/-- The meta field is added on the other side. -/
theorem addMeta (h : Matches expander original expanded type fuel fuel' gathered gathered')
    (parent : Name) :
    Matches expander original expanded type fuel fuel' gathered
      (gathered'.add parent { name := typenameField }) :=
  { h with
    nodes := by
      have hmeta : isMeta { name := typenameField } = true := by decide
      unfold Gathered.add ordinary
      rw [List.map_append, List.filter_append, List.map_singleton, List.filter_singleton, hmeta]
      exact (List.append_nil _).symm ▸ h.nodes }

/-- A fragment that is not replaced is visited on both sides. -/
theorem visitKept (h : Matches expander original expanded type fuel fuel' gathered gathered')
    {name : Name} (hkept : expander.replacements.get? name = none)
    (hname : ¬ expander.IsCopy name) :
    Matches expander original expanded type fuel fuel' (gathered.visit name)
      (gathered'.visit name) where
  nodes := h.nodes
  visited := by
    intro other hother hcopy
    unfold Gathered.visit
    rw [List.mem_cons, List.mem_cons, h.visited other hother hcopy]
  copied := by
    intro other copies hother copy hcopy htype
    have hfirst : copy.name ≠ name := fun heq => hname ⟨other, copies, hother, copy, hcopy, heq⟩
    have hsecond : other ≠ name := (Entries.ne_of_get? hkept hother).symm
    unfold Gathered.visit
    rw [List.mem_cons, List.mem_cons, or_iff_right hfirst, or_iff_right hsecond]
    exact h.copied other copies hother copy hcopy htype
  bound := Nat.le_trans (unvisited_cons_le _ _ _) h.bound
  bound' := Nat.le_trans (unvisited_cons_le _ _ _) h.bound'

/-- A fragment is visited on one side and its copy on the type on the other. -/
theorem visitCopied (scopes : Scopes expander original expanded type)
    (h : Matches expander original expanded type fuel fuel' gathered gathered') {name : Name}
    {copies : List Replacement} (hcopies : expander.replacements.get? name = some copies)
    {copy : Replacement} (hcopy : copy ∈ copies) (hon : copy.type = type) :
    Matches expander original expanded type fuel fuel' (gathered.visit name)
      (gathered'.visit copy.name) where
  nodes := h.nodes
  visited := by
    intro other hother hname
    have hfirst : other ≠ copy.name := fun heq =>
      hname ⟨name, copies, hcopies, copy, hcopy, heq.symm⟩
    have hsecond : other ≠ name := Entries.ne_of_get? hother hcopies
    unfold Gathered.visit
    rw [List.mem_cons, List.mem_cons, or_iff_right hfirst, or_iff_right hsecond]
    exact h.visited other hother hname
  copied := by
    intro other others hothers copy' hcopy' htype
    unfold Gathered.visit
    rw [List.mem_cons, List.mem_cons]
    by_cases heq : copy'.name = copy.name
    · have hsame :=
        scopes.apart other name others copies hothers hcopies copy' hcopy' copy hcopy heq
      simp [heq, hsame.1]
    · -- A fragment has one copy on the type, so this is a copy of another one.
      have hother : other ≠ name := by
        rintro rfl
        cases hothers.symm.trans hcopies
        exact heq (congrArg _ (scopes.eq_of_type hcopies hcopy' hcopy (htype.trans hon.symm)))
      rw [or_iff_right heq, or_iff_right hother]
      exact h.copied other others hothers copy' hcopy' htype
  bound := Nat.le_trans (unvisited_cons_le _ _ _) h.bound
  bound' := Nat.le_trans (unvisited_cons_le _ _ _) h.bound'

/-- A fragment without a copy on the type is visited on one side. -/
theorem visitReplaced (h : Matches expander original expanded type fuel fuel' gathered gathered')
    {name : Name} {copies : List Replacement}
    (hcopies : expander.replacements.get? name = some copies)
    (hnone : ∀ copy ∈ copies, copy.type ≠ type) :
    Matches expander original expanded type fuel fuel' (gathered.visit name) gathered' where
  nodes := h.nodes
  visited := by
    intro other hother hcopy
    have hname : other ≠ name := Entries.ne_of_get? hother hcopies
    unfold Gathered.visit
    rw [List.mem_cons, or_iff_right hname]
    exact h.visited other hother hcopy
  copied := by
    intro other others hothers copy hcopy htype
    have hname : other ≠ name := by
      rintro rfl
      cases hothers.symm.trans hcopies
      exact hnone copy hcopy htype
    unfold Gathered.visit
    rw [List.mem_cons, or_iff_right hname]
    exact h.copied other others hothers copy hcopy htype
  bound := Nat.le_trans (unvisited_cons_le _ _ _) h.bound
  bound' := h.bound'

/-- A copy on another type is visited on the other side. -/
theorem visitCopy (scopes : Scopes expander original expanded type)
    (h : Matches expander original expanded type fuel fuel' gathered gathered') {name : Name}
    {copies : List Replacement} (hcopies : expander.replacements.get? name = some copies)
    {copy : Replacement} (hcopy : copy ∈ copies) (hon : copy.type ≠ type) :
    Matches expander original expanded type fuel fuel' gathered (gathered'.visit copy.name) where
  nodes := h.nodes
  visited := by
    intro other hother hname
    have hne : other ≠ copy.name := fun heq =>
      hname ⟨name, copies, hcopies, copy, hcopy, heq.symm⟩
    unfold Gathered.visit
    rw [List.mem_cons, or_iff_right hne]
    exact h.visited other hother hname
  copied := by
    intro other others hothers copy' hcopy' htype
    have hne : copy'.name ≠ copy.name := by
      intro heq
      obtain ⟨-, rfl⟩ :=
        scopes.apart other name others copies hothers hcopies copy' hcopy' copy hcopy heq
      exact hon htype
    unfold Gathered.visit
    rw [List.mem_cons, or_iff_right hne]
    exact h.copied other others hothers copy' hcopy' htype
  bound := h.bound
  bound' := Nat.le_trans (unvisited_cons_le _ _ _) h.bound'

end Matches

section Gathering

variable {expander : Expander} {original expanded : Scope} {type : Name} {fuel fuel' : Nat}
  {gathered gathered' : Gathered}

/-- On the original side a fragment applies to the objects of the possible types of its
condition. -/
theorem Scopes.applies_original (scopes : Scopes expander original expanded type)
    (condition : Name) : original.applies type (some condition) = true ↔
      type ∈ original.schema.possibleTypes condition :=
  Schema.fragmentApplies_iff scopes.object

/-- On the expanded side a fragment applies to the objects of the possible types of its
condition. -/
theorem Scopes.applies_expanded (scopes : Scopes expander original expanded type)
    (condition : Name) : expanded.applies type (some condition) = true ↔
      type ∈ expander.schema.possibleTypes condition := by
  unfold Scope.applies
  rw [scopes.schema]
  exact Schema.fragmentApplies_iff scopes.expandedObject

/-- A fragment on an object type applies to the objects of this type only. -/
theorem Scopes.applies_object (scopes : Scopes expander original expanded type) {condition : Name}
    (hobject : expander.schema.isObject condition = true) :
    expanded.applies type (some condition) = true ↔ type = condition := by
  have habstract : expander.schema.isAbstract condition = false := by
    rw [Bool.eq_false_iff]
    intro h
    exact absurd ((Schema.isObject_eq_false_of_isAbstract h).symm.trans hobject) (by simp)
  rw [scopes.applies_expanded, Schema.mem_possibleTypes_of_not_isAbstract habstract,
    and_iff_right hobject]

/-- The type is possible for itself. -/
theorem Scopes.mem_possibleTypes_self (scopes : Scopes expander original expanded type) :
    type ∈ expander.schema.possibleTypes type := by
  rw [← scopes.applies_expanded, scopes.applies_object scopes.expandedObject]

/-- The expander can deal with what it can deal with around it. -/
theorem Suits.mono {source : Schema} {selections inner : List Selection}
    (h : expander.Suits source selections)
    (hinner : ∀ selection, Occurs selection inner → Occurs selection selections) :
    expander.Suits source inner where
  conditions condition directives selections hoccurs :=
    h.conditions condition directives selections (hinner _ hoccurs)
  spreads fragment directives hoccurs := h.spreads fragment directives (hinner _ hoccurs)

/-- What takes the place of a selection comes before what takes the place of the others. -/
theorem inner_cons (parent : Name) (first : Selection) (rest : List Selection) :
    expander.inner parent (first :: rest) =
      expander.selection parent first ++ expander.inner parent rest := by
  rw [inner]

/-- The meta field that is added last does not count. -/
theorem Matches.finish {follow : Fragment → Gathered → Gathered} {parent selected : Name}
    {selections : List Selection}
    (h : Matches expander original expanded type fuel fuel' gathered
      (expanded.gatherSelections type follow parent selections gathered')) :
    Matches expander original expanded type fuel fuel' gathered
      (expanded.gatherSelections type follow parent (expander.finish selected selections)
        gathered') := by
  unfold Expander.finish
  split
  · rw [Scope.gatherSelections_append]
    change Matches _ _ _ _ _ _ _ (expanded.gatherSelection type follow parent
      (.field { name := typenameField }) _)
    rw [Scope.gatherSelection_field]
    split
    · exact h.addMeta parent
    · exact h
  · exact h

/-- Gathering from one selection and from what takes its place. -/
def Matched (expander : Expander) (original expanded : Scope) (type : Name) (fuel fuel' : Nat)
    (selection : Selection) : Prop :=
  ∀ {place parent : Name} {gathered gathered' : Gathered},
    type ∈ expander.schema.possibleTypes parent →
      expander.Suits original.schema [selection] →
        Matches expander original expanded type fuel fuel' gathered gathered' →
          Matches expander original expanded type fuel fuel'
            (original.gatherSelection type (original.follow type fuel) place selection gathered)
            (expanded.gatherSelections type (expanded.follow type fuel') parent
              (expander.selection parent selection) gathered')

/-- Gathering from selections one by one. -/
theorem Matches.gatherSelections {selections : List Selection}
    (hall : ∀ selection ∈ selections, Matched expander original expanded type fuel fuel' selection)
    {place parent : Name} (hparent : type ∈ expander.schema.possibleTypes parent)
    (hsuits : expander.Suits original.schema selections)
    (h : Matches expander original expanded type fuel fuel' gathered gathered') :
    Matches expander original expanded type fuel fuel'
      (original.gatherSelections type (original.follow type fuel) place selections gathered)
      (expanded.gatherSelections type (expanded.follow type fuel') parent
        (expander.selections parent selections) gathered') := by
  refine Matches.finish ?_
  induction selections generalizing gathered gathered' with
  | nil => exact h
  | cons first rest ih =>
    rw [Scope.gatherSelections, inner_cons, Scope.gatherSelections_append]
    refine ih (fun selection hmem => hall selection (List.mem_cons_of_mem _ hmem)) ?_
      (hall first List.mem_cons_self hparent ?_ h)
    · exact hsuits.mono fun _ hoccurs => hoccurs.mono (List.subset_cons_self _ _)
    · exact hsuits.mono fun _ hoccurs => hoccurs.mono (by simp)

/-- What is gathered from a field is expanded. -/
theorem matched_field (scopes : Scopes expander original expanded type) (node : Field) :
    Matched expander original expanded type fuel fuel' (.field node) := by
  intro place parent gathered gathered' hparent _ h
  rw [selection_field]
  change Matches _ _ _ _ _ _ _ (expanded.gatherSelection _ _ _ _ _)
  rw [Scope.gatherSelection_field, Scope.gatherSelection_field, (node_fixed node).2.2,
    scopes.included]
  split
  · exact h.add hparent node
  · exact h

/-- What is gathered from an inline fragment that is kept is expanded when this holds for its
selections. -/
theorem matched_inline_kept (scopes : Scopes expander original expanded type)
    {condition : Option Name} (hkept : ∀ name, condition = some name →
      expander.expansion.get? name = none) (directives : List Directive)
    {selections : List Selection}
    (hall : ∀ selection ∈ selections,
      Matched expander original expanded type fuel fuel' selection) :
    Matched expander original expanded type fuel fuel'
      (.inline condition directives selections) := by
  intro place parent gathered gathered' hparent hsuits h
  have hselection : expander.selection parent (.inline condition directives selections) =
      [.inline condition directives
        (expander.selections (condition.getD parent) selections)] := by
    cases condition with
    | none => rw [selection]; rfl
    | some name => rw [selection, hkept name rfl]; rfl
  -- Where the fragment applies, it does so on both sides.
  have happlies : expanded.applies type condition = original.applies type condition ∧
      (original.applies type condition = true →
        type ∈ expander.schema.possibleTypes (condition.getD parent)) := by
    cases condition with
    | none => exact ⟨rfl, fun _ => hparent⟩
    | some name =>
      have hagree := scopes.agree name (hkept name rfl)
        (hsuits.conditions name directives selections (.here List.mem_cons_self))
      refine ⟨?_, fun h => hagree.mp ((scopes.applies_original name).mp h)⟩
      rw [Bool.eq_iff_iff, scopes.applies_original, scopes.applies_expanded, hagree]
  rw [hselection]
  change Matches _ _ _ _ _ _ _ (expanded.gatherSelection _ _ _ _ _)
  rw [Scope.gatherSelection_inline, Scope.gatherSelection_inline, scopes.included, happlies.1]
  split
  · rename_i hin
    exact Matches.gatherSelections hall (happlies.2 (Bool.and_eq_true_iff.mp hin).2)
      (hsuits.mono fun _ hoccurs => .inline List.mem_cons_self hoccurs) h
  · exact h

/-- One of several different elements is left by a filter that it passes, and only others are before
and behind it. -/
theorem exists_filter_split {α β : Type} {f : α → β} {elements : List α}
    (hdistinct : (elements.map f).Nodup) {one : α} (hmem : one ∈ elements) {p : α → Bool}
    (hpasses : p one = true) :
    ∃ before after, elements.filter p = before ++ one :: after ∧
      (∀ other ∈ before, other ∈ elements ∧ f other ≠ f one) ∧
      ∀ other ∈ after, other ∈ elements ∧ f other ≠ f one := by
  obtain ⟨before, after, hsplit⟩ := List.append_of_mem (List.mem_filter.mpr ⟨hmem, hpasses⟩)
  have hsub : ∀ other ∈ before ++ one :: after, other ∈ elements := fun other hin =>
    (List.mem_filter.mp (hsplit ▸ hin)).1
  have hleft : ((before ++ one :: after).map f).Nodup :=
    hsplit ▸ (List.filter_sublist.map f).nodup hdistinct
  rw [List.map_append, List.map_cons] at hleft
  obtain ⟨-, hrest, hapart⟩ := List.nodup_append.mp hleft
  refine ⟨before, after, hsplit, fun other hin => ⟨hsub other (List.mem_append_left _ hin), ?_⟩,
    fun other hin => ⟨hsub other (List.mem_append_right _ (List.mem_cons_of_mem _ hin)), ?_⟩⟩
  · exact hapart (f other) (List.mem_map_of_mem hin) (f one) List.mem_cons_self
  · exact fun heq => (List.nodup_cons.mp hrest).1 (heq ▸ List.mem_map_of_mem hin)

/-- From inline fragments on other object types nothing is gathered. -/
theorem Scopes.gatherSelections_others (scopes : Scopes expander original expanded type)
    {types : List Name} (hobjects : ∀ other ∈ types, expander.schema.isObject other = true)
    (hothers : type ∉ types) (follow : Fragment → Gathered → Gathered) (parent : Name)
    (directives : List Directive) (selections : Name → List Selection) (gathered : Gathered) :
    expanded.gatherSelections type follow parent
      (types.map fun other => .inline (some other) directives (selections other)) gathered =
        gathered := by
  induction types with
  | nil => rfl
  | cons other rest ih =>
    rw [List.forall_mem_cons] at hobjects
    rw [List.mem_cons, not_or] at hothers
    have happlies : ¬ expanded.applies type (some other) = true := by
      rw [scopes.applies_object hobjects.1]
      exact hothers.1
    rw [List.map_cons, Scope.gatherSelections, Scope.gatherSelection_inline, if_neg]
    · exact ih hobjects.2 hothers.2
    · rw [Bool.and_eq_true]
      exact fun h => happlies h.2

/-- What is gathered from an inline fragment that is replaced is expanded when this holds for its
selections: of those that take its place, that on the type applies when the fragment does. -/
theorem matched_inline_replaced (scopes : Scopes expander original expanded type)
    {condition : Name} {types : List Name}
    (htypes : expander.expansion.get? condition = some types) (directives : List Directive)
    {selections : List Selection}
    (hall : ∀ selection ∈ selections,
      Matched expander original expanded type fuel fuel' selection) :
    Matched expander original expanded type fuel fuel'
      (.inline (some condition) directives selections) := by
  intro place parent gathered gathered' hparent hsuits h
  obtain ⟨hdistinct, hobjects, hplaced⟩ := scopes.placed condition types htypes
  have hselection : expander.selection parent (.inline (some condition) directives selections) =
      (types.filter (expander.schema.typesOverlap parent)).map fun other =>
        .inline (some other) directives (expander.selections other selections) := by
    rw [selection, htypes]
    rfl
  rw [hselection, Scope.gatherSelection_inline]
  by_cases hmem : type ∈ types
  · -- The parent type overlaps with the type, so the fragment on it is not left out.
    have hoverlap : expander.schema.typesOverlap parent type = true :=
      Schema.typesOverlap_of_mem_possibleTypes hparent scopes.mem_possibleTypes_self
    have hnames : (types.map id).Nodup := by rwa [List.map_id]
    obtain ⟨before, after, hsplit, hbefore, hafter⟩ := exists_filter_split hnames hmem hoverlap
    have happlies : original.applies type (some condition) = true :=
      (scopes.applies_original condition).mpr (hplaced.mp hmem)
    have hself : expanded.applies type (some type) = true :=
      (scopes.applies_object scopes.expandedObject).mpr rfl
    rw [hsplit, List.map_append, List.map_cons, Scope.gatherSelections_append,
      scopes.gatherSelections_others (fun other hin => hobjects other (hbefore other hin).1)
        (fun hin => (hbefore type hin).2 rfl),
      Scope.gatherSelections,
      scopes.gatherSelections_others (fun other hin => hobjects other (hafter other hin).1)
        (fun hin => (hafter type hin).2 rfl),
      Scope.gatherSelection_inline, scopes.included, happlies, hself]
    split
    · exact Matches.gatherSelections hall scopes.mem_possibleTypes_self
        (hsuits.mono fun _ hoccurs => .inline List.mem_cons_self hoccurs) h
    · exact h
  · have hnone : type ∉ types.filter (expander.schema.typesOverlap parent) := fun hin =>
      hmem (List.mem_filter.mp hin).1
    rw [scopes.gatherSelections_others
      (fun other hin => hobjects other (List.mem_filter.mp hin).1) hnone, if_neg]
    · exact h
    · rw [Bool.and_eq_true, scopes.applies_original, ← hplaced]
      exact fun h => hmem h.2

/-! ## Spreads -/

/-- How fragments are followed from both sides: one whose selections take the place of those of the
other. -/
def FollowsAlike (expander : Expander) (original expanded : Scope) (type : Name)
    (fuel fuel' : Nat) : Prop :=
  ∀ {name name' : Name} {definition definition' : Fragment} {gathered gathered' : Gathered},
    original.fragments.get? name = some definition →
      expanded.fragments.get? name' = some definition' →
        definition'.selections =
          expander.selections definition'.condition definition.selections →
        type ∈ expander.schema.possibleTypes definition'.condition →
        name ∉ gathered.visited → name' ∉ gathered'.visited →
        Matches expander original expanded type fuel fuel' gathered gathered' →
        Matches expander original expanded type fuel fuel' (gathered.visit name)
          (gathered'.visit name') →
        Matches expander original expanded type fuel fuel'
          (original.follow type fuel definition (gathered.visit name))
          (expanded.follow type fuel' definition' (gathered'.visit name'))

/-- What is gathered from a spread of a fragment that is not replaced is expanded: it is followed on
both sides, or on none. -/
theorem matched_spread_kept (scopes : Scopes expander original expanded type)
    (hfollow : FollowsAlike expander original expanded type fuel fuel') {fragment : Name}
    (hkept : expander.replacements.get? fragment = none) (directives : List Directive) :
    Matched expander original expanded type fuel fuel' (.spread fragment directives) := by
  intro place parent gathered gathered' hparent hsuits h
  have hcopy : ¬ expander.IsCopy fragment :=
    hsuits.spreads fragment directives (.here List.mem_cons_self)
  have hselection : expander.selection parent (.spread fragment directives) =
      [.spread fragment directives] := by
    rw [selection, hkept]
  rw [hselection]
  change Matches _ _ _ _ _ _ _ (expanded.gatherSelection _ _ _ _ _)
  have hvisited := h.visited fragment hkept hcopy
  by_cases hskip : original.includes directives original.vars = true ∧
      fragment ∉ gathered.visited
  · rw [Scope.gatherSelection_spread hskip.1 hskip.2,
      Scope.gatherSelection_spread (by rw [scopes.included]; exact hskip.1)
        (hvisited.not.mpr hskip.2)]
    cases hfound : original.fragments.get? fragment with
    | none =>
      rw [scopes.undefined fragment hfound hcopy]
      exact h.visitKept hkept hcopy
    | some definition =>
      -- The fragment keeps its condition, on which the schemas agree.
      obtain ⟨hcondition, hexpanded⟩ := scopes.kept fragment definition hfound hkept
      have hagree := scopes.agree _ hcondition (scopes.suits fragment definition hfound).1
      have happlies : expanded.applies type (some (expander.fragment definition).condition) =
          original.applies type (some definition.condition) := by
        rw [Bool.eq_iff_iff, scopes.applies_expanded, scopes.applies_original]
        exact hagree.symm
      rw [hexpanded]
      dsimp only
      rw [happlies]
      split
      · rename_i hin
        exact hfollow hfound hexpanded rfl (hagree.mp ((scopes.applies_original _).mp hin))
          hskip.2 (hvisited.not.mpr hskip.2) h (h.visitKept hkept hcopy)
      · exact h.visitKept hkept hcopy
  · -- Both sides have visited the fragment, or neither includes the spread.
    rw [Scope.gatherSelection_spread_skip hskip, Scope.gatherSelection_spread_skip]
    · exact h
    · rw [scopes.included, hvisited]
      exact hskip

/-- Spreads of copies on other types are visited at most. -/
theorem Matches.spreadCopies (scopes : Scopes expander original expanded type) {name : Name}
    {copies : List Replacement} (hcopies : expander.replacements.get? name = some copies)
    {others : List Replacement} (hsub : others ⊆ copies)
    (hothers : ∀ copy ∈ others, copy.type ≠ type) (parent : Name) (directives : List Directive)
    {gathered gathered' : Gathered}
    (h : Matches expander original expanded type fuel fuel' gathered gathered') :
    Matches expander original expanded type fuel fuel' gathered
      (expanded.gatherSelections type (expanded.follow type fuel') parent
        (others.map fun copy => .spread copy.name directives) gathered') := by
  obtain ⟨definition, types, -, htypes, hmap, hexpanded⟩ := scopes.replaced name copies hcopies
  induction others generalizing gathered' with
  | nil => exact h
  | cons copy rest ih =>
    rw [List.forall_mem_cons] at hothers
    rw [List.cons_subset] at hsub
    have helsewhere : ∀ definition', expanded.fragments.get? copy.name = some definition' →
        ¬ expanded.applies type (some definition'.condition) = true := by
      intro definition' hfound
      cases (hexpanded copy hsub.1).symm.trans hfound
      have hobject : expander.schema.isObject copy.type = true :=
        (scopes.placed _ _ htypes).2.1 _ (hmap ▸ List.mem_map_of_mem hsub.1)
      change ¬ expanded.applies type (some copy.type) = true
      rw [scopes.applies_object hobject]
      exact fun heq => hothers.1 heq.symm
    rw [List.map_cons, Scope.gatherSelections]
    -- The copy does not apply: at most it is noted as visited.
    refine ih hsub.2 hothers.2 ?_
    rcases Scope.gatherSelection_spread_elsewhere helsewhere with hsame | hvisit
    · rw [hsame]
      exact h
    · rw [hvisit]
      exact h.visitCopy scopes hcopies hsub.1 hothers.1

/-- The copy on the type is followed when the fragment is. -/
theorem Matches.spreadCopy (scopes : Scopes expander original expanded type)
    (hfollow : FollowsAlike expander original expanded type fuel fuel') {fragment : Name}
    {copies : List Replacement} (hcopies : expander.replacements.get? fragment = some copies)
    {copy : Replacement} (hcopy : copy ∈ copies) (hon : copy.type = type)
    (directives : List Directive) {place parent : Name} {gathered gathered' : Gathered}
    (h : Matches expander original expanded type fuel fuel' gathered gathered') :
    Matches expander original expanded type fuel fuel'
      (original.gatherSelection type (original.follow type fuel) place
        (.spread fragment directives) gathered)
      (expanded.gatherSelection type (expanded.follow type fuel') parent
        (.spread copy.name directives) gathered') := by
  obtain ⟨definition, types, hfound, htypes, hmap, hexpanded⟩ :=
    scopes.replaced fragment copies hcopies
  obtain ⟨-, -, hplaced⟩ := scopes.placed _ _ htypes
  have hmem : type ∈ types := hon ▸ hmap ▸ List.mem_map_of_mem hcopy
  have happlies : original.applies type (some definition.condition) = true :=
    (scopes.applies_original _).mpr (hplaced.mp hmem)
  have hself : type ∈ expander.schema.possibleTypes
      (expander.fragment (definition.narrowed copy)).condition := by
    change type ∈ expander.schema.possibleTypes copy.type
    rw [hon]
    exact scopes.mem_possibleTypes_self
  have hvisited := h.copied fragment copies hcopies copy hcopy hon
  by_cases hskip : original.includes directives original.vars = true ∧
      fragment ∉ gathered.visited
  · rw [Scope.gatherSelection_spread hskip.1 hskip.2, hfound,
      Scope.gatherSelection_spread (by rw [scopes.included]; exact hskip.1)
        (hvisited.not.mpr hskip.2), hexpanded copy hcopy]
    dsimp only
    rw [if_pos happlies, if_pos ((scopes.applies_expanded _).mpr hself)]
    exact hfollow hfound (hexpanded copy hcopy) rfl hself hskip.2 (hvisited.not.mpr hskip.2) h
      (h.visitCopied scopes hcopies hcopy hon)
  · rw [Scope.gatherSelection_spread_skip hskip, Scope.gatherSelection_spread_skip]
    · exact h
    · rw [scopes.included, hvisited]
      exact hskip

/-- What is gathered from a spread of a fragment that is replaced is expanded: of its copies, that
on the type is followed when the fragment is. -/
theorem matched_spread_replaced (scopes : Scopes expander original expanded type)
    (hfollow : FollowsAlike expander original expanded type fuel fuel') {fragment : Name}
    {copies : List Replacement} (hcopies : expander.replacements.get? fragment = some copies)
    (directives : List Directive) :
    Matched expander original expanded type fuel fuel' (.spread fragment directives) := by
  intro place parent gathered gathered' hparent hsuits h
  obtain ⟨definition, types, hfound, htypes, hmap, hexpanded⟩ :=
    scopes.replaced fragment copies hcopies
  obtain ⟨hdistinct, -, hplaced⟩ := scopes.placed _ _ htypes
  have hselection : expander.selection parent (.spread fragment directives) =
      (copies.filter fun copy => expander.schema.typesOverlap parent copy.type).map fun copy =>
        .spread copy.name directives := by
    rw [selection, hcopies]
  rw [hselection]
  by_cases hmem : ∃ copy ∈ copies, copy.type = type
  · obtain ⟨copy, hcopy, hon⟩ := hmem
    have hoverlap : expander.schema.typesOverlap parent copy.type = true := by
      rw [hon]
      exact Schema.typesOverlap_of_mem_possibleTypes hparent scopes.mem_possibleTypes_self
    rw [← hmap] at hdistinct
    obtain ⟨before, after, hsplit, hbefore, hafter⟩ := exists_filter_split
      (p := fun copy => expander.schema.typesOverlap parent copy.type) hdistinct hcopy hoverlap
    rw [hon] at hbefore hafter
    rw [hsplit, List.map_append, List.map_cons, Scope.gatherSelections_append,
      Scope.gatherSelections]
    -- Before and behind the copy on the type others are visited only.
    refine Matches.spreadCopies scopes hcopies (fun other hin => (hafter other hin).1)
      (fun other hin => (hafter other hin).2) parent directives ?_
    refine Matches.spreadCopy scopes hfollow hcopies hcopy hon directives ?_
    exact Matches.spreadCopies scopes hcopies (fun other hin => (hbefore other hin).1)
      (fun other hin => (hbefore other hin).2) parent directives h
  · have hnone : ∀ copy ∈ copies.filter fun copy =>
        expander.schema.typesOverlap parent copy.type, copy.type ≠ type := fun copy hin heq =>
      hmem ⟨copy, (List.mem_filter.mp hin).1, heq⟩
    refine Matches.spreadCopies scopes hcopies List.filter_sublist.subset hnone parent directives ?_
    have helsewhere : ∀ definition', original.fragments.get? fragment = some definition' →
        ¬ original.applies type (some definition'.condition) = true := by
      intro definition' hfound'
      cases hfound.symm.trans hfound'
      rw [scopes.applies_original, ← hplaced, ← hmap, List.mem_map]
      exact hmem
    rcases Scope.gatherSelection_spread_elsewhere helsewhere with hsame | hvisit
    · rw [hsame]
      exact h
    · rw [hvisit]
      exact h.visitReplaced hcopies fun copy hin heq => hmem ⟨copy, hin, heq⟩

/-- Where fragments are followed alike, what is gathered from selections is expanded. -/
theorem matched (scopes : Scopes expander original expanded type)
    (hfollow : FollowsAlike expander original expanded type fuel fuel') (selection : Selection) :
    Matched expander original expanded type fuel fuel' selection := by
  induction selection using Selection.nestedInduction with
  | field node => exact matched_field scopes node
  | spread fragment directives =>
    cases hcopies : expander.replacements.get? fragment with
    | none => exact matched_spread_kept scopes hfollow hcopies directives
    | some copies => exact matched_spread_replaced scopes hfollow hcopies directives
  | inline condition directives selections ih =>
    cases condition with
    | none => exact matched_inline_kept scopes (by simp) directives ih
    | some condition =>
      cases htypes : expander.expansion.get? condition with
      | none =>
        refine matched_inline_kept scopes ?_ directives ih
        rintro name ⟨rfl⟩
        exact htypes
      | some types => exact matched_inline_replaced scopes htypes directives ih

/-- Fragments are followed alike for all fuels: each new fragment leaves fewer to visit. -/
theorem Scopes.followsAlike (scopes : Scopes expander original expanded type) (fuel fuel' : Nat) :
    FollowsAlike expander original expanded type fuel fuel' := by
  -- Visiting a fragment leaves fewer unvisited on either side, so neither fuel runs out first.
  induction fuel generalizing fuel' with
  | zero =>
    intro name name' definition definition' gathered gathered' hfound _ _ _ hnew _ h _
    have hless := unvisited_cons_lt (Entries.exists_get?_iff.mp ⟨definition, hfound⟩) hnew
    exact absurd (Nat.lt_of_lt_of_le hless h.bound) (Nat.not_lt_zero _)
  | succ fuel ih =>
    intro name name' definition definition' gathered gathered' hfound hfound' hselections hpossible
      hnew hnew' h hvisit
    have hless := unvisited_cons_lt (Entries.exists_get?_iff.mp ⟨definition, hfound⟩) hnew
    have hless' := unvisited_cons_lt (Entries.exists_get?_iff.mp ⟨definition', hfound'⟩) hnew'
    cases fuel' with
    | zero => exact absurd (Nat.lt_of_lt_of_le hless' h.bound') (Nat.not_lt_zero _)
    | succ fuel' =>
      have hfewer := { hvisit with
        bound := Nat.le_of_lt_succ (Nat.lt_of_lt_of_le hless h.bound)
        bound' := Nat.le_of_lt_succ (Nat.lt_of_lt_of_le hless' h.bound') :
          Matches expander original expanded type fuel fuel' _ _ }
      unfold Scope.follow
      rw [hselections]
      exact (Matches.gatherSelections (fun selection _ => matched scopes (ih fuel') selection)
        hpossible (scopes.suits name definition hfound).2 hfewer).mono (Nat.le_succ fuel)
          (Nat.le_succ fuel')

/-- The nodes of expanded selections are the expanded nodes, apart from meta fields. -/
theorem Scopes.expandsTo_placesOf (scopes : Scopes expander original expanded type)
    (place : Name) {parent : Name} (hparent : type ∈ expander.schema.possibleTypes parent)
    {selections : List Selection} (hsuits : expander.Suits original.schema selections) :
    List.Forall₂ (expander.ExpandsTo type)
      (ordinary ((original.placesOf type place selections).map Place.node))
      (ordinary ((expanded.placesOf type parent (expander.selections parent selections)).map
        Place.node)) := by
  have hstart : Matches expander original expanded type original.fragments.length
      expanded.fragments.length {} {} :=
    ⟨.nil, fun _ _ _ => Iff.rfl, fun _ _ _ _ _ _ => by simp, List.length_filter_le _ _,
      List.length_filter_le _ _⟩
  exact (Matches.gatherSelections
    (fun selection _ => matched scopes (scopes.followsAlike _ _) selection)
    hparent hsuits hstart).nodes

end Gathering

end Expander

end Gateway.Transform
