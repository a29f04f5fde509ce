import Gateway.Proofs.Transform.Collected
import Gateway.Proofs.Transform.Expanded
import Gateway.Proofs.Transform.Revised

/-!
# What is collected from expanded selections

Expanding the abstract types of a document preserves what its selections select on an object
(`collectsExpanded_of_mem_possibleTypes`): under each response key are the same nodes, expanded in
turn, and apart from meta fields nothing is added. This does not hold for a spread of an undefined
fragment whose name a new fragment gets: the new fragment is collected in its place
(`expandAbstract_dangling`).
-/

namespace Gateway

/-- Fragments that are added to a document come behind its own. -/
theorem Document.fragments_append (document : Document) (more : List Fragment) :
    Document.fragments (document ++ more.map Definition.fragment) = document.fragments ++ more := by
  unfold Document.fragments
  rw [List.filterMap_append, List.filterMap_map]
  exact congrArg _ List.filterMap_some

/-- A fragment that is found by name is one of the document. -/
theorem of_get?_fragmentsByName {document : Document} {name : Name} {fragment : Fragment}
    (h : document.fragmentsByName.get? name = some fragment) :
    fragment ∈ document.fragments ∧ fragment.name = name := by
  obtain ⟨found, hmem, hpair⟩ := List.mem_map.mp (Entries.mem_of_get?_ofPairs h)
  obtain ⟨rfl, rfl⟩ := Prod.mk.inj hpair
  exact ⟨hmem, rfl⟩

namespace Transform

/-! ## Expanded types -/

/-- Object types of the target take the place of a type that is abstract in the source only. -/
theorem Expansion.get?_between_iff {source target : Schema} {name : Name} {types : List Name} :
    (Expansion.between source target).get? name = some types ↔
      source.isAbstract name = true ∧ target.isAbstract name = false ∧
        types = (source.possibleTypes name).filter target.isObject := by
  have hsome : ∀ types, (Expansion.between source target).get? name = some types →
      source.isAbstract name = true ∧ target.isAbstract name = false ∧
        types = (source.possibleTypes name).filter target.isObject := by
    intro types h
    obtain ⟨type, -, hentry⟩ := List.mem_filterMap.mp (Entries.mem_of_get? h)
    split at hentry
    · rename_i hreplaced
      obtain ⟨rfl, rfl⟩ := Prod.mk.inj (Option.some.inj hentry)
      obtain ⟨hsource, htarget⟩ := Bool.and_eq_true_iff.mp hreplaced
      exact ⟨hsource, by simpa using htarget, rfl⟩
    · cases hentry
  refine ⟨hsome types, ?_⟩
  rintro ⟨hsource, htarget, rfl⟩
  -- The type is one of the source, so there is an entry for its name, and any such entry is right.
  obtain ⟨definition, hfound⟩ : ∃ definition, source.type? name = some definition := by
    rcases Schema.isAbstract_iff.mp hsource with ⟨_, _, hbody⟩ | ⟨_, hbody⟩
    · exact (Option.map_eq_some_iff.mp hbody).imp fun _ hdefinition => hdefinition.1
    · exact (Option.map_eq_some_iff.mp hbody).imp fun _ hdefinition => hdefinition.1
  obtain ⟨hmem, rfl⟩ := Schema.of_type? hfound
  have hentry : (definition.name, (source.possibleTypes definition.name).filter target.isObject) ∈
      Expansion.between source target :=
    List.mem_filterMap.mpr ⟨definition, hmem, by rw [hsource, htarget]; rfl⟩
  obtain ⟨types, htypes⟩ := Entries.exists_get?_iff.mpr (List.mem_map_of_mem hentry)
  rw [← (hsome types htypes).2.2]
  exact htypes

section Between

variable {source target : Schema} {type condition : Name}

/-- The types that take the place of an abstract type are different. -/
theorem Expansion.nodup_between (hdistinct : (source.types.map TypeDefinition.name).Nodup)
    {types : List Name} (h : (Expansion.between source target).get? condition = some types) :
    types.Nodup := by
  obtain ⟨habstract, -, rfl⟩ := Expansion.get?_between_iff.mp h
  have hpossible : (source.possibleTypes condition).Nodup := by
    unfold Schema.possibleTypes
    rw [Schema.isObject_eq_false_of_isAbstract habstract, if_neg Bool.false_ne_true,
      if_pos habstract]
    exact hdistinct.filter _
  exact hpossible.filter _

/-- The types that take the place of an abstract type are different object types of the target, and
they are those that are possible for it. -/
theorem Expansion.placed_between (hdistinct : (source.types.map TypeDefinition.name).Nodup)
    (hobject : target.isObject type = true) {types : List Name}
    (h : (Expansion.between source target).get? condition = some types) :
    types.Nodup ∧ (∀ other ∈ types, target.isObject other = true) ∧
      (type ∈ types ↔ type ∈ source.possibleTypes condition) := by
  refine ⟨nodup_between hdistinct h, ?_⟩
  obtain ⟨-, -, rfl⟩ := Expansion.get?_between_iff.mp h
  refine ⟨fun other hin => (List.mem_filter.mp hin).2, ?_⟩
  rw [List.mem_filter]
  exact and_iff_left hobject

/-- An object type of both schemas is possible for any other type in both or in none. -/
theorem Expansion.agree_between (hsource : source.isObject type = true)
    (htarget : target.isObject type = true)
    (h : (Expansion.between source target).get? condition = none)
    (hagree : AgreeOn source target condition) :
    type ∈ source.possibleTypes condition ↔ type ∈ target.possibleTypes condition := by
  cases htargetAbstract : target.isAbstract condition with
  | true => exact hagree htargetAbstract type
  | false =>
    have hsourceAbstract : source.isAbstract condition = false := by
      rw [Bool.eq_false_iff]
      intro habstract
      -- Otherwise it would have been replaced.
      have hsome := Expansion.get?_between_iff.mpr ⟨habstract, htargetAbstract, rfl⟩
      exact absurd (h.symm.trans hsome) (by simp)
    rw [Schema.mem_possibleTypes_of_not_isAbstract hsourceAbstract,
      Schema.mem_possibleTypes_of_not_isAbstract htargetAbstract]
    constructor
    · rintro ⟨-, rfl⟩
      exact ⟨htarget, rfl⟩
    · rintro ⟨-, rfl⟩
      exact ⟨hsource, rfl⟩

end Between

/-! ## Expanded documents -/

namespace Expander

/-- What expands the selections of a document. -/
def ofDocument (source target : Schema) (document : Document) : Expander where
  schema := target
  expansion := Expansion.between source target
  replacements := (Replacements.ofDocument (Expansion.between source target) document).byFragment

section Identity

variable {expander : Expander}

/-- Nothing is added when no types are expanded. -/
theorem finish_eq_self (hexpansion : expander.expansion = []) (type : Name)
    (selections : List Selection) : expander.finish type selections = selections := by
  unfold finish Expansion.isPlaced
  rw [hexpansion]
  rfl

/-- Selections are kept when each of them is. -/
theorem inner_eq_self {selections : List Selection} {parent : Name}
    (hall : ∀ selection ∈ selections, expander.selection parent selection = [selection]) :
    expander.inner parent selections = selections := by
  induction selections with
  | nil => rw [inner]
  | cons first rest ih =>
    rw [List.forall_mem_cons] at hall
    rw [inner_cons, hall.1, ih hall.2, List.singleton_append]

/-- A selection is kept when no types are expanded. -/
theorem selection_eq_self (hexpansion : expander.expansion = [])
    (hreplacements : expander.replacements = []) (parent : Name) (selection : Selection) :
    expander.selection parent selection = [selection] := by
  induction selection using Selection.nestedInduction generalizing parent with
  | field node ih =>
    rw [selection_field]
    unfold Expander.node Expander.selections
    split
    · rename_i type first rest _ hselections
      rw [finish_eq_self hexpansion,
        inner_eq_self fun selection hmem => ih selection (hselections ▸ hmem) type, ← hselections]
    · rfl
  | spread fragment directives =>
    rw [selection, hreplacements]
    rfl
  | inline condition directives selections ih =>
    have hkept : ∀ parent, expander.finish parent (expander.inner parent selections) =
        selections := fun parent => by
      rw [finish_eq_self hexpansion, inner_eq_self fun selection hmem => ih selection hmem parent]
    cases condition with
    | none => rw [selection, hkept]
    | some condition =>
      have hnone : expander.expansion.get? condition = none := by
        rw [hexpansion]
        rfl
      rw [selection, hnone]
      dsimp only
      rw [hkept]

/-- A fragment is kept when no types are expanded. -/
theorem fragment_eq_self (hexpansion : expander.expansion = [])
    (hreplacements : expander.replacements = []) (fragment : Fragment) :
    expander.fragment fragment = fragment := by
  unfold Expander.fragment Expander.selections
  rw [finish_eq_self hexpansion, inner_eq_self fun selection _ =>
    selection_eq_self hexpansion hreplacements fragment.condition selection]

end Identity

/-- When there is nothing to expand a document stays the same, and otherwise it is revised along the
target with the new fragments behind it. -/
theorem expandAbstract_cases {source target : Schema} {document output : Document}
    (h : expandAbstract source target document = .ok output) :
    (Expansion.between source target = [] ∧ output = document) ∨
      (Expansion.between source target ≠ [] ∧
        Document.revise target (fun _ => (ofDocument source target document).selections) none
          (document ++ (Replacements.ofDocument (Expansion.between source target)
            document).definitions.map Definition.fragment) = .ok output) := by
  unfold expandAbstract at h
  by_cases hempty : Expansion.between source target = []
  · rw [hempty] at h
    cases h
    exact .inl ⟨hempty, rfl⟩
  · rw [if_neg (mt List.isEmpty_iff.mp hempty)] at h
    exact .inr ⟨hempty, h⟩

/-- The fragments of an expanded document are those of the document and the new ones, expanded
each. -/
theorem fragments_expandAbstract {source target : Schema} {document output : Document}
    (h : expandAbstract source target document = .ok output) :
    output.fragments = (document.fragments ++
      (Replacements.ofDocument (Expansion.between source target) document).definitions).map
        (ofDocument source target document).fragment := by
  rcases expandAbstract_cases h with ⟨hnone, rfl⟩ | ⟨-, hrevise⟩
  · have hreplacements : Replacements.ofDocument (Expansion.between source target) output =
        { names := output.fragments.map Fragment.name } := by
      rw [hnone]
      exact List.foldl_fixed _
    have hkept : (ofDocument source target output).fragment = id :=
      funext (fragment_eq_self hnone (by rw [ofDocument, hreplacements]))
    rw [hreplacements, hkept, List.map_id, List.append_nil]
  · rw [Document.fragments_revise hrevise, Document.fragments_append]
    rfl

section Scopes

variable {source target : Schema} {document output : Document}

/-- The fragments of an expanded document have different names. -/
theorem nodup_expandAbstract (hunique : (document.fragments.map Fragment.name).Nodup)
    (h : expandAbstract source target document = .ok output) :
    (output.fragments.map Fragment.name).Nodup := by
  obtain ⟨made, hmade⟩ :=
    Replacements.exists_made (Expansion.between source target) hunique
  have hnames : output.fragments.map Fragment.name =
      document.fragments.map Fragment.name ++ made.map (·.2.name) := by
    rw [fragments_expandAbstract h, hmade.definitions, List.map_map, List.map_append, List.map_map]
    rfl
  have hdistinct := hmade.distinct
  rw [hmade.names] at hdistinct
  rw [hnames]
  exact ((List.reverse_perm _).append_right _ |>.trans List.perm_append_comm).nodup_iff.mp hdistinct

/-- A document and its expansion are two sides for an object type of both schemas. -/
theorem scopes_ofDocument (hsource : (source.types.map TypeDefinition.name).Nodup)
    (hunique : (document.fragments.map Fragment.name).Nodup)
    (hfragments : ∀ fragment ∈ document.fragments, AgreeOn source target fragment.condition ∧
      (ofDocument source target document).Suits source fragment.selections)
    {type : Name} (hobject : source.isObject type = true)
    (hexpanded : target.isObject type = true) (vars : Entries Json)
    (includes : List Directive → Entries Json → Bool)
    (h : expandAbstract source target document = .ok output) :
    Scopes (ofDocument source target document) (scopeOf source document vars includes)
      (scopeOf target output vars includes) type := by
  obtain ⟨made, hmade⟩ :=
    Replacements.exists_made (Expansion.between source target) hunique
  have houtput := fragments_expandAbstract h
  -- In the expanded document every fragment is found that is one of its own or a new one.
  have hget : ∀ fragment ∈ document.fragments ++
      (Replacements.ofDocument (Expansion.between source target) document).definitions,
      output.fragmentsByName.get? fragment.name =
        some ((ofDocument source target document).fragment fragment) := by
    intro fragment hmem
    have hfragment : (ofDocument source target document).fragment fragment ∈ output.fragments := by
      rw [houtput]
      exact List.mem_map_of_mem hmem
    have hfound := get?_fragmentsByName (nodup_expandAbstract hunique h) hfragment
    exact hfound
  exact {
    schema := rfl
    included := fun _ => rfl
    object := hobject
    expandedObject := hexpanded
    placed := fun _ _ => Expansion.placed_between hsource hexpanded
    agree := fun _ => Expansion.agree_between hobject hexpanded
    suits := fun _ definition hfound => hfragments definition (of_get?_fragmentsByName hfound).1
    kept := by
      intro name definition hfound hnone
      obtain ⟨hmem, rfl⟩ := of_get?_fragmentsByName hfound
      exact ⟨hmade.get?_condition_eq_none hmem hnone,
        hget definition (List.mem_append_left _ hmem)⟩
    replaced := by
      intro name copies hcopies
      obtain ⟨definition, hmem, rfl, htypes, hcopy⟩ := hmade.exists_replaced hcopies
      refine ⟨definition, _, get?_fragmentsByName hunique hmem, htypes, rfl, ?_⟩
      intro copy hin
      refine hget (definition.narrowed copy) (List.mem_append_right _ ?_)
      rw [hmade.definitions]
      exact List.mem_map_of_mem (hcopy copy hin)
    apart := by
      intro name other copies others hcopies hothers copy hin copy' hin' hname
      obtain ⟨definition, -, rfl, -, hcopy⟩ := hmade.exists_replaced hcopies
      obtain ⟨definition', -, rfl, -, hcopy'⟩ := hmade.exists_replaced hothers
      have hsame : (definition, copy) = (definition', copy') :=
        List.inj_on_of_nodup_map hmade.nodup_names (hcopy copy hin) (hcopy' copy' hin') hname
      obtain ⟨rfl, rfl⟩ := Prod.mk.inj hsame
      exact ⟨rfl, rfl⟩
    undefined := by
      intro name hnone hcopy
      -- A fragment of this name would be one of the document, or a copy.
      rw [Option.eq_none_iff_forall_ne_some]
      intro found hfound
      obtain ⟨hmem, rfl⟩ := of_get?_fragmentsByName hfound
      rw [houtput, List.map_append] at hmem
      rcases List.mem_append.mp hmem with hmem | hmem
      · obtain ⟨definition, hdefinition, rfl⟩ := List.mem_map.mp hmem
        have hsome := get?_fragmentsByName hunique hdefinition
        exact absurd (hnone.symm.trans hsome) (by simp)
      · rw [hmade.definitions, List.map_map] at hmem
        obtain ⟨entry, hentry, rfl⟩ := List.mem_map.mp hmem
        obtain ⟨copies, hcopies, hin⟩ := hmade.listed entry hentry
        exact hcopy ⟨entry.1.name, copies, hcopies, entry.2, hin, rfl⟩ }

end Scopes

end Expander

/-! ## Collecting -/

/-- What is collected from selections, and from what takes their place: the same nodes, expanded in
turn, apart from meta fields. -/
structure CollectsExpanded (expander : Expander) (original expanded : Scope) (type parent : Name)
    (selections : List Selection) : Prop where
  /-- Under each response key are the same nodes, in order. -/
  nodes : ∀ key, List.Forall₂ (expander.ExpandsTo type)
    (ordinary (((original.fieldsOf type selections).get? key).getD []))
    (ordinary (((expanded.fieldsOf type (expander.selections parent selections)).get? key).getD []))
  /-- The response keys are the same, in order. -/
  keys : (original.fieldsOf type selections).keys.filter (· ≠ typenameField) =
    (expanded.fieldsOf type (expander.selections parent selections)).keys.filter (· ≠ typenameField)
  /-- So are those of nodes other than meta fields, when such a node has the key of the meta
  field. -/
  ordinaryKeys : ((ordinary ((original.placesOf type parent selections).map Place.node)).map
      FieldOf.responseKey).eraseDups =
    ((ordinary ((expanded.placesOf type parent (expander.selections parent selections)).map
      Place.node)).map FieldOf.responseKey).eraseDups

section Collecting

/-- Which of different elements are left does not depend on when duplicates are erased. -/
theorem filter_eraseDups (holds : Name → Bool) (names : List Name) :
    names.eraseDups.filter holds = (names.filter holds).eraseDups := by
  induction names using List.reverseRecOn with
  | nil => rfl
  | append_singleton names last ih =>
    rw [List.eraseDups_append, List.filter_append, List.filter_append, List.eraseDups_append, ih]
    congr 1
    have hremoved : ∀ others : List Name,
        [last].removeAll others = if last ∈ others then [] else [last] := by
      intro others
      unfold List.removeAll
      by_cases hmem : last ∈ others <;> simp [hmem]
    cases hlast : holds last with
    | true =>
      rw [List.filter_cons_of_pos hlast, List.filter_nil, hremoved, hremoved]
      by_cases hmem : last ∈ names <;> simp [hmem, hlast]
    | false =>
      rw [List.filter_cons_of_neg (by rw [hlast]; simp), List.filter_nil, hremoved]
      by_cases hmem : last ∈ names <;> simp [hmem, hlast, List.removeAll]

variable {expander : Expander} {original expanded : Scope} {type : Name}

/-- Expanded nodes have the response keys of the nodes. -/
theorem map_responseKey_of_expandsTo {nodes nodes' : List Field}
    (h : List.Forall₂ (expander.ExpandsTo type) nodes nodes') :
    nodes.map FieldOf.responseKey = nodes'.map FieldOf.responseKey := by
  rw [← List.forall₂_eq_eq_eq, List.forall₂_map_left_iff, List.forall₂_map_right_iff]
  refine h.imp fun node node' hexpands => ?_
  obtain ⟨parent, -, rfl⟩ := hexpands
  exact (Expander.responseKey_node node).symm

/-- Among the nodes of a response key the ordinary ones are those of the ordinary nodes. -/
theorem ordinary_filter (nodes : List Field) (key : Name) :
    ordinary (nodes.filter (·.responseKey = key)) =
      (ordinary nodes).filter (·.responseKey = key) :=
  List.filter_comm _ _ nodes

/-- Other keys than that of the meta field are keys of ordinary nodes. -/
theorem filter_map_responseKey (nodes : List Field) :
    (nodes.map FieldOf.responseKey).filter (· ≠ typenameField) =
      ((ordinary nodes).map FieldOf.responseKey).filter (· ≠ typenameField) := by
  unfold ordinary
  rw [List.filter_map, List.filter_map, List.filter_filter]
  refine congrArg _ (List.filter_congr fun node _ => ?_)
  unfold isMeta
  by_cases hkey : node.responseKey = typenameField <;> simp [hkey]

/-- Collecting from both sides. -/
theorem Expander.Scopes.collectsExpanded (scopes : expander.Scopes original expanded type)
    {parent : Name} (hparent : type ∈ expander.schema.possibleTypes parent)
    {selections : List Selection} (hsuits : expander.Suits original.schema selections) :
    CollectsExpanded expander original expanded type parent selections := by
  have hnodes := scopes.expandsTo_placesOf parent hparent hsuits
  have hkeys := map_responseKey_of_expandsTo hnodes
  have hfields := original.fieldsOf_eq type parent selections
  have hexpanded := expanded.fieldsOf_eq type parent (expander.selections parent selections)
  constructor
  · intro key
    rw [hfields, hexpanded, get?_byResponseKey, get?_byResponseKey, ordinary_filter,
      ordinary_filter]
    refine List.rel_filter ?_ hnodes
    rintro node _ ⟨parent, -, rfl⟩
    dsimp only
    rw [Expander.responseKey_node]
  · rw [hfields, hexpanded, keys_byResponseKey, keys_byResponseKey, filter_eraseDups,
      filter_eraseDups, filter_map_responseKey ((original.placesOf type parent selections).map _),
      hkeys, ← filter_map_responseKey]
  · rw [hkeys]

end Collecting

/-- From expanded selections an object of a type that both schemas declare selects the same nodes as
from the original ones, apart from meta fields, wherever it can occur. The schemas have to agree on
the conditions, and no spread may have the name of a new fragment. -/
theorem collectsExpanded_of_mem_possibleTypes {source target : Schema}
    {document output : Document} (hsource : (source.types.map TypeDefinition.name).Nodup)
    (hunique : (document.fragments.map Fragment.name).Nodup)
    (hfragments : ∀ fragment ∈ document.fragments, AgreeOn source target fragment.condition ∧
      (Expander.ofDocument source target document).Suits source fragment.selections)
    {type parent : Name} (hobject : source.isObject type = true)
    (hpossible : type ∈ target.possibleTypes parent) (vars : Entries Json)
    (includes : List Directive → Entries Json → Bool) {selections : List Selection}
    (hsuits : (Expander.ofDocument source target document).Suits source selections)
    (houtput : expandAbstract source target document = .ok output) :
    CollectsExpanded (Expander.ofDocument source target document)
      (scopeOf source document vars includes) (scopeOf target output vars includes) type parent
      selections :=
  (Expander.scopes_ofDocument hsource hunique hfragments hobject
    (Schema.isObject_of_mem_possibleTypes hpossible) vars includes houtput).collectsExpanded
      hpossible hsuits

/-- The definitions of a service whose users are nodes. -/
def nodeText : String :=
  "type Query { node: Node } interface Node { id: ID name: String } " ++
    "type User implements Node { id: ID name: String }"

/-- The schema that they define. -/
def nodeSchema : Schema where
  types := Builtin.introspectionTypes ++ ["String", "Boolean", "ID"].map Builtin.scalar ++ [
    Builtin.object "Query" [Builtin.field "node" (.named "Node")],
    { name := "Node", body := .interface []
        [Builtin.field "id" (.named "ID"), Builtin.field "name" (.named "String")] },
    { name := "User", body := .object ["Node"]
        [Builtin.field "id" (.named "ID"), Builtin.field "name" (.named "String")] }]
  directives := Builtin.directives
  roots := [(.query, "Query")]

/-- The definitions of a service that knows users only. -/
def flatText : String :=
  "type Query { node: User } type User { id: ID name: String }"

/-- The schema that they define. -/
def flatSchema : Schema where
  types := Builtin.introspectionTypes ++ ["String", "Boolean", "ID"].map Builtin.scalar ++ [
    Builtin.object "Query" [Builtin.field "node" (.named "User")],
    Builtin.object "User"
      [Builtin.field "id" (.named "ID"), Builtin.field "name" (.named "String")]]
  directives := Builtin.directives
  roots := [(.query, "Query")]

/-- A query of a node, with a fragment on nodes. -/
def nodeQuery (selections : List Selection) : Document := [
  .operation { selections := [.field { name := "node", selections }] },
  .fragment { name := "N", condition := "Node", selections := [.field { name := "id" }] }]

/-- Selections of a node. -/
def nodeSelections : List Selection := [.spread "N" [], .field { name := "name" }]

/-- The selections are collected alike. -/
theorem collectsExpanded_nodeSelections :
    (nodeSchema.types.map TypeDefinition.name).Nodup ∧
      ((nodeQuery nodeSelections).fragments.map Fragment.name).Nodup ∧
      (∀ fragment ∈ (nodeQuery nodeSelections).fragments,
        AgreeOn nodeSchema flatSchema fragment.condition ∧
          (Expander.ofDocument nodeSchema flatSchema (nodeQuery nodeSelections)).Suits nodeSchema
            fragment.selections) ∧
      nodeSchema.isObject "User" = true ∧ "User" ∈ flatSchema.possibleTypes "User" ∧
      (Expander.ofDocument nodeSchema flatSchema (nodeQuery nodeSelections)).Suits nodeSchema
        nodeSelections ∧
      ∃ output, expandAbstract nodeSchema flatSchema (nodeQuery nodeSelections) = .ok output ∧
        CollectsExpanded (Expander.ofDocument nodeSchema flatSchema (nodeQuery nodeSelections))
          (scopeOf nodeSchema (nodeQuery nodeSelections) [] isIncluded)
          (scopeOf flatSchema output [] isIncluded) "User" "User" nodeSelections := by
  have hsource : (nodeSchema.types.map TypeDefinition.name).Nodup := by decide
  have hunique : ((nodeQuery nodeSelections).fragments.map Fragment.name).Nodup := by decide
  have hreplacements : (Expander.ofDocument nodeSchema flatSchema
      (nodeQuery nodeSelections)).replacements = [("N", [⟨"_User_Fragment0", "User"⟩])] := by rfl
  have hcopy : ¬ (Expander.ofDocument nodeSchema flatSchema (nodeQuery nodeSelections)).IsCopy
      "N" := by
    rintro ⟨replaced, copies, hcopies, copy, hcopy, hname⟩
    rw [hreplacements, Entries.get?_cons] at hcopies
    split at hcopies
    · cases hcopies
      rw [List.mem_singleton.mp hcopy] at hname
      exact absurd hname (by decide)
    · exact absurd hcopies (by simp [Entries.get?])
  have hfragments : ∀ fragment ∈ (nodeQuery nodeSelections).fragments,
      AgreeOn nodeSchema flatSchema fragment.condition ∧
        (Expander.ofDocument nodeSchema flatSchema (nodeQuery nodeSelections)).Suits nodeSchema
          fragment.selections := by
    intro fragment hmem
    obtain rfl := List.mem_singleton.mp hmem
    refine ⟨fun h => absurd h (by decide), fun condition directives inner h => ?_,
      fun fragment directives h => ?_⟩ <;> simp [occurs_field_iff, not_occurs_nil] at h
  have hsuits : (Expander.ofDocument nodeSchema flatSchema (nodeQuery nodeSelections)).Suits
      nodeSchema nodeSelections := by
    refine ⟨fun condition directives inner h => ?_, fun fragment directives h => ?_⟩
    · rw [occurs_iff_exists] at h
      simp [nodeSelections, occurs_spread_iff, occurs_field_iff, not_occurs_nil] at h
    · rw [occurs_iff_exists] at h
      simp [nodeSelections, occurs_spread_iff, occurs_field_iff, not_occurs_nil] at h
      rw [h.1]
      exact hcopy
  exact ⟨hsource, hunique, hfragments, by decide, by decide, hsuits, _, rfl,
    collectsExpanded_of_mem_possibleTypes hsource hunique hfragments (by decide) (by decide) []
      isIncluded hsuits rfl⟩

/-- Selections of a node, first of a fragment that is not defined. -/
def danglingSelections : List Selection :=
  [.spread "_User_Fragment0" [], .field { name := "name" }, .spread "N" []]

/-- The fragment that is not defined gets the name of the new one, so that what the new one selects
is collected first. -/
theorem expandAbstract_dangling :
    Schema.parse? nodeText = some nodeSchema ∧ Schema.parse? flatText = some flatSchema ∧
      ((nodeQuery danglingSelections).fragments.map Fragment.name).Nodup ∧
      (∀ fragment ∈ (nodeQuery danglingSelections).fragments,
        nodeSchema.hasType fragment.condition = true ∧
          AgreeOn nodeSchema flatSchema fragment.condition) ∧
      nodeSchema.isObject "User" = true ∧ "User" ∈ flatSchema.possibleTypes "User" ∧
      ∃ output, expandAbstract nodeSchema flatSchema (nodeQuery danglingSelections) = .ok output ∧
        ((scopeOf nodeSchema (nodeQuery danglingSelections) [] isIncluded).fieldsOf "User"
          danglingSelections).keys.filter (· ≠ typenameField) = ["name", "id"] ∧
        ((scopeOf flatSchema output [] isIncluded).fieldsOf "User"
          ((Expander.ofDocument nodeSchema flatSchema (nodeQuery danglingSelections)).selections
            "User" danglingSelections)).keys.filter (· ≠ typenameField) = ["id", "name"] := by
  refine ⟨by decide +kernel, by decide +kernel, by decide, ?_, by decide, by decide, _, rfl, by rfl,
    by rfl⟩
  intro fragment hmem
  obtain rfl := List.mem_singleton.mp hmem
  exact ⟨by decide, fun h => absurd h (by decide)⟩

end Transform

end Gateway
