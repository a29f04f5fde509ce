import Gateway.Proofs.Transform.Mirrored
import Gateway.Schema.Build

/-!
# What is collected from filtered selections

From what is left of selections an object selects what is left of its nodes
(`collectsLeft_of_mem_possibleTypes`). The nodes under a response key keep their order, but the keys
need not (`not_sublist_keys_friendSelections`): a key stands where its first node is left.
-/

namespace Gateway.Transform

/-! ## Collecting -/

/-- What is collected from selections on a type, and from what a filter leaves of them. -/
structure CollectsLeft (filter : Filter) (original filtered : Scope) (type parent : Name)
    (selections : List Selection) : Prop where
  /-- The fields of the selections are their nodes by response key. -/
  fields : original.fieldsOf type selections =
    byResponseKey ((original.placesOf type parent selections).map Place.node)
  /-- The fields of what is left are what is left of the nodes by response key. -/
  leftFields : filtered.fieldsOf type (filter.filterAll parent selections) =
    byResponseKey ((original.placesOf type parent selections).filterMap filter.node?)
  /-- Under each response key are the nodes of the selections with this key, in order. -/
  nodes : ∀ key, ((original.fieldsOf type selections).get? key).getD [] =
    ((original.placesOf type parent selections).filter (·.node.responseKey = key)).map Place.node
  /-- Under each response key is what is left of the nodes with this key, in order. -/
  leftNodes : ∀ key,
    ((filtered.fieldsOf type (filter.filterAll parent selections)).get? key).getD [] =
      ((original.placesOf type parent selections).filter
        (·.node.responseKey = key)).filterMap filter.node?
  /-- The response keys of what is left stand in the order of the first node of each. -/
  leftKeys : (filtered.fieldsOf type (filter.filterAll parent selections)).keys =
    (((original.placesOf type parent selections).filterMap filter.node?).map
      FieldOf.responseKey).eraseDups
  /-- Left out are only nodes whose field is not declared, or of which nothing is left below. -/
  leftOut : ∀ place ∈ original.placesOf type parent selections,
    filter.node? place = none ↔ filter.LeavesOut place

section Collecting

variable {filter : Filter} {original filtered : Scope} {type : Name}

/-- What is left of nodes with a response key is what is left of nodes that has the key. -/
theorem Filter.filter_filterMap_node? (filter : Filter) (places : List Place) (key : Name) :
    (places.filterMap filter.node?).filter (·.responseKey = key) =
      (places.filter (·.node.responseKey = key)).filterMap filter.node? := by
  rw [List.filter_filterMap, List.filterMap_filter]
  refine List.filterMap_congr fun place _ => ?_
  cases hkept : filter.node? place with
  | none => simp
  | some kept => simp [Option.filter, (of_node? hkept).2]

/-- Collecting from both sides. -/
theorem Sides.collectsLeft (sides : Sides filter original filtered) {parent : Name}
    (hparent : type ∈ filter.schema.possibleTypes parent) {selections : List Selection}
    (hkeys : ∀ name ∈ usedFragmentsOfAll (filter.filterAll parent selections),
      name ∈ filtered.fragments.keys) :
    CollectsLeft filter original filtered type parent selections := by
  have hfields := original.fieldsOf_eq type parent selections
  have hleft := filtered.fieldsOf_eq type parent (filter.filterAll parent selections)
  rw [sides.map_placesOf hparent hkeys] at hleft
  refine ⟨hfields, hleft, fun key => ?_, fun key => ?_, ?_, fun _ _ => Filter.node?_eq_none_iff⟩
  · rw [hfields, get?_byResponseKey, List.filter_map]
    rfl
  · rw [hleft, get?_byResponseKey, filter.filter_filterMap_node?]
  · rw [hleft, keys_byResponseKey]

end Collecting

/-! ## Documents -/

/-- How fields are collected with the fragments of a document. -/
def scopeOf (schema : Schema) (document : Document) (vars : Entries Json)
    (includes : List Directive → Entries Json → Bool) : Scope where
  schema := schema
  fragments := document.fragmentsByName
  vars := vars
  includes := includes

/-- How fields are collected with what a filter leaves of the fragments that can be spread. -/
def Filter.scope (filter : Filter) (vars : Entries Json)
    (includes : List Directive → Entries Json → Bool) : Scope where
  schema := filter.schema
  fragments := filter.fragments.mapValues filter.fragment
  vars := vars
  includes := includes

section Documents

variable {schema : Schema} {document : Document}
  (hunique : (document.fragments.map Fragment.name).Nodup)

include hunique

/-- A fragment is found under its name when names are unique. -/
theorem get?_fragmentsByName {fragment : Fragment} (hmem : fragment ∈ document.fragments) :
    document.fragmentsByName.get? fragment.name = some fragment := by
  refine Entries.get?_insertAll_of_forall
    (List.mem_map.mpr ⟨_, List.mem_map.mpr ⟨fragment, hmem, rfl⟩, rfl⟩) ?_
  rintro pair hpair hname
  obtain ⟨other, hother, rfl⟩ := List.mem_map.mp hpair
  exact List.inj_on_of_nodup_map hunique hother hmem hname

/-- So is a fragment on a type of the schema, among those. -/
theorem Filter.get?_fragmentsOn {fragment : Fragment} (hmem : fragment ∈ document.fragments)
    (htype : schema.hasType fragment.condition = true) :
    (fragmentsOn schema document).get? fragment.name = some fragment := by
  refine Entries.get?_insertAll_of_forall
    (List.mem_map.mpr ⟨_, List.mem_filterMap.mpr ⟨fragment, hmem, if_pos htype⟩, rfl⟩) ?_
  rintro pair hpair hname
  obtain ⟨other, hother, hsome⟩ := List.mem_filterMap.mp hpair
  split at hsome
  · cases hsome
    exact List.inj_on_of_nodup_map hunique hother hmem hname
  · exact absurd hsome (by simp)

/-- A document and fragments that are left of its own make two sides. -/
theorem sides_ofDocument (vars : Entries Json)
    (includes : List Directive → Entries Json → Bool) {fragments : Entries Fragment}
    (hleft : ∀ name fragment, fragments.get? name = some fragment →
      ∃ definition, (Filter.ofDocument schema document).fragments.get? name = some definition ∧
        (Filter.ofDocument schema document).fragment definition = fragment)
    (hclosed : ∀ name fragment, fragments.get? name = some fragment →
      ∀ other ∈ usedFragmentsOfAll fragment.selections, other ∈ fragments.keys) :
    Sides (Filter.ofDocument schema document) (scopeOf schema document vars includes)
      { schema, fragments, vars, includes } where
  originalSchema := rfl
  filteredSchema := rfl
  included := fun _ => rfl
  found := by
    intro name definition hfound
    obtain ⟨hmem, rfl, -⟩ := Filter.of_get?_ofDocument hfound
    exact get?_fragmentsByName hunique hmem
  dropped := by
    intro name definition hfound hnone type hpossible
    -- A fragment on a type of the schema that cannot be spread has been dropped for being empty.
    obtain ⟨fragment, hmem, hpair⟩ := List.mem_map.mp (Entries.mem_of_get?_ofPairs hfound)
    obtain ⟨rfl, rfl⟩ := Prod.mk.inj hpair
    have hon := Filter.get?_fragmentsOn hunique hmem
      (Schema.hasType_of_mem_possibleTypes hpossible)
    have hdistinct : (Filter.fragmentsOn schema document).keys.Nodup :=
      Entries.nodup_keys_ofPairs _
    have hkeys : (Filter.prune schema (Filter.fragmentsOn schema document)).keys.Nodup :=
      hdistinct.sublist ((Filter.prune_sublist schema _).map _)
    have hnot : (fragment.name, fragment) ∉
        Filter.prune schema (Filter.fragmentsOn schema document) := fun hkept =>
      absurd (hnone.symm.trans (Entries.get?_of_mem hkeys hkept)) (by simp)
    exact Filter.filterAll_eq_nil_of_not_mem_prune hdistinct (Entries.mem_of_get? hon) hnot
  leftOf := hleft
  closed := hclosed

/-- A document and what its filter leaves of its fragments make two sides. -/
theorem sides_filter (vars : Entries Json) (includes : List Directive → Entries Json → Bool) :
    Sides (Filter.ofDocument schema document) (scopeOf schema document vars includes)
      ((Filter.ofDocument schema document).scope vars includes) := by
  refine sides_ofDocument hunique vars includes ?_ ?_
  · intro name fragment hfound
    rw [Entries.get?_mapValues, Option.map_eq_some_iff] at hfound
    exact hfound
  · intro name fragment hfound other hother
    rw [Entries.get?_mapValues, Option.map_eq_some_iff] at hfound
    obtain ⟨definition, -, rfl⟩ := hfound
    obtain ⟨found, hspread⟩ := Filter.exists_spread_filterAll _ hother
    rw [← Entries.exists_get?_iff, Entries.get?_mapValues, hspread]
    exact ⟨_, rfl⟩

/-- A document and the document that is left of it make two sides. -/
theorem sides_filterToSchema (vars : Entries Json)
    (includes : List Directive → Entries Json → Bool) {output : Document}
    (h : filterToSchema schema document = .ok output) :
    Sides (Filter.ofDocument schema document) (scopeOf schema document vars includes)
      (scopeOf schema output vars includes) := by
  obtain ⟨kept, hkept, rfl⟩ := filterToSchema_eq_ok_iff.mp h
  have hleft : AreLeft schema document kept := fun _ hentry => exists_of_mem_forall₂ hkept hentry
  have hfragments : (Document.ofParts (kept.map Prod.fst)
      (unionFragments [] (kept.flatMap Prod.snd))).fragmentsByName =
        (Filter.byAll schema (unionFragments [] (kept.flatMap Prod.snd))).fragments := by
    unfold Document.fragmentsByName Filter.byAll
    rw [Document.fragments_ofParts]
    refine Entries.ofPairs_eq_self ?_
    rw [List.map_map]
    exact nodup_unionFragments _
  unfold scopeOf
  rw [hfragments]
  refine sides_ofDocument hunique vars includes ?_ ?_
  · intro name fragment hfound
    obtain ⟨hmem, rfl⟩ := Filter.of_get?_byAll hfound
    obtain ⟨-, -, -, -, hdefinition⟩ := hleft.of_mem_union hmem
    exact hdefinition
  · intro name fragment hfound other hother
    obtain ⟨hmem, rfl⟩ := Filter.of_get?_byAll hfound
    obtain ⟨entry, hentry, -, hname, definition, hdefinition, rfl⟩ := hleft.of_mem_union hmem
    obtain ⟨otherDefinition, hotherFound, hotherMem⟩ := hleft.mem_union hentry
      (Filter.mem_reachedNames_of_fragment _ hname hdefinition hother)
    have hget := Filter.get?_byAll schema (nodup_unionFragments _) hotherMem
    have hsame : ((Filter.ofDocument schema document).fragment otherDefinition).name = other :=
      (Filter.of_get?_ofDocument hotherFound).2.1
    rw [hsame] at hget
    exact Entries.exists_get?_iff.mp ⟨_, hget⟩

end Documents

/-- From what is left of selections an object of a type that is possible for them selects, under
each response key and in order, what is left of the nodes that it selects from the selections. Left
out are only nodes whose field is not declared and nodes with nothing left below. So it is with what
is left of the fragments, and with the fragments of the filtered document when the selections spread
only these. -/
theorem collectsLeft_of_mem_possibleTypes {schema : Schema} {document : Document}
    (hunique : (document.fragments.map Fragment.name).Nodup) {type parent : Name}
    (hpossible : type ∈ schema.possibleTypes parent) (vars : Entries Json)
    (includes : List Directive → Entries Json → Bool) (selections : List Selection) :
    CollectsLeft (Filter.ofDocument schema document) (scopeOf schema document vars includes)
        ((Filter.ofDocument schema document).scope vars includes) type parent selections ∧
      ∀ output, filterToSchema schema document = .ok output →
        (∀ name ∈ usedFragmentsOfAll ((Filter.ofDocument schema document).filterAll parent
          selections), name ∈ output.fragments.map Fragment.name) →
        CollectsLeft (Filter.ofDocument schema document) (scopeOf schema document vars includes)
          (scopeOf schema output vars includes) type parent selections := by
  constructor
  · refine (sides_filter hunique vars includes).collectsLeft hpossible fun name hname => ?_
    obtain ⟨definition, hfound⟩ := Filter.exists_spread_filterAll _ hname
    change name ∈ ((Filter.ofDocument schema document).fragments.mapValues _).keys
    rw [← Entries.exists_get?_iff, Entries.get?_mapValues, hfound]
    exact ⟨_, rfl⟩
  · intro output houtput hspreads
    refine (sides_filterToSchema hunique vars includes houtput).collectsLeft hpossible
      fun name hname => ?_
    obtain ⟨fragment, hmem, rfl⟩ := List.mem_map.mp (hspreads name hname)
    have hdistinct : (output.fragments.map Fragment.name).Nodup := by
      obtain ⟨operations, fragments, rfl, hfiltered⟩ := isFiltered_of_filterToSchema houtput
      rw [Document.fragments_ofParts]
      exact hfiltered.distinct
    exact Entries.exists_get?_iff.mp ⟨fragment, get?_fragmentsByName hdistinct hmem⟩

/-- The definitions of a service of users with friends. -/
def friendText : String :=
  "type Query { me: User } type User { id: ID name: String friend: User }"

/-- The schema that they define. -/
def friendSchema : Schema where
  types := Builtin.introspectionTypes ++ ["String", "Boolean", "ID"].map Builtin.scalar ++ [
    Builtin.object "Query" [Builtin.field "me" (.named "User")],
    Builtin.object "User" [Builtin.field "id" (.named "ID"), Builtin.field "name" (.named "String"),
      Builtin.field "friend" (.named "User")]]
  directives := Builtin.directives
  roots := [(.query, "Query")]

/-- Selections of a friend, first of what the service does not declare. -/
def friendSelections : List Selection := [
  .spread "Aged" [], .field { name := "id" },
  .field { name := "friend", selections := [.field { name := "name" }] }]

/-- A query with these selections. -/
def friendQuery : Document := [
  .operation { selections := [.field { name := "me", selections := friendSelections }] },
  .fragment {
    name := "Aged", condition := "User"
    selections := [.field { name := "friend", selections := [.field { name := "age" }] }] }]

/-- What is left of the selections is collected so. -/
theorem collectsLeft_friendSelections :
    (friendQuery.fragments.map Fragment.name).Nodup ∧
      "User" ∈ friendSchema.possibleTypes "User" ∧
      CollectsLeft (Filter.ofDocument friendSchema friendQuery)
        (scopeOf friendSchema friendQuery [] isIncluded)
        ((Filter.ofDocument friendSchema friendQuery).scope [] isIncluded) "User" "User"
        friendSelections := by
  have hunique : (friendQuery.fragments.map Fragment.name).Nodup := by decide
  have hpossible : "User" ∈ friendSchema.possibleTypes "User" := by decide
  exact ⟨hunique, hpossible,
    (collectsLeft_of_mem_possibleTypes hunique hpossible [] isIncluded friendSelections).1⟩

/-- The response keys of what is left are not in the order of those of the selections: nothing is
left of the first node of the friend, but of the other one. -/
theorem not_sublist_keys_friendSelections :
    Schema.parse? friendText = some friendSchema ∧
      (friendQuery.fragments.map Fragment.name).Nodup ∧
      "User" ∈ friendSchema.possibleTypes "User" ∧
      ¬ (((Filter.ofDocument friendSchema friendQuery).scope [] isIncluded).fieldsOf "User"
          ((Filter.ofDocument friendSchema friendQuery).filterAll "User"
            friendSelections)).keys.Sublist
        ((scopeOf friendSchema friendQuery [] isIncluded).fieldsOf "User"
          friendSelections).keys := by
  have hkeys : ((scopeOf friendSchema friendQuery [] isIncluded).fieldsOf "User"
      friendSelections).keys = ["friend", "id"] := by rfl
  have hleft : (((Filter.ofDocument friendSchema friendQuery).scope [] isIncluded).fieldsOf "User"
      ((Filter.ofDocument friendSchema friendQuery).filterAll "User" friendSelections)).keys =
        ["id", "friend"] := by rfl
  refine ⟨by decide +kernel, by decide, by decide, ?_⟩
  rw [hkeys, hleft]
  decide

end Gateway.Transform
