import Gateway.Proofs.Except
import Gateway.Proofs.Language.Places
import Gateway.Proofs.Transform.Pruned
import Gateway.Proofs.Transform.Reached
import Mathlib.Data.List.Flatten

/-!
# Filtered documents

`IsFiltered` says what a document is that has nothing left to filter: the filter by all of its
fragments leaves its operations and fragments as they are, its fragments are those that its
operations reach, in the order in which they are met, and its variables are used. The filter gives
such documents (`isFiltered_of_filterToSchema`) and leaves them as they are
(`filterToSchema_of_isFiltered`).

The fragments of the filter that made a document are more than those of the document. But what is
spread in it is reached, so both filters have alike fragments as far as it matters.
-/

namespace Gateway

namespace Transform

/-! ## Fragments of several operations -/

/-- A last fragment is added unless one of its name is there. -/
theorem unionFragments_concat (fragments more : List Fragment) (last : Fragment) :
    unionFragments fragments (more ++ [last]) =
      if (unionFragments fragments more).any (·.name = last.name) then
        unionFragments fragments more
      else unionFragments fragments more ++ [last] := by
  unfold unionFragments
  rw [List.foldl_append]
  rfl

/-- No two fragments of a union have one name. -/
theorem nodup_unionFragments (more : List Fragment) :
    ((unionFragments [] more).map Fragment.name).Nodup := by
  induction more using List.reverseRecOn with
  | nil => exact List.nodup_nil
  | append_singleton more last ih =>
    rw [unionFragments_concat]
    split
    · exact ih
    · rename_i hnone
      rw [List.map_append, List.nodup_append]
      refine ⟨ih, List.pairwise_singleton _ _, ?_⟩
      intro name hname other hother
      rw [List.mem_singleton.mp hother]
      rintro rfl
      obtain ⟨fragment, hmem, hsame⟩ := List.mem_map.mp hname
      exact hnone (List.any_eq_true.mpr ⟨fragment, hmem, decide_eq_true hsame⟩)

/-- A union has only the fragments that are added. -/
theorem mem_of_mem_unionFragments {more : List Fragment} {fragment : Fragment}
    (h : fragment ∈ unionFragments [] more) : fragment ∈ more := by
  induction more using List.reverseRecOn with
  | nil => exact h
  | append_singleton more last ih =>
    rw [unionFragments_concat] at h
    split at h
    · exact List.mem_append_left _ (ih h)
    · rcases List.mem_append.mp h with h | h
      · exact List.mem_append_left _ (ih h)
      · exact List.mem_append_right _ h

/-- For each fragment that is added a union has one of its name. -/
theorem exists_mem_unionFragments {more : List Fragment} {fragment : Fragment}
    (h : fragment ∈ more) : ∃ other ∈ unionFragments [] more, other.name = fragment.name := by
  induction more using List.reverseRecOn with
  | nil => exact absurd h List.not_mem_nil
  | append_singleton more last ih =>
    rw [unionFragments_concat]
    split
    · rename_i hany
      rcases List.mem_append.mp h with h | h
      · exact ih h
      · obtain ⟨other, hother, hsame⟩ := List.any_eq_true.mp hany
        rw [List.mem_singleton.mp h]
        exact ⟨other, hother, of_decide_eq_true hsame⟩
    · rcases List.mem_append.mp h with h | h
      · obtain ⟨other, hother, hsame⟩ := ih h
        exact ⟨other, List.mem_append_left _ hother, hsame⟩
      · exact ⟨fragment, List.mem_append_right _ h, rfl⟩

/-- A union of fragments that are changed under their names is the changed union. -/
theorem unionFragments_map (change : Fragment → Fragment)
    (hname : ∀ fragment, (change fragment).name = fragment.name) (more : List Fragment) :
    unionFragments [] (more.map change) = (unionFragments [] more).map change := by
  induction more using List.reverseRecOn with
  | nil => rfl
  | append_singleton more last ih =>
    have hany : ((unionFragments [] more).map change).any (·.name = (change last).name) =
        (unionFragments [] more).any (·.name = last.name) := by
      rw [List.any_map, hname]
      simp only [Function.comp_def, hname]
    rw [List.map_append, List.map_singleton, unionFragments_concat, unionFragments_concat, ih, hany]
    split
    · rfl
    · rw [List.map_append, List.map_singleton]

/-! ## The filter of a document -/

namespace Filter

/-- What is left of an operation depends on its root type. -/
theorem operation_eq_ok_iff {filter : Filter} {original kept : Operation}
    {fragments : List Fragment} :
    filter.operation original = .ok (kept, fragments) ↔
      ∃ root, filter.schema.root? original.kind = some root ∧
        fragments = filter.reached (filter.filterAll root original.selections) ∧
        kept = { original with
          selections := filter.filterAll root original.selections
          vars := original.vars.filter fun declared =>
            (variablesOf { original with selections := filter.filterAll root original.selections }
              fragments).contains declared.name } := by
  unfold operation
  cases hroot : filter.schema.root? original.kind with
  | none => simp
  | some root =>
    simp only [Except.ok.injEq, Prod.mk.injEq, Option.some.injEq, exists_eq_left']
    constructor
    · rintro ⟨rfl, rfl⟩
      exact ⟨rfl, rfl⟩
    · rintro ⟨rfl, rfl⟩
      exact ⟨rfl, rfl⟩

/-- The fragments of a document that are on types of a schema, by name. -/
def fragmentsOn (schema : Schema) (document : Document) : Entries Fragment :=
  Entries.ofPairs <| document.fragments.filterMap fun fragment =>
    if schema.hasType fragment.condition then some (fragment.name, fragment) else none

variable {schema : Schema} {document : Document} {name : Name} {definition : Fragment}

/-- A fragment on a type of the schema is one of the document, under its name. -/
theorem of_get?_fragmentsOn (h : (fragmentsOn schema document).get? name = some definition) :
    definition ∈ document.fragments ∧ definition.name = name ∧
      schema.hasType definition.condition = true := by
  obtain ⟨fragment, hmem, hsome⟩ := List.mem_filterMap.mp (Entries.mem_of_get?_ofPairs h)
  split at hsome
  · rename_i htype
    obtain ⟨rfl, rfl⟩ := Prod.mk.inj (Option.some.inj hsome)
    exact ⟨hmem, rfl, htype⟩
  · exact absurd hsome (by simp)

/-- What the filter of a document can spread is a fragment on a type of the schema. -/
theorem get?_fragmentsOn_of_ofDocument
    (h : (ofDocument schema document).fragments.get? name = some definition) :
    (fragmentsOn schema document).get? name = some definition :=
  Entries.get?_of_mem (Entries.nodup_keys_ofPairs _)
    ((prune_sublist schema (fragmentsOn schema document)).mem (Entries.mem_of_get? h))

/-- What the filter of a document can spread is a fragment of the document, under its name. -/
theorem of_get?_ofDocument
    (h : (ofDocument schema document).fragments.get? name = some definition) :
    definition ∈ document.fragments ∧ definition.name = name ∧
      schema.hasType definition.condition = true :=
  of_get?_fragmentsOn (get?_fragmentsOn_of_ofDocument h)

/-- Something is left of each fragment that the filter of a document can spread. -/
theorem fragment_ofDocument_ne_nil
    (h : (ofDocument schema document).fragments.get? name = some definition) :
    ((ofDocument schema document).fragment definition).selections ≠ [] :=
  have hmem : (name, definition) ∈ prune schema (fragmentsOn schema document) :=
    Entries.mem_of_get? h
  left_of_mem_prune hmem

/-- The filter by all of some fragments. -/
def byAll (schema : Schema) (fragments : List Fragment) : Filter where
  schema := schema
  fragments := fragments.map fun fragment => (fragment.name, fragment)

/-- The filter by all fragments finds each of them. -/
theorem get?_byAll (schema : Schema) {fragments : List Fragment}
    (hdistinct : (fragments.map Fragment.name).Nodup) {fragment : Fragment}
    (hmem : fragment ∈ fragments) :
    (byAll schema fragments).fragments.get? fragment.name = some fragment := by
  refine Entries.get?_of_mem ?_ (List.mem_map.mpr ⟨fragment, hmem, rfl⟩)
  unfold byAll Entries.keys
  rw [List.map_map]
  exact hdistinct

/-- It finds nothing else. -/
theorem of_get?_byAll {fragments : List Fragment} {fragment : Fragment}
    (h : (byAll schema fragments).fragments.get? name = some fragment) :
    fragment ∈ fragments ∧ fragment.name = name := by
  obtain ⟨found, hmem, heq⟩ := List.mem_map.mp (Entries.mem_of_get? h)
  obtain ⟨rfl, rfl⟩ := Prod.mk.inj heq
  exact ⟨hmem, rfl⟩

/-- It finds fragments that are changed under their names. -/
theorem get?_byAll_map (schema : Schema) {change : Fragment → Fragment}
    (hname : ∀ fragment, (change fragment).name = fragment.name) (fragments : List Fragment)
    (name : Name) :
    (byAll schema (fragments.map change)).fragments.get? name =
      ((byAll schema fragments).fragments.get? name).map change := by
  rw [← Entries.get?_mapValues]
  unfold byAll Entries.mapValues
  rw [List.map_map, List.map_map]
  simp only [Function.comp_def, hname]

/-- A fragment whose selections are left as they are is left as it is. -/
theorem fragment_eq_of_fixes {filter : Filter} {fragment : Fragment}
    (h : filter.Fixes fragment.condition fragment.selections) :
    filter.fragment fragment = fragment := by
  unfold Filter.fragment
  rw [h.filterAll_eq]

section FixesAll

variable {fragments : List Fragment} (hfixed : ∀ fragment ∈ fragments,
  (byAll schema fragments).Fixes fragment.condition fragment.selections)

include hfixed

/-- When all fragments are left as they are, a name leads to what its fragment spreads. -/
theorem spreadsOf_byAll (name : Name) :
    (byAll schema fragments).spreadsOf name =
      ((byAll schema fragments).fragments.get? name).map fun fragment =>
        (usedFragmentsOfAll fragment.selections).eraseDups := by
  unfold spreadsOf
  refine Option.map_congr fun fragment hfound => ?_
  rw [fragment_eq_of_fixes (hfixed fragment (of_get?_byAll hfound).1)]

/-- When all fragments are left as they are, the fragments of the reached names are reached. -/
theorem reached_byAll (selections : List Selection) :
    (byAll schema fragments).reached selections =
      ((byAll schema fragments).reachedNames selections).filterMap
        (byAll schema fragments).fragments.get? := by
  refine List.filterMap_congr fun name _ => ?_
  cases hfound : (byAll schema fragments).fragments.get? name with
  | none => rfl
  | some fragment =>
    rw [Option.map_some, fragment_eq_of_fixes (hfixed fragment (of_get?_byAll hfound).1)]

end FixesAll

end Filter

/-- A document is filtered when its operations come with the fragments that they reach. -/
theorem filterToSchema_eq_ok_iff {schema : Schema} {document output : Document} :
    filterToSchema schema document = .ok output ↔
      ∃ kept : List (Operation × List Fragment),
        List.Forall₂ (fun original entry =>
          (Filter.ofDocument schema document).operation original = .ok entry)
            document.operations kept ∧
        output = .ofParts (kept.map Prod.fst) (unionFragments [] (kept.flatMap Prod.snd)) := by
  have hunion : ∀ kept : List (Operation × List Fragment),
      (kept.map Prod.snd).foldl unionFragments [] = unionFragments [] (kept.flatMap Prod.snd) := by
    intro kept
    unfold unionFragments
    rw [List.flatMap_def, List.foldl_flatten]
  unfold filterToSchema
  rw [except_bind_eq_ok_iff]
  refine exists_congr fun kept => and_congr mapM_eq_ok_iff ?_
  rw [hunion]
  unfold Document.ofParts
  rw [List.map_map]
  exact ⟨fun h => (Except.ok.inj h).symm, fun h => congrArg Except.ok h.symm⟩

/-! ## Nothing left to filter -/

/-- Operations and fragments that have nothing left to filter. -/
structure IsFiltered (schema : Schema) (operations : List Operation)
    (fragments : List Fragment) : Prop where
  /-- The fragments have different names. -/
  distinct : (fragments.map Fragment.name).Nodup
  /-- They are on types of the schema. -/
  typed : ∀ fragment ∈ fragments, schema.hasType fragment.condition = true
  /-- They select something. -/
  nonempty : ∀ fragment ∈ fragments, fragment.selections ≠ []
  /-- What they select is left as it is. -/
  fixed : ∀ fragment ∈ fragments,
    (Filter.byAll schema fragments).Fixes fragment.condition fragment.selections
  /-- What an operation selects is left as it is. -/
  rooted : ∀ operation ∈ operations, ∃ root, schema.root? operation.kind = some root ∧
    (Filter.byAll schema fragments).Fixes root operation.selections
  /-- The fragments are those that the operations reach, in order. -/
  reached : fragments = unionFragments [] (operations.flatMap fun operation =>
    (Filter.byAll schema fragments).reached operation.selections)
  /-- An operation declares only variables that it or a fragment that it reaches uses. -/
  used : ∀ operation ∈ operations, ∀ declared ∈ operation.vars, declared.name ∈
    Filter.variablesOf operation ((Filter.byAll schema fragments).reached operation.selections)

section IsFiltered

variable {schema : Schema} {operations : List Operation} {fragments : List Fragment}

/-- The filter of a document that has nothing left to filter is the filter by all its fragments. -/
theorem IsFiltered.ofDocument_eq (h : IsFiltered schema operations fragments) :
    Filter.ofDocument schema (.ofParts operations fragments) =
      Filter.byAll schema fragments := by
  have hfragments : Filter.fragmentsOn schema (.ofParts operations fragments) =
      (Filter.byAll schema fragments).fragments := by
    unfold Filter.fragmentsOn Filter.byAll
    rw [Document.fragments_ofParts]
    have hall : (fragments.filterMap fun fragment =>
        if schema.hasType fragment.condition then some (fragment.name, fragment) else none) =
          fragments.map fun fragment => (fragment.name, fragment) := by
      rw [← List.filterMap_eq_map]
      refine List.filterMap_congr fun fragment hmem => ?_
      rw [if_pos (h.typed fragment hmem)]
      rfl
    rw [hall]
    refine Entries.ofPairs_eq_self ?_
    rw [List.map_map]
    exact h.distinct
  change Filter.mk schema (Filter.prune schema (Filter.fragmentsOn schema _)) = _
  rw [hfragments]
  have hprune : Filter.prune schema (Filter.byAll schema fragments).fragments =
      (Filter.byAll schema fragments).fragments := by
    refine Filter.prune_eq_self fun entry hentry => ?_
    obtain ⟨fragment, hmem, rfl⟩ := List.mem_map.mp hentry
    rw [show Filter.mk schema (Filter.byAll schema fragments).fragments =
      Filter.byAll schema fragments from rfl, (h.fixed fragment hmem).filterAll_eq]
    exact h.nonempty fragment hmem
  rw [hprune]
  rfl

/-- A document that has nothing left to filter is left as it is. -/
theorem filterToSchema_of_isFiltered (h : IsFiltered schema operations fragments) :
    filterToSchema schema (.ofParts operations fragments) =
      .ok (.ofParts operations fragments) := by
  refine filterToSchema_eq_ok_iff.mpr ⟨operations.map fun operation =>
    (operation, (Filter.byAll schema fragments).reached operation.selections), ?_, ?_⟩
  · rw [h.ofDocument_eq, Document.operations_ofParts, List.forall₂_map_right_iff,
      List.forall₂_same]
    intro operation hmem
    obtain ⟨root, hroot, hfixes⟩ := h.rooted operation hmem
    refine Filter.operation_eq_ok_iff.mpr ⟨root, hroot, ?_, ?_⟩
    · rw [hfixes.filterAll_eq]
    · have hvars : operation.vars.filter (fun declared =>
          (Filter.variablesOf operation
            ((Filter.byAll schema fragments).reached operation.selections)).contains
              declared.name) = operation.vars :=
        List.filter_eq_self.mpr fun declared hdeclared =>
          List.contains_iff_mem.mpr (h.used operation hmem declared hdeclared)
      rw [hfixes.filterAll_eq]
      rw [show { operation with selections := operation.selections } = operation from rfl, hvars]
  · rw [List.map_map, List.flatMap_map]
    exact congrArg₂ _ (List.map_id _).symm h.reached

end IsFiltered

/-! ## What is left has nothing left to filter -/

namespace Filter

/-- What is left of an operation comes with the fragments that it reaches, and uses the variables
that it declares. -/
theorem left_of_operation {filter : Filter} {original : Operation}
    {entry : Operation × List Fragment} (h : filter.operation original = .ok entry) :
    ∃ root, filter.schema.root? entry.1.kind = some root ∧
      entry.1.selections = filter.filterAll root original.selections ∧
      entry.2 = filter.reached entry.1.selections ∧
      ∀ declared ∈ entry.1.vars, declared.name ∈ variablesOf entry.1 entry.2 := by
  obtain ⟨kept, fragments⟩ := entry
  obtain ⟨root, hroot, hfragments, rfl⟩ := operation_eq_ok_iff.mp h
  refine ⟨root, hroot, rfl, hfragments, fun declared hdeclared => ?_⟩
  exact List.contains_iff_mem.mp (List.mem_filter.mp hdeclared).2

variable {schema : Schema} {document : Document} {selections : List Selection}

/-- A reached fragment is what is left of the fragment of its name. -/
theorem of_mem_reached {fragment : Fragment}
    (h : fragment ∈ (ofDocument schema document).reached selections) :
    fragment.name ∈ (ofDocument schema document).reachedNames selections ∧
      ∃ definition, (ofDocument schema document).fragments.get? fragment.name = some definition ∧
        (ofDocument schema document).fragment definition = fragment := by
  obtain ⟨name, hname, definition, hfound, rfl⟩ := (mem_reached_iff _).mp h
  have hsame : definition.name = name := (of_get?_ofDocument hfound).2.1
  rw [show ((ofDocument schema document).fragment definition).name = name from hsame]
  exact ⟨hname, definition, hfound, rfl⟩

/-- For a reached name there is a fragment. -/
theorem mem_reached_of_name {name : Name}
    (h : name ∈ (ofDocument schema document).reachedNames selections) :
    ∃ definition, (ofDocument schema document).fragments.get? name = some definition ∧
      (ofDocument schema document).fragment definition ∈
        (ofDocument schema document).reached selections := by
  obtain ⟨-, hknown⟩ := ((ofDocument schema document).explores_reachedNames selections).mem_iff.mp h
  obtain ⟨definition, hfound⟩ := Option.isSome_iff_exists.mp (Option.isSome_map ▸ hknown)
  exact ⟨definition, hfound, (mem_reached_iff _).mpr ⟨name, h, definition, hfound, rfl⟩⟩

end Filter

section AreLeft

variable {schema : Schema} {document : Document} {kept : List (Operation × List Fragment)}

/-- What is left of operations of a document. -/
def AreLeft (schema : Schema) (document : Document) (kept : List (Operation × List Fragment)) :
    Prop :=
  ∀ entry ∈ kept, ∃ original ∈ document.operations,
    (Filter.ofDocument schema document).operation original = .ok entry

/-- The fragment of a name that an operation reaches is among those of all operations. -/
theorem AreLeft.mem_union (h : AreLeft schema document kept)
    {entry : Operation × List Fragment} (hentry : entry ∈ kept) {name : Name}
    (hname : name ∈ (Filter.ofDocument schema document).reachedNames entry.1.selections) :
    ∃ definition, (Filter.ofDocument schema document).fragments.get? name = some definition ∧
      (Filter.ofDocument schema document).fragment definition ∈
        unionFragments [] (kept.flatMap Prod.snd) := by
  obtain ⟨definition, hfound, hreached⟩ := Filter.mem_reached_of_name hname
  obtain ⟨original, -, horiginal⟩ := h entry hentry
  obtain ⟨-, -, -, hfragments, -⟩ := Filter.left_of_operation horiginal
  rw [← hfragments] at hreached
  obtain ⟨other, hother, hsame⟩ :=
    exists_mem_unionFragments (List.mem_flatMap.mpr ⟨entry, hentry, hreached⟩)
  -- The fragment of this name that the union has is the same one, whichever operation added it.
  have hotherName : other.name = name := hsame.trans (Filter.of_get?_ofDocument hfound).2.1
  obtain ⟨entry', hentry', hmem⟩ := List.mem_flatMap.mp (mem_of_mem_unionFragments hother)
  obtain ⟨original', -, horiginal'⟩ := h entry' hentry'
  obtain ⟨-, -, -, hfragments', -⟩ := Filter.left_of_operation horiginal'
  rw [hfragments'] at hmem
  obtain ⟨-, definition', hfound', rfl⟩ := Filter.of_mem_reached hmem
  rw [hotherName, hfound, Option.some.injEq] at hfound'
  rw [← hfound'] at hother
  exact ⟨definition, hfound, hother⟩

/-- The filter by the fragments that are left has alike fragments under the names that an operation
reaches. -/
theorem AreLeft.hasAlike (h : AreLeft schema document kept)
    {entry : Operation × List Fragment} (hentry : entry ∈ kept) {name : Name}
    (hname : name ∈ (Filter.ofDocument schema document).reachedNames entry.1.selections) :
    Filter.HasAlike (Filter.ofDocument schema document).fragments
      (Filter.byAll schema (unionFragments [] (kept.flatMap Prod.snd))).fragments name := by
  intro definition hfound
  obtain ⟨definition', hfound', hmem⟩ := h.mem_union hentry hname
  obtain rfl : definition = definition' := Option.some.inj (hfound.symm.trans hfound')
  have hsame : ((Filter.ofDocument schema document).fragment definition).name = name :=
    (Filter.of_get?_ofDocument hfound).2.1
  have hget := Filter.get?_byAll schema (nodup_unionFragments _) hmem
  rw [hsame] at hget
  exact ⟨_, hget, rfl⟩

/-- A fragment that is left is reached from one of the operations. -/
theorem AreLeft.of_mem_union (h : AreLeft schema document kept) {fragment : Fragment}
    (hmem : fragment ∈ unionFragments [] (kept.flatMap Prod.snd)) :
    ∃ entry ∈ kept, fragment ∈ entry.2 ∧
      fragment.name ∈ (Filter.ofDocument schema document).reachedNames entry.1.selections ∧
      ∃ definition,
        (Filter.ofDocument schema document).fragments.get? fragment.name = some definition ∧
        (Filter.ofDocument schema document).fragment definition = fragment := by
  obtain ⟨entry, hentry, hfragment⟩ := List.mem_flatMap.mp (mem_of_mem_unionFragments hmem)
  obtain ⟨original, -, horiginal⟩ := h entry hentry
  obtain ⟨-, -, -, hfragments, -⟩ := Filter.left_of_operation horiginal
  obtain ⟨hname, hdefinition⟩ := Filter.of_mem_reached (hfragments ▸ hfragment)
  exact ⟨entry, hentry, hfragment, hname, hdefinition⟩

/-- A fragment that is left is left as it is by the filter by all of them. -/
theorem AreLeft.fixes_fragment (h : AreLeft schema document kept) {fragment : Fragment}
    (hmem : fragment ∈ unionFragments [] (kept.flatMap Prod.snd)) :
    (Filter.byAll schema (unionFragments [] (kept.flatMap Prod.snd))).Fixes fragment.condition
      fragment.selections := by
  obtain ⟨entry, hentry, -, hname, definition, hfound, hleft⟩ := h.of_mem_union hmem
  rw [← hleft]
  exact Filter.fixes_filterAll fun name hspread =>
    h.hasAlike hentry (Filter.mem_reachedNames_of_fragment _ hname hfound hspread)

/-- What is left of an operation is left as it is by the filter by all fragments. -/
theorem AreLeft.fixes_operation (h : AreLeft schema document kept)
    {entry : Operation × List Fragment} (hentry : entry ∈ kept) :
    ∃ root, schema.root? entry.1.kind = some root ∧
      (Filter.byAll schema (unionFragments [] (kept.flatMap Prod.snd))).Fixes root
        entry.1.selections := by
  obtain ⟨original, -, horiginal⟩ := h entry hentry
  obtain ⟨root, hroot, hselections, -, -⟩ := Filter.left_of_operation horiginal
  refine ⟨root, hroot, ?_⟩
  rw [hselections]
  refine Filter.fixes_filterAll fun name hspread => h.hasAlike hentry ?_
  rw [hselections]
  exact Filter.mem_reachedNames_of_spread _ hspread

/-- The filter by the fragments that are left reaches the same fragments from an operation. -/
theorem AreLeft.reached_eq (h : AreLeft schema document kept)
    {entry : Operation × List Fragment} (hentry : entry ∈ kept) :
    (Filter.byAll schema (unionFragments [] (kept.flatMap Prod.snd))).reached
      entry.1.selections = entry.2 := by
  set first := Filter.ofDocument schema document with hfirst
  set second := Filter.byAll schema (unionFragments [] (kept.flatMap Prod.snd)) with hsecond
  obtain ⟨original, -, horiginal⟩ := h entry hentry
  obtain ⟨root, -, hselections, hfragments, -⟩ := Filter.left_of_operation horiginal
  -- Under a reached name the second filter finds what is left of the fragment of the first one.
  have hfound : ∀ name ∈ first.reachedNames entry.1.selections,
      second.fragments.get? name = (first.fragments.get? name).map first.fragment := by
    intro name hname
    obtain ⟨definition, hdefinition, hmem⟩ := h.mem_union hentry hname
    have hget := Filter.get?_byAll schema (nodup_unionFragments _) hmem
    have hsame : (first.fragment definition).name = name :=
      (Filter.of_get?_ofDocument hdefinition).2.1
    rw [← hfirst, hsame] at hget
    rw [hdefinition]
    exact hget
  have hspreads : ∀ name ∈ first.reachedNames entry.1.selections,
      first.spreadsOf name = second.spreadsOf name := by
    intro name hname
    rw [hsecond, Filter.spreadsOf_byAll (fun _ hmem => h.fixes_fragment hmem), ← hsecond,
      hfound name hname, Option.map_map]
    rfl
  -- Both searches follow the same names, so they have the same outcome, in the same order.
  have hnames : second.reachedNames entry.1.selections =
      first.reachedNames entry.1.selections := by
    refine (second.explores_reachedNames _).unique
      ((first.explores_reachedNames _).congr hspreads ?_ ?_)
    · intro name hname names hnext other hother
      obtain ⟨definition, hdefinition, rfl⟩ := Option.map_eq_some_iff.mp hnext
      exact Filter.mem_reachedNames_of_fragment _ hname hdefinition (List.mem_eraseDups.mp hother)
    · intro name hname
      rw [hselections] at hname ⊢
      exact Filter.mem_reachedNames_of_spread _ (List.mem_eraseDups.mp hname)
  rw [hfragments, hsecond, Filter.reached_byAll (fun _ hmem => h.fixes_fragment hmem), ← hsecond,
    hnames]
  exact List.filterMap_congr hfound

/-- What is left of operations, with the fragments that they reach, has nothing left to filter. -/
theorem AreLeft.isFiltered (h : AreLeft schema document kept) :
    IsFiltered schema (kept.map Prod.fst) (unionFragments [] (kept.flatMap Prod.snd)) where
  distinct := nodup_unionFragments _
  typed := by
    intro fragment hmem
    obtain ⟨-, -, -, -, definition, hfound, rfl⟩ := h.of_mem_union hmem
    exact (Filter.of_get?_ofDocument hfound).2.2
  nonempty := by
    intro fragment hmem
    obtain ⟨-, -, -, -, definition, hfound, rfl⟩ := h.of_mem_union hmem
    exact Filter.fragment_ofDocument_ne_nil hfound
  fixed := fun _ hmem => h.fixes_fragment hmem
  rooted := by
    intro operation hmem
    obtain ⟨entry, hentry, rfl⟩ := List.mem_map.mp hmem
    exact h.fixes_operation hentry
  reached := by
    rw [List.flatMap_map]
    exact congrArg _ (List.flatMap_congr fun entry hentry => (h.reached_eq hentry).symm)
  used := by
    intro operation hmem
    obtain ⟨entry, hentry, rfl⟩ := List.mem_map.mp hmem
    obtain ⟨original, -, horiginal⟩ := h entry hentry
    obtain ⟨-, -, -, -, hused⟩ := Filter.left_of_operation horiginal
    rw [h.reached_eq hentry]
    exact hused

end AreLeft

/-- A filtered document has nothing left to filter. -/
theorem isFiltered_of_filterToSchema {schema : Schema} {document output : Document}
    (h : filterToSchema schema document = .ok output) :
    ∃ operations fragments, output = .ofParts operations fragments ∧
      IsFiltered schema operations fragments := by
  obtain ⟨kept, hkept, rfl⟩ := filterToSchema_eq_ok_iff.mp h
  have hleft : AreLeft schema document kept := fun _ hentry => exists_of_mem_forall₂ hkept hentry
  exact ⟨_, _, rfl, hleft.isFiltered⟩

end Transform

end Gateway
