import Gateway.Proofs.Entries
import Gateway.Proofs.Names
import Gateway.Transform.Expand

/-!
# Fragments that take the place of fragments

A fragment on a replaced abstract type gets one new fragment for each object type that takes the
place of this type. A name for it is always free (`replacementName_freshNumber_not_mem`), so all
fragments have different names in the end, when those of the document have. Which new fragments
have been made is told by a list of the fragments with their replacements, in the order in which
they were made (`Replacements.Made`).
-/

namespace Gateway

/-- The fragment, narrowed to an object type under another name. -/
def Fragment.narrowed (fragment : Fragment) (copy : Transform.Replacement) : Fragment :=
  { fragment with name := copy.name, condition := copy.type }

namespace Transform

/-! ## Free names -/

/-- Different numbers make different names. -/
theorem replacementName_inj {type : Name} {m n : Nat} :
    replacementName type m = replacementName type n ↔ m = n := by
  unfold replacementName
  rw [String.append_right_inj, toString_inj]

/-- The name with a fresh number is free: more numbers are tried than there are names. -/
theorem replacementName_freshNumber_not_mem (existing : List Name) (type : Name) (number : Nat) :
    replacementName type (freshNumber existing type number) ∉ existing := by
  unfold freshNumber
  cases hfound : (List.range' number (existing.length + 1)).find? fun candidate =>
      !existing.contains (replacementName type candidate) with
  | some candidate => simpa using List.find?_some hfound
  | none =>
    -- Otherwise all these names exist, but they are different and too many.
    have hdistinct : ((List.range' number (existing.length + 1)).map
        (replacementName type)).Nodup :=
      List.Nodup.map (fun _ _ h => replacementName_inj.mp h) List.nodup_range'
    obtain ⟨name, hname, hfree⟩ := exists_free_name existing hdistinct (by simp)
    obtain ⟨candidate, hcandidate, rfl⟩ := List.mem_map.mp hname
    exact absurd (by simpa using List.find?_eq_none.mp hfound candidate hcandidate) hfree

/-! ## Making new fragments -/

namespace Replacements

/-- New fragments have been added for one fragment. -/
structure Adds (fragment : Fragment) (copies : List Replacement)
    (replacements added : Replacements) : Prop where
  /-- Their names are taken. -/
  names : added.names = (copies.map Replacement.name).reverse ++ replacements.names
  /-- They were free. -/
  distinct : replacements.names.Nodup → added.names.Nodup
  /-- The fragment is narrowed to each of the types. -/
  definitions : added.definitions = replacements.definitions ++ copies.map fragment.narrowed
  /-- They are listed for the fragment. -/
  listed : ∀ present, replacements.byFragment.get? fragment.name = some present →
    added.byFragment.get? fragment.name = some (present ++ copies)
  /-- For other fragments nothing changes. -/
  others : ∀ name, name ≠ fragment.name →
    added.byFragment.get? name = replacements.byFragment.get? name

section Adds

variable {fragment : Fragment}

/-- One type adds one new fragment. -/
theorem addType_adds (fragment : Fragment) (replacements : Replacements) (type : Name) :
    ∃ copy : Replacement, copy.type = type ∧
      Adds fragment [copy] replacements (replacements.addType fragment type) := by
  refine ⟨⟨_, type⟩, rfl, rfl, ?_, rfl, ?_, ?_⟩
  · exact fun hdistinct => List.nodup_cons.mpr
      ⟨replacementName_freshNumber_not_mem replacements.names type replacements.next, hdistinct⟩
  · intro present hpresent
    unfold addType Entries.push
    rw [Entries.get?_insert, if_pos rfl, hpresent]
    rfl
  · intro name hname
    unfold addType Entries.push
    rw [Entries.get?_insert, if_neg hname]

/-- What is added for some types comes before what is added for more. -/
theorem Adds.trans {copies more : List Replacement} {first second third : Replacements}
    (h : Adds fragment copies first second) (hmore : Adds fragment more second third) :
    Adds fragment (copies ++ more) first third where
  names := by rw [hmore.names, h.names, List.map_append, List.reverse_append, List.append_assoc]
  distinct hdistinct := hmore.distinct (h.distinct hdistinct)
  definitions := by rw [hmore.definitions, h.definitions, List.map_append, List.append_assoc]
  listed present hpresent := by
    rw [hmore.listed _ (h.listed present hpresent), List.append_assoc]
  others name hname := (hmore.others name hname).trans (h.others name hname)

/-- Each of several types adds one new fragment. -/
theorem exists_adds (fragment : Fragment) (replacements : Replacements) (types : List Name) :
    ∃ copies : List Replacement, copies.map Replacement.type = types ∧
      Adds fragment copies replacements
        (types.foldl (fun replacements type => replacements.addType fragment type)
          replacements) := by
  induction types generalizing replacements with
  | nil => exact ⟨[], rfl, rfl, id, (List.append_nil _).symm,
      fun present hpresent => by rw [List.append_nil]; exact hpresent, fun _ _ => rfl⟩
  | cons type rest ih =>
    obtain ⟨copy, rfl, hfirst⟩ := addType_adds fragment replacements type
    obtain ⟨copies, rfl, hrest⟩ := ih (replacements.addType fragment copy.type)
    exact ⟨copy :: copies, rfl, hfirst.trans hrest⟩

end Adds

/-- What has been made of some fragments, told by the fragments with their replacements; the names
that exist otherwise are given. -/
structure Made (expansion : Expansion) (existing : List Name) (fragments : List Fragment)
    (made : List (Fragment × Replacement)) (replacements : Replacements) : Prop where
  /-- The taken names are those that exist and those of the replacements. -/
  names : replacements.names = (made.map (·.2.name)).reverse ++ existing
  /-- They are different. -/
  distinct : replacements.names.Nodup
  /-- The new fragments are narrowed ones. -/
  definitions : replacements.definitions = made.map fun entry => entry.1.narrowed entry.2
  /-- A fragment on another type is not replaced. -/
  kept : ∀ fragment ∈ fragments, expansion.get? fragment.condition = none →
    replacements.byFragment.get? fragment.name = none
  /-- A fragment on a replaced type has one replacement for each type that takes its place. -/
  replaced : ∀ fragment ∈ fragments, ∀ types, expansion.get? fragment.condition = some types →
    ∃ copies, replacements.byFragment.get? fragment.name = some copies ∧
      copies.map Replacement.type = types ∧ ∀ copy ∈ copies, (fragment, copy) ∈ made
  /-- All replacements are listed. -/
  listed : ∀ entry ∈ made, ∃ copies,
    replacements.byFragment.get? entry.1.name = some copies ∧ entry.2 ∈ copies
  /-- Nothing else is replaced. -/
  only : ∀ name copies, replacements.byFragment.get? name = some copies →
    name ∈ fragments.map Fragment.name

section Made

variable {expansion : Expansion} {existing : List Name} {fragments : List Fragment}
  {made : List (Fragment × Replacement)} {replacements : Replacements}

/-- A fragment without replacements is on a type that is not replaced. -/
theorem Made.get?_condition_eq_none (h : Made expansion existing fragments made replacements)
    {fragment : Fragment} (hmem : fragment ∈ fragments)
    (hnone : replacements.byFragment.get? fragment.name = none) :
    expansion.get? fragment.condition = none := by
  rw [Option.eq_none_iff_forall_ne_some]
  intro types htypes
  obtain ⟨copies, hcopies, -, -⟩ := h.replaced fragment hmem types htypes
  exact absurd (hnone.symm.trans hcopies) (by simp)

/-- What has replacements is one of the fragments, on a replaced type. -/
theorem Made.exists_replaced (h : Made expansion existing fragments made replacements)
    {name : Name} {copies : List Replacement}
    (hcopies : replacements.byFragment.get? name = some copies) :
    ∃ fragment ∈ fragments, fragment.name = name ∧
      expansion.get? fragment.condition = some (copies.map Replacement.type) ∧
      ∀ copy ∈ copies, (fragment, copy) ∈ made := by
  obtain ⟨fragment, hmem, rfl⟩ := List.mem_map.mp (h.only name copies hcopies)
  cases htypes : expansion.get? fragment.condition with
  | none => exact absurd ((h.kept fragment hmem htypes).symm.trans hcopies) (by simp)
  | some types =>
    obtain ⟨copies', hcopies', rfl, hmade⟩ := h.replaced fragment hmem types htypes
    cases hcopies.symm.trans hcopies'
    exact ⟨fragment, hmem, rfl, htypes, hmade⟩

/-- All replacements have different names. -/
theorem Made.nodup_names (h : Made expansion existing fragments made replacements) :
    (made.map (·.2.name)).Nodup := by
  have hdistinct := h.distinct
  rw [h.names] at hdistinct
  exact List.nodup_reverse.mp (List.nodup_append.mp hdistinct).1

end Made

/-- One more fragment is replaced, or not. -/
theorem Made.addFragment {expansion : Expansion} {existing : List Name}
    {fragments : List Fragment} {made : List (Fragment × Replacement)}
    {replacements : Replacements} (h : Made expansion existing fragments made replacements)
    {fragment : Fragment} (hnew : fragment.name ∉ fragments.map Fragment.name) :
    ∃ more, Made expansion existing (fragments ++ [fragment]) (made ++ more)
      (replacements.addFragment expansion fragment) := by
  have hnone : replacements.byFragment.get? fragment.name = none := by
    rw [Option.eq_none_iff_forall_ne_some]
    exact fun copies hsome => hnew (h.only fragment.name copies hsome)
  have hother : ∀ other ∈ fragments, other.name ≠ fragment.name := fun other hmem heq =>
    hnew (heq ▸ List.mem_map_of_mem hmem)
  unfold Replacements.addFragment
  cases htypes : expansion.get? fragment.condition with
  | none =>
    -- Nothing is made of a fragment on another type.
    refine ⟨[], ?_⟩
    rw [List.append_nil]
    refine { h with kept := ?_, replaced := ?_, only := ?_ }
    · rw [List.forall_mem_append, List.forall_mem_singleton]
      exact ⟨h.kept, fun _ => hnone⟩
    · rw [List.forall_mem_append, List.forall_mem_singleton]
      exact ⟨h.replaced, fun types hsome => absurd (htypes.symm.trans hsome) (by simp)⟩
    · intro name copies hsome
      rw [List.map_append]
      exact List.mem_append_left _ (h.only name copies hsome)
  | some types =>
    dsimp only
    rw [hnone, Option.getD_none]
    obtain ⟨copies, hcopies, hadds⟩ := exists_adds fragment
      { replacements with byFragment := replacements.byFragment.insert fragment.name [] } types
    have hlisted := hadds.listed [] (by rw [Entries.get?_insert, if_pos rfl])
    rw [List.nil_append] at hlisted
    -- For the fragments before it the list is as it was.
    have hothers : ∀ name, name ≠ fragment.name →
        (types.foldl (fun (added : Replacements) type => added.addType fragment type)
          { replacements with
            byFragment := replacements.byFragment.insert fragment.name [] }).byFragment.get? name =
          replacements.byFragment.get? name := by
      intro name hname
      rw [hadds.others name hname, Entries.get?_insert, if_neg hname]
    refine ⟨copies.map (Prod.mk fragment), ?_, hadds.distinct h.distinct, ?_, ?_, ?_, ?_, ?_⟩
    · rw [hadds.names, h.names, List.map_append, List.map_map, List.reverse_append,
        List.append_assoc]
      rfl
    · rw [hadds.definitions, h.definitions, List.map_append, List.map_map]
      rfl
    · rw [List.forall_mem_append, List.forall_mem_singleton]
      refine ⟨fun other hmem hkept => ?_, fun hkept => absurd (htypes.symm.trans hkept) (by simp)⟩
      rw [hothers other.name (hother other hmem), h.kept other hmem hkept]
    · rw [List.forall_mem_append, List.forall_mem_singleton]
      constructor
      · intro other hmem others hsome
        obtain ⟨present, hpresent, htype, hmade⟩ := h.replaced other hmem others hsome
        refine ⟨present, ?_, htype, fun copy hcopy => List.mem_append_left _ (hmade copy hcopy)⟩
        rw [hothers other.name (hother other hmem), hpresent]
      · intro others hsome
        obtain rfl : types = others := Option.some.inj (htypes.symm.trans hsome)
        exact ⟨copies, hlisted, hcopies, fun copy hcopy =>
          List.mem_append_right _ (List.mem_map_of_mem hcopy)⟩
    · rw [List.forall_mem_append]
      constructor
      · intro entry hentry
        obtain ⟨present, hpresent, hmem⟩ := h.listed entry hentry
        have hname : entry.1.name ≠ fragment.name := (Entries.ne_of_get? hnone hpresent).symm
        exact ⟨present, (hothers _ hname).trans hpresent, hmem⟩
      · intro entry hentry
        obtain ⟨copy, hcopy, rfl⟩ := List.mem_map.mp hentry
        exact ⟨copies, hlisted, hcopy⟩
    · intro name present hsome
      rw [List.map_append, List.mem_append, List.map_singleton, List.mem_singleton]
      by_cases hname : name = fragment.name
      · exact .inr hname
      · rw [hothers name hname] at hsome
        exact .inl (h.only name present hsome)

/-- The fragments of a document are replaced one after another. -/
theorem exists_made (expansion : Expansion) {document : Document}
    (hunique : (document.fragments.map Fragment.name).Nodup) :
    ∃ made, Made expansion (document.fragments.map Fragment.name) document.fragments made
      (ofDocument expansion document) := by
  unfold ofDocument
  -- The names of the whole document are taken from the start, so they stay fixed in the induction.
  suffices h : ∀ fragments : List Fragment, (fragments.map Fragment.name).Nodup →
      ∃ made, Made expansion (document.fragments.map Fragment.name) fragments made
        (fragments.foldl (Replacements.addFragment expansion)
          { names := document.fragments.map Fragment.name }) from h _ hunique
  intro fragments hdistinct
  induction fragments using List.reverseRecOn with
  | nil => exact ⟨[], rfl, hunique, rfl, by simp, by simp, by simp, by simp [Entries.get?]⟩
  | append_singleton fragments last ih =>
    rw [List.map_append, List.nodup_append] at hdistinct
    obtain ⟨made, hmade⟩ := ih hdistinct.1
    have hnew : last.name ∉ fragments.map Fragment.name := fun hmem =>
      hdistinct.2.2 _ hmem _ List.mem_cons_self rfl
    obtain ⟨more, hmore⟩ := hmade.addFragment hnew
    rw [List.foldl_append]
    exact ⟨made ++ more, hmore⟩

end Replacements

end Transform

end Gateway
