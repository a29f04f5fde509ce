import Gateway.Proofs.Fetched.Reported

/-!
# Errors at positions without data

The value of a position without data is made of the errors that were reported for it, child by child
(`FetchedValue.ofErrors_eq`). It reports them all, at whatever paths, except where children get in
each other's way: the parts of an object have names, and an index that comes later has the name of a
key that is its text. What was reported beneath that key is displaced (`Displaced`);
`FetchedValue.mem_contents_ofErrors_iff` says that nothing else is.
-/

namespace Gateway

/-! ## What errors say -/

/-- What an error says, wherever it is. -/
def GraphError.content (error : GraphError) : GraphError :=
  error.withPath none

/-- An error says the same at another path. -/
@[simp]
theorem GraphError.content_withPath (error : GraphError) (path : Option Path) :
    (error.withPath path).content = error.content := rfl

/-- An error says the same as seen from its child. -/
@[simp]
theorem GraphError.content_relativeToChild (error : GraphError) :
    error.relativeToChild.content = error.content := rfl

/-- An error says the same as seen from further out. -/
@[simp]
theorem GraphError.content_under (error : GraphError) (position : Path) :
    (error.under position).content = error.content := rfl

namespace FetchedValue

/-- What the errors held anywhere in a value say. -/
def contents (value : FetchedValue) : List GraphError :=
  value.errors.map GraphError.content

mutual

/-- The errors held in a value say the same wherever the value stands. -/
theorem map_content_errorsAt : ∀ (value : FetchedValue) (path path' : Path),
    (value.errorsAt path).map GraphError.content = (value.errorsAt path').map GraphError.content
  | .null, _, _ => rfl
  | .leaf _, _, _ => rfl
  | .error held, path, path' => by
    simp [errorsAt]
  | .list items, path, path' => by
    rw [errorsAt, errorsAt]
    exact map_content_errorsOfItems items path path' 0 0
  | .object ⟨fields, errors, _, _⟩, path, path' => by
    rw [errorsAt, errorsAt, List.map_append, List.map_append,
      map_content_errorsOfFields fields path path']
    simp

/-- So do the errors held in items. -/
theorem map_content_errorsOfItems : ∀ (items : List FetchedValue) (path path' : Path)
    (position position' : Nat),
    (errorsOfItems path position items).map GraphError.content =
      (errorsOfItems path' position' items).map GraphError.content
  | [], _, _, _, _ => rfl
  | item :: rest, path, path', position, position' => by
    rw [errorsOfItems, errorsOfItems, List.map_append, List.map_append,
      map_content_errorsAt item _ (path'.join (.index position')),
      map_content_errorsOfItems rest path path' (position + 1) (position' + 1)]

/-- So do the errors held in fields. -/
theorem map_content_errorsOfFields : ∀ (fields : List (String × FetchedValue)) (path path' : Path),
    (errorsOfFields path fields).map GraphError.content =
      (errorsOfFields path' fields).map GraphError.content
  | [], _, _ => rfl
  | (key, value) :: rest, path, path' => by
    rw [errorsOfFields, errorsOfFields, List.map_append, List.map_append,
      map_content_errorsAt value _ (path'.join (.key key)),
      map_content_errorsOfFields rest path path']

end

section Contents

variable {said : GraphError}

/-- A list reports what its items report. -/
theorem mem_contents_list_iff {items : List FetchedValue} :
    said ∈ (FetchedValue.list items).contents ↔ ∃ item ∈ items, said ∈ item.contents := by
  have hitems : ∀ position, said ∈ (errorsOfItems [] position items).map GraphError.content ↔
      ∃ item ∈ items, said ∈ item.contents := by
    induction items with
    | nil => simp [errorsOfItems]
    | cons item rest ih =>
      intro position
      rw [errorsOfItems, List.map_append, List.mem_append, ih, List.exists_mem_cons_iff,
        map_content_errorsAt item _ []]
      rfl
  exact hitems 0

/-- An object reports what its fields report, and the errors for which no field accounts. -/
theorem mem_contents_object_iff {object : FetchedObject} :
    said ∈ (FetchedValue.object object).contents ↔
      (∃ field ∈ object.fields, said ∈ field.2.contents) ∨
        ∃ error ∈ object.errors, isUnaccounted object.keys error = true ∧
          error.content = said := by
  obtain ⟨fields, errors, owner, fieldOwners⟩ := object
  have hfields : said ∈ (errorsOfFields [] fields).map GraphError.content ↔
      ∃ field ∈ fields, said ∈ field.2.contents := by
    induction fields with
    | nil => simp [errorsOfFields]
    | cons field rest ih =>
      rw [errorsOfFields, List.map_append, List.mem_append, ih, List.exists_mem_cons_iff,
        map_content_errorsAt field.2 _ []]
      rfl
  change said ∈ (errorsOfFields [] fields ++ _).map GraphError.content ↔ _
  rw [List.map_append, List.mem_append, hfields]
  simp [ObjectOf.keys, and_assoc]

/-- A position with errors reports them. -/
theorem mem_contents_error_iff {held : FetchedError} :
    said ∈ (FetchedValue.error held).contents ↔
      ∃ error ∈ held.errors, error.content = said := by
  unfold contents FetchedValue.errors
  rw [errorsAt, List.map_map, List.mem_map]
  rfl

end Contents

end FetchedValue

/-! ## Groups of errors -/

/-- Adding an error to a group adds the group behind the others, unless it is there. -/
theorem addToGroup_map_fst (child : Segment) (error : GraphError)
    (groups : List (Segment × List GraphError)) :
    (addToGroup child error groups).map Prod.fst =
      if child ∈ groups.map Prod.fst then groups.map Prod.fst
      else groups.map Prod.fst ++ [child] := by
  induction groups with
  | nil => rfl
  | cons first rest ih =>
    obtain ⟨other, errors⟩ := first
    rw [addToGroup]
    by_cases hother : other = child
    · simp [hother]
    · rw [if_neg hother, List.map_cons, ih, List.map_cons]
      by_cases hmem : child ∈ rest.map Prod.fst
      · rw [if_pos hmem, if_pos (List.mem_cons_of_mem _ hmem)]
      · rw [if_neg hmem, if_neg, List.cons_append]
        rw [List.mem_cons, not_or]
        exact ⟨fun h => hother h.symm, hmem⟩

/-- A group that an error is added to is another one, or it has the error behind what it had. -/
theorem mem_addToGroup {child : Segment} {error : GraphError}
    {groups : List (Segment × List GraphError)} (hdistinct : (groups.map Prod.fst).Nodup)
    {group : Segment × List GraphError} (h : group ∈ addToGroup child error groups) :
    (group.1 ≠ child ∧ group ∈ groups) ∨
      ∃ errors, group = (child, errors ++ [error]) ∧
        ((child, errors) ∈ groups ∨ errors = [] ∧ child ∉ groups.map Prod.fst) := by
  induction groups with
  | nil =>
    rw [addToGroup, List.mem_singleton] at h
    exact .inr ⟨[], h, .inr ⟨rfl, List.not_mem_nil⟩⟩
  | cons first rest ih =>
    obtain ⟨other, errors⟩ := first
    obtain ⟨hfirst, hrest⟩ := List.nodup_cons.mp hdistinct
    rw [addToGroup] at h
    by_cases hother : other = child
    · rw [if_pos hother, List.mem_cons] at h
      rcases h with rfl | h
      · exact .inr ⟨errors, by rw [hother], .inl (by rw [hother]; exact List.mem_cons_self)⟩
      · refine .inl ⟨fun hchild => hfirst ?_, List.mem_cons_of_mem _ h⟩
        exact List.mem_map.mpr ⟨group, h, hchild.trans hother.symm⟩
    · rw [if_neg hother, List.mem_cons] at h
      rcases h with rfl | h
      · exact .inl ⟨hother, List.mem_cons_self⟩
      · rcases ih hrest h with ⟨hne, hmem⟩ | ⟨earlier, hgroup, hearlier⟩
        · exact .inl ⟨hne, List.mem_cons_of_mem _ hmem⟩
        · refine .inr ⟨earlier, hgroup, hearlier.imp (List.mem_cons_of_mem _) ?_⟩
          rintro ⟨hnil, hnone⟩
          refine ⟨hnil, ?_⟩
          rw [List.map_cons, List.mem_cons, not_or]
          exact ⟨fun h => hother h.symm, hnone⟩

section Groups

variable {errors : List GraphError}

/-- The children that errors are about, in the order in which they first come up. -/
def firstSegments (errors : List GraphError) : List Segment :=
  (errorsByChild errors).map Prod.fst

/-- A last error is added to the group of its child. -/
theorem errorsByChild_append_singleton (errors : List GraphError) (error : GraphError) :
    errorsByChild (errors ++ [error]) =
      match error.firstSegment? with
      | some child => addToGroup child error.relativeToChild (errorsByChild errors)
      | none => errorsByChild errors := by
  unfold errorsByChild
  rw [List.foldl_append]
  rfl

/-- The child of a last error comes last, if it did not come up before. -/
theorem firstSegments_append_singleton (errors : List GraphError) (error : GraphError) :
    (firstSegments (errors ++ [error]) = firstSegments errors ∧
      ∀ child, error.firstSegment? = some child → child ∈ firstSegments errors) ∨
      ∃ child, error.firstSegment? = some child ∧ child ∉ firstSegments errors ∧
        firstSegments (errors ++ [error]) = firstSegments errors ++ [child] := by
  unfold firstSegments
  rw [errorsByChild_append_singleton]
  cases herror : error.firstSegment? with
  | none => exact .inl ⟨rfl, by simp⟩
  | some child =>
    dsimp only
    rw [addToGroup_map_fst]
    by_cases hmem : child ∈ (errorsByChild errors).map Prod.fst
    · rw [if_pos hmem]
      exact .inl ⟨rfl, by simpa using hmem⟩
    · rw [if_neg hmem]
      exact .inr ⟨child, rfl, hmem, rfl⟩

/-- No child comes up twice. -/
theorem nodup_firstSegments (errors : List GraphError) : (firstSegments errors).Nodup := by
  induction errors using List.reverseRecOn with
  | nil => exact List.nodup_nil
  | append_singleton errors error ih =>
    rcases firstSegments_append_singleton errors error with ⟨hsame, -⟩ | ⟨child, -, hnew, happend⟩
    · rw [hsame]
      exact ih
    · rw [happend, ← List.concat_eq_append]
      exact ih.concat hnew

/-- A child comes up when an error is about it. -/
theorem mem_firstSegments_iff {segment : Segment} :
    segment ∈ firstSegments errors ↔ ∃ error ∈ errors, error.firstSegment? = some segment := by
  induction errors using List.reverseRecOn with
  | nil => simp [firstSegments, errorsByChild]
  | append_singleton errors error ih =>
    simp only [List.mem_append, or_and_right, exists_or, ← ih, List.mem_singleton,
      exists_eq_left]
    rcases firstSegments_append_singleton errors error with ⟨hsame, hold⟩ |
      ⟨child, hchild, -, happend⟩
    · rw [hsame]
      exact ⟨.inl, fun h => h.elim id (hold segment)⟩
    · rw [happend, hchild, List.mem_append, List.mem_singleton, Option.some.injEq]
      simp only [eq_comm]

/-- The group of a child holds the errors about it. -/
theorem eq_errorsOfChild_of_mem {segment : Segment} {group : List GraphError}
    (h : (segment, group) ∈ errorsByChild errors) : group = errorsOfChild segment errors := by
  induction errors using List.reverseRecOn generalizing group with
  | nil => exact absurd h List.not_mem_nil
  | append_singleton errors error ih =>
    rw [errorsByChild_append_singleton] at h
    have hsplit : errorsOfChild segment (errors ++ [error]) =
        errorsOfChild segment errors ++ errorsOfChild segment [error] := by
      unfold errorsOfChild
      rw [List.filter_append, List.map_append]
    rw [hsplit]
    cases herror : error.firstSegment? with
    | none =>
      rw [herror] at h
      rw [ih h]
      simp [errorsOfChild, herror]
    | some child =>
      rw [herror] at h
      rcases mem_addToGroup (nodup_firstSegments errors) h with ⟨hne, hmem⟩ |
        ⟨earlier, hgroup, hearlier⟩
      · have hother : child ≠ segment := fun h => hne h.symm
        rw [ih hmem]
        simp [errorsOfChild, herror, hother]
      · obtain ⟨rfl, rfl⟩ := Prod.mk.inj hgroup
        have hlast : errorsOfChild segment [error] = [error.relativeToChild] := by
          simp [errorsOfChild, herror]
        rw [hlast]
        congr 1
        rcases hearlier with hmem | ⟨rfl, hnew⟩
        · exact ih hmem
        · -- Nothing before the last error is about this child.
          refine (List.map_eq_nil_iff.mpr (List.filter_eq_nil_iff.mpr ?_)).symm
          intro other hother hsegment
          exact hnew (mem_firstSegments_iff.mpr ⟨other, hother, of_decide_eq_true hsegment⟩)

/-- The groups are those of the children that come up. -/
theorem errorsByChild_eq (errors : List GraphError) :
    errorsByChild errors =
      (firstSegments errors).map fun segment => (segment, errorsOfChild segment errors) := by
  unfold firstSegments
  rw [List.map_map]
  conv_lhs => rw [← List.map_id (errorsByChild errors)]
  exact List.map_congr_left fun group hgroup =>
    Prod.ext rfl (eq_errorsOfChild_of_mem hgroup)

/-- An error about a child is in its group, as seen from the child. -/
theorem mem_errorsOfChild_iff {segment : Segment} {error : GraphError} :
    error ∈ errorsOfChild segment errors ↔
      ∃ reported ∈ errors, reported.firstSegment? = some segment ∧
        reported.relativeToChild = error := by
  unfold errorsOfChild
  rw [List.mem_map]
  simp [and_assoc]

/-! ### Order -/

/-- An error about one child is there before the first one about another. -/
def Precedes (errors : List GraphError) (first second : Segment) : Prop :=
  ∃ before after, errors = before ++ after ∧
    (∃ error ∈ before, error.firstSegment? = some first) ∧
    (∀ error ∈ before, error.firstSegment? ≠ some second) ∧
    ∃ error ∈ after, error.firstSegment? = some second

/-- Children that come up before others do so when more errors follow. -/
theorem firstSegments_prefix (before after : List GraphError) :
    firstSegments before <+: firstSegments (before ++ after) := by
  induction after using List.reverseRecOn with
  | nil => exact (List.append_nil before).symm ▸ List.prefix_rfl
  | append_singleton after error ih =>
    rw [← List.append_assoc]
    rcases firstSegments_append_singleton (before ++ after) error with ⟨hsame, -⟩ |
      ⟨child, -, -, happend⟩
    · rw [hsame]
      exact ih
    · rw [happend]
      exact ih.trans (List.prefix_append _ _)

/-- One child comes up before another when an error about it is there before the first one about
the other. -/
theorem precedes_iff {first second : Segment} :
    Precedes errors first second ↔
      ∃ before after, firstSegments errors = before ++ after ∧ first ∈ before ∧
        second ∈ after := by
  constructor
  · rintro ⟨before, after, rfl, hfirst, hnot, error, herror, hsecond⟩
    obtain ⟨rest, hrest⟩ := firstSegments_prefix before after
    refine ⟨_, rest, hrest.symm, mem_firstSegments_iff.mpr hfirst, ?_⟩
    have hmem : second ∈ firstSegments before ++ rest := by
      rw [hrest]
      exact mem_firstSegments_iff.mpr ⟨error, List.mem_append_right _ herror, hsecond⟩
    refine (List.mem_append.mp hmem).resolve_left fun hearly => ?_
    obtain ⟨other, hother, hsegment⟩ := mem_firstSegments_iff.mp hearly
    exact hnot other hother hsegment
  · rintro ⟨before, after, happend, hfirst, hsecond⟩
    -- By induction from behind: the other child comes up with the last error or before it.
    induction errors using List.reverseRecOn generalizing after with
    | nil =>
      obtain ⟨-, rfl⟩ := List.append_eq_nil_iff.mp happend.symm
      exact absurd hsecond List.not_mem_nil
    | append_singleton errors error ih =>
      have hmore : Precedes errors first second → Precedes (errors ++ [error]) first second := by
        rintro ⟨before, after, rfl, hfirst, hnot, other, hother, hsegment⟩
        exact ⟨before, after ++ [error], List.append_assoc .., hfirst, hnot, other,
          List.mem_append_left _ hother, hsegment⟩
      rcases firstSegments_append_singleton errors error with ⟨hsame, -⟩ |
        ⟨child, hchild, hnew, hlast⟩
      · exact hmore (ih after (hsame.symm.trans happend) hsecond)
      · rcases List.eq_nil_or_concat after with rfl | ⟨earlier, last, rfl⟩
        · exact absurd hsecond List.not_mem_nil
        · rw [List.concat_eq_append] at happend hsecond
          rw [hlast, ← List.append_assoc] at happend
          obtain ⟨hbefore, hchildren⟩ := List.append_inj' happend rfl
          rcases List.mem_append.mp hsecond with hearly | hlate
          · exact hmore (ih earlier hbefore hearly)
          · obtain rfl : child = second := by
              rw [List.mem_singleton.mp hlate]
              exact (List.cons.inj hchildren).1
            refine ⟨errors, [error], rfl, mem_firstSegments_iff.mp ?_, fun other hother hsegment =>
              hnew (mem_firstSegments_iff.mpr ⟨other, hother, hsegment⟩), error,
              List.mem_singleton_self _, hchild⟩
            rw [hbefore]
            exact List.mem_append_left _ hfirst

/-! ### Positions without data -/

/-- No path is longer than a bound when the longest one is not. -/
theorem longestPath_le_iff {bound : Nat} :
    longestPath errors ≤ bound ↔ ∀ error ∈ errors, (error.path.getD []).length ≤ bound := by
  unfold longestPath
  induction errors with
  | nil => simp
  | cons error rest ih =>
    rw [List.map_cons, List.foldr_cons, Nat.max_le, ih, List.forall_mem_cons]

/-- Paths are shorter as seen from a child. -/
theorem longestPath_errorsOfChild_le {bound : Nat} (h : longestPath errors ≤ bound + 1)
    (segment : Segment) : longestPath (errorsOfChild segment errors) ≤ bound := by
  rw [longestPath_le_iff] at h ⊢
  intro error hmem
  obtain ⟨reported, hreported, -, rfl⟩ := mem_errorsOfChild_iff.mp hmem
  have hlength := h reported hreported
  unfold GraphError.relativeToChild GraphError.withPath Path.relative
  cases hpath : reported.path with
  | none => exact Nat.zero_le _
  | some path =>
    rw [hpath] at hlength
    simp only [Option.getD_some, Option.map_some, List.length_drop] at hlength ⊢
    omega

end Groups

namespace FetchedValue

variable {owner : String} {errors : List GraphError}

/-- Errors without a path are about the value itself. -/
theorem ownErrors_ne_nil_of_longestPath {error : GraphError} (hmem : error ∈ errors)
    (h : longestPath errors ≤ 0) : ownErrors errors ≠ [] := by
  have hpath := longestPath_le_iff.mp h error hmem
  refine List.ne_nil_of_mem (List.mem_filter.mpr ⟨hmem, ?_⟩)
  unfold GraphError.firstSegment?
  cases hsome : error.path with
  | none => rfl
  | some path =>
    rw [hsome, Option.getD_some, Nat.le_zero, List.length_eq_zero_iff] at hpath
    rw [hpath]
    rfl

/-- Induction from the errors about a position to those about its children, which have shorter
paths. -/
@[elab_as_elim]
theorem errors_induction {motive : List GraphError → Prop} (nil : motive [])
    (own : ∀ errors, ownErrors errors ≠ [] → motive errors)
    (children : ∀ errors, errors ≠ [] → ownErrors errors = [] →
      (∀ segment, motive (errorsOfChild segment errors)) → motive errors)
    (errors : List GraphError) : motive errors := by
  suffices h : ∀ bound errors, longestPath errors ≤ bound → motive errors from
    h _ errors (Nat.le_refl _)
  intro bound
  induction bound with
  | zero =>
    intro errors hbound
    cases errors with
    | nil => exact nil
    | cons first rest =>
      exact own _ (ownErrors_ne_nil_of_longestPath List.mem_cons_self hbound)
  | succ bound ih =>
    intro errors hbound
    by_cases hne : errors = []
    · exact hne ▸ nil
    by_cases hown : ownErrors errors = []
    · exact children errors hne hown fun segment =>
        ih _ (longestPath_errorsOfChild_le hbound segment)
    · exact own errors hown

/-- The groups of list items are those of indices. -/
theorem mem_itemGroups_iff {groups : List (Segment × List GraphError)}
    {group : Nat × List GraphError} :
    group ∈ itemGroups groups ↔ (.index group.1, group.2) ∈ groups := by
  obtain ⟨position, errors⟩ := group
  unfold itemGroups
  rw [List.mem_mergeSort, List.mem_filterMap]
  constructor
  · rintro ⟨⟨_ | _, _⟩, hgroup, h⟩
    · cases h
      exact hgroup
    · cases h
  · intro hgroup
    exact ⟨_, hgroup, rfl⟩

/-- A bound that no path exceeds does not matter. -/
theorem ofErrorsWithin_eq (owner : String) : ∀ {bound bound' : Nat} {errors : List GraphError},
    longestPath errors ≤ bound → longestPath errors ≤ bound' →
    ofErrorsWithin owner bound errors = ofErrorsWithin owner bound' errors
  | _, _, [], _, _ => by simp [ofErrorsWithin]
  | 0, bound', _ :: _, h, _ => by
    have hown := ownErrors_ne_nil_of_longestPath List.mem_cons_self h
    cases bound' <;> simp [ofErrorsWithin, hown]
  | bound + 1, 0, _ :: _, _, h => by
    have hown := ownErrors_ne_nil_of_longestPath List.mem_cons_self h
    simp [ofErrorsWithin, hown]
  | bound + 1, bound' + 1, first :: rest, h, h' => by
    have hgroup : ∀ group ∈ errorsByChild (first :: rest),
        ofErrorsWithin owner bound group.2 = ofErrorsWithin owner bound' group.2 := by
      rintro ⟨segment, group⟩ hgroup
      obtain rfl := eq_errorsOfChild_of_mem hgroup
      exact ofErrorsWithin_eq owner (longestPath_errorsOfChild_le h segment)
        (longestPath_errorsOfChild_le h' segment)
    have hfields : ((errorsByChild (first :: rest)).map fun group =>
        (group.1.text, ofErrorsWithin owner bound group.2)) =
        (errorsByChild (first :: rest)).map fun group =>
          (group.1.text, ofErrorsWithin owner bound' group.2) :=
      List.map_congr_left fun group hmem => by rw [hgroup group hmem]
    have hitems : ((itemGroups (errorsByChild (first :: rest))).map fun group =>
        ofErrorsWithin owner bound group.2) =
        (itemGroups (errorsByChild (first :: rest))).map fun group =>
          ofErrorsWithin owner bound' group.2 :=
      List.map_congr_left fun group hmem => hgroup _ (mem_itemGroups_iff.mp hmem)
    simp only [ofErrorsWithin, hfields, hitems]

/-- One step towards the value of a position without data: when no error is about the position
itself, there is a child for each group of errors. -/
theorem ofErrors_eq (owner : String) (hne : errors ≠ []) (hown : ownErrors errors = []) :
    ofErrors owner errors =
      if (firstSegments errors).any isKey then
        .object {
          fields := Entries.ofPairs <| (firstSegments errors).map fun segment =>
            (segment.text, ofErrors owner (errorsOfChild segment errors))
          errors, owner }
      else
        .list <| (itemGroups (errorsByChild errors)).map fun group => ofErrors owner group.2 := by
  obtain ⟨error, hmem⟩ := List.exists_mem_of_ne_nil _ hne
  -- Since no path is empty, the bound on their lengths is not zero.
  obtain ⟨bound, hbound⟩ : ∃ bound, longestPath errors = bound + 1 := by
    refine Nat.exists_eq_succ_of_ne_zero fun hzero => ?_
    exact ownErrors_ne_nil_of_longestPath hmem (Nat.le_of_eq hzero) hown
  have hchild : ∀ segment, ofErrorsWithin owner bound (errorsOfChild segment errors) =
      ofErrors owner (errorsOfChild segment errors) := fun segment =>
    ofErrorsWithin_eq owner (longestPath_errorsOfChild_le (Nat.le_of_eq hbound) segment)
      (Nat.le_refl _)
  have hitems : ((itemGroups (errorsByChild errors)).map fun group =>
      ofErrorsWithin owner bound group.2) =
      (itemGroups (errorsByChild errors)).map fun group => ofErrors owner group.2 := by
    refine List.map_congr_left fun group hmem => ?_
    rw [eq_errorsOfChild_of_mem (mem_itemGroups_iff.mp hmem), hchild]
  conv_lhs => rw [ofErrors, hbound]
  cases errors with
  | nil => exact absurd rfl hne
  | cons first rest =>
    simp only [ofErrorsWithin, hown, hitems, List.isEmpty_nil, Bool.not_true, Bool.false_eq_true,
      if_false]
    simp only [errorsByChild_eq, List.any_map, List.map_map, Function.comp_def, hchild]

end FetchedValue

/-! ## Displaced errors -/

/-- What is reported beneath a key is replaced: an index has it for its text, and comes up later. -/
def IsReplaced (errors : List GraphError) (key : String) : Prop :=
  ∃ position, (Segment.index position).text = key ∧
    Precedes errors (.key key) (.index position)

/-- At a position without data, errors at a path are displaced by others. -/
inductive Displaced : List GraphError → Path → Prop
  /-- They are beneath a key that is replaced. -/
  | replaced {errors : List GraphError} {key : String} {rest : Path} (hown : ownErrors errors = [])
    (h : IsReplaced errors key) : Displaced errors (.key key :: rest)
  /-- They are displaced beneath a key. -/
  | key {errors : List GraphError} {key : String} {rest : Path} (hown : ownErrors errors = [])
    (h : Displaced (errorsOfChild (.key key) errors) rest) : Displaced errors (.key key :: rest)
  /-- They are displaced beneath an index, and all errors are about items: beside keys those about
  items are reported by the object itself. -/
  | item {errors : List GraphError} {position : Nat} {rest : Path} (hown : ownErrors errors = [])
    (hitems : ∀ error ∈ errors, ∃ other, error.firstSegment? = some (.index other))
    (h : Displaced (errorsOfChild (.index position) errors) rest) :
    Displaced errors (.index position :: rest)

/-- The path of an error about a child goes on from the child. -/
theorem GraphError.getD_path_of_firstSegment {error : GraphError} {segment : Segment}
    (h : error.firstSegment? = some segment) :
    error.path.getD [] = segment :: error.relativeToChild.path.getD [] := by
  obtain ⟨path, hpath, hfirst⟩ := Option.bind_eq_some_iff.mp h
  obtain ⟨rest, rfl⟩ := List.head?_eq_some_iff.mp hfirst
  unfold relativeToChild withPath
  rw [hpath]
  rfl

/-- A path begins with the child that the error is about. -/
theorem GraphError.head?_path (error : GraphError) :
    (error.path.getD []).head? = error.firstSegment? := by
  unfold firstSegment?
  cases error.path <;> rfl

/-- The path of an error about the value itself is empty, if it is there. -/
theorem GraphError.getD_path_of_own {error : GraphError} (h : error.firstSegment? = none) :
    error.path.getD [] = [] :=
  List.head?_eq_none_iff.mp (error.head?_path.trans h)

namespace FetchedValue

variable {errors : List GraphError} {said : GraphError} {owner : String}

/-- Without errors about the value itself, every error is about a child. -/
theorem exists_firstSegment (hown : ownErrors errors = []) {error : GraphError}
    (hmem : error ∈ errors) : ∃ segment, error.firstSegment? = some segment := by
  have hsome := List.filter_eq_nil_iff.mp hown error hmem
  exact Option.ne_none_iff_exists'.mp (by simpa using hsome)

/-- Some child is a key when one of them is. -/
theorem any_isKey_iff :
    (firstSegments errors).any isKey = true ↔ ∃ key, .key key ∈ firstSegments errors := by
  rw [List.any_eq_true]
  constructor
  · rintro ⟨_ | key, hsegment, hkey⟩
    · cases hkey
    · exact ⟨key, hsegment⟩
  · rintro ⟨key, hkey⟩
    exact ⟨_, hkey, rfl⟩

/-- All errors are about items when no child is a key. -/
theorem forall_index_iff (hown : ownErrors errors = []) :
    (∀ error ∈ errors, ∃ position, error.firstSegment? = some (.index position)) ↔
      ¬ ∃ key, .key key ∈ firstSegments errors := by
  constructor
  · rintro hitems ⟨key, hkey⟩
    obtain ⟨error, herror, hfirst⟩ := mem_firstSegments_iff.mp hkey
    obtain ⟨position, hposition⟩ := hitems error herror
    exact absurd (hfirst.symm.trans hposition) (by simp)
  · intro hnone error herror
    obtain ⟨position | key, hfirst⟩ := exists_firstSegment hown herror
    · exact ⟨position, hfirst⟩
    · exact absurd ⟨key, mem_firstSegments_iff.mpr ⟨error, herror, hfirst⟩⟩ hnone

/-- A position without data reports what is not displaced there, and nothing else. -/
def ReportsKept (owner : String) (errors : List GraphError) : Prop :=
  ∀ said, said ∈ (ofErrors owner errors).contents ↔
    ∃ error ∈ errors, error.content = said ∧ ¬ Displaced errors (error.path.getD [])

/-- What a child reports is about it and not displaced beneath it. -/
theorem ReportsKept.child_iff {segment : Segment}
    (h : ReportsKept owner (errorsOfChild segment errors)) :
    said ∈ (ofErrors owner (errorsOfChild segment errors)).contents ↔
      ∃ error ∈ errors, error.firstSegment? = some segment ∧ error.content = said ∧
        ¬ Displaced (errorsOfChild segment errors) (error.relativeToChild.path.getD []) := by
  rw [h]
  constructor
  · rintro ⟨_, hmem, hsaid, hkept⟩
    obtain ⟨error, herror, hfirst, rfl⟩ := mem_errorsOfChild_iff.mp hmem
    exact ⟨error, herror, hfirst, hsaid, hkept⟩
  · rintro ⟨error, herror, hfirst, hsaid, hkept⟩
    exact ⟨_, mem_errorsOfChild_iff.mpr ⟨error, herror, hfirst, rfl⟩, hsaid, hkept⟩

/-- A position without errors reports nothing. -/
theorem reportsKept_nil : ReportsKept owner [] := by
  intro said
  simp [ofErrors, ofErrorsWithin, contents, FetchedValue.errors, errorsAt]

/-- A position without data that errors are about itself reports everything. -/
theorem reportsKept_of_own (hown : ownErrors errors ≠ []) : ReportsKept owner errors := by
  intro said
  have hkept : ∀ path, ¬ Displaced errors path := by
    rintro path (⟨hnone, -⟩ | ⟨hnone, -⟩ | ⟨hnone, -⟩) <;> exact hown hnone
  rw [ofErrors_eq_error owner hown, mem_contents_error_iff]
  simp only [hkept, not_false_eq_true, and_true]
  rcases errors with _ | ⟨first, _ | ⟨second, rest⟩⟩
  · rfl
  · simp [FetchedError.ofErrors, FetchedError.errors]
  · rfl

/-- At a position without data whose errors are all about items, the items report what is not
displaced. -/
theorem reportsKept_of_items (hown : ownErrors errors = [])
    (hitems : ∀ error ∈ errors, ∃ position, error.firstSegment? = some (.index position))
    (ih : ∀ segment, ReportsKept owner (errorsOfChild segment errors)) :
    ReportsKept owner errors := by
  by_cases hne : errors = []
  · rw [hne]
    exact reportsKept_nil
  intro said
  have hnone : ¬ (firstSegments errors).any isKey = true :=
    fun hany => (forall_index_iff hown).mp hitems (any_isKey_iff.mp hany)
  rw [ofErrors_eq owner hne hown, if_neg hnone, mem_contents_list_iff]
  simp only [List.mem_map, exists_exists_and_eq_and, mem_itemGroups_iff]
  constructor
  · rintro ⟨group, hgroup, hsaid⟩
    rw [eq_errorsOfChild_of_mem hgroup] at hsaid
    obtain ⟨error, herror, hfirst, hsaid, hkept⟩ := (ih _).child_iff.mp hsaid
    refine ⟨error, herror, hsaid, ?_⟩
    rw [error.getD_path_of_firstSegment hfirst]
    rintro (_ | _ | ⟨-, -, hdisplaced⟩)
    exact hkept hdisplaced
  · rintro ⟨error, herror, hsaid, hkept⟩
    obtain ⟨position, hfirst⟩ := hitems error herror
    refine ⟨(position, errorsOfChild (.index position) errors), ?_, ?_⟩
    · rw [errorsByChild_eq]
      exact List.mem_map.mpr ⟨_, mem_firstSegments_iff.mpr ⟨error, herror, hfirst⟩, rfl⟩
    · refine (ih _).child_iff.mpr ⟨error, herror, hfirst, hsaid, fun hdisplaced => hkept ?_⟩
      rw [error.getD_path_of_firstSegment hfirst]
      exact .item hown hitems hdisplaced

/-- Where a child stands alone in a list, what comes after others that it is among comes after
it. -/
theorem mem_after_of_append_eq {before after earlier later : List Segment}
    {segment other : Segment} (hdistinct : (before ++ segment :: after).Nodup)
    (happend : before ++ segment :: after = earlier ++ later) (hsegment : segment ∈ earlier)
    (hother : other ∈ later) : other ∈ after := by
  have hnot : segment ∉ before := fun hmem =>
    (List.nodup_append.mp hdistinct).2.2 _ hmem _ List.mem_cons_self rfl
  rcases List.append_eq_append_iff.mp happend with ⟨middle, rfl, hmiddle⟩ | ⟨middle, rfl, -⟩
  · cases middle with
    | nil => exact absurd (by simpa using hsegment) hnot
    | cons first middle =>
      rw [(List.cons.inj hmiddle).2]
      exact List.mem_append_right _ hother
  · exact absurd (List.mem_append_left _ hsegment) hnot

section Named

variable (valueOf : Segment → FetchedValue)

/-- Among the fields of an object every child has its name. -/
theorem text_mem_keys {segment : Segment} (h : segment ∈ firstSegments errors) :
    segment.text ∈ Entries.keys (Entries.ofPairs <| (firstSegments errors).map fun segment =>
      (segment.text, valueOf segment)) := by
  rw [Entries.mem_keys_ofPairs_iff]
  exact List.mem_map.mpr ⟨_, List.mem_map_of_mem h, rfl⟩

/-- So an object accounts for what is about its keys, and not for what is about items. -/
theorem isUnaccounted_of_firstSegment {error : GraphError} {segment : Segment}
    (hmem : error ∈ errors) (hfirst : error.firstSegment? = some segment) :
    isUnaccounted (Entries.keys (Entries.ofPairs <| (firstSegments errors).map fun segment =>
      (segment.text, valueOf segment))) error = !isKey segment := by
  unfold isUnaccounted
  rw [hfirst]
  cases segment with
  | index position => rfl
  | key name =>
    have hnamed := text_mem_keys valueOf (mem_firstSegments_iff.mpr ⟨error, hmem, hfirst⟩)
    simpa [isKey, Segment.text] using hnamed

end Named

/-- At a position without data with an error about a key, the parts of an object report what is not
displaced, or the object itself does. -/
theorem reportsKept_of_key (hown : ownErrors errors = []) {key : String}
    (hkey : .key key ∈ firstSegments errors)
    (ih : ∀ segment, ReportsKept owner (errorsOfChild segment errors)) :
    ReportsKept owner errors := by
  intro said
  have hne : errors ≠ [] := by
    obtain ⟨error, herror, -⟩ := mem_firstSegments_iff.mp hkey
    exact List.ne_nil_of_mem herror
  have hany : (firstSegments errors).any isKey = true := any_isKey_iff.mpr ⟨key, hkey⟩
  -- Since there is a key, not all errors are about items.
  have hmixed : ¬ ∀ error ∈ errors, ∃ position, error.firstSegment? = some (.index position) :=
    fun hitems => (forall_index_iff hown).mp hitems ⟨key, hkey⟩
  rw [ofErrors_eq owner hne hown, if_pos hany, mem_contents_object_iff]
  unfold ObjectOf.keys
  dsimp only
  constructor
  · rintro (⟨⟨name, value⟩, hfield, hsaid⟩ | ⟨error, herror, hunaccounted, hsaid⟩)
    · -- The part is that of the last child of its name.
      obtain ⟨before, segment, after, hchildren, rfl, rfl, hlast⟩ :=
        Entries.exists_last_of_get?_ofPairs
          (Entries.get?_of_mem (Entries.nodup_keys_ofPairs _) hfield)
      obtain ⟨error, herror, hfirst, hsaid, hkept⟩ := (ih segment).child_iff.mp hsaid
      refine ⟨error, herror, hsaid, ?_⟩
      rw [error.getD_path_of_firstSegment hfirst]
      rintro (⟨-, position, htext, hprecedes⟩ | ⟨-, hdisplaced⟩ | ⟨-, hitems, -⟩)
      · obtain ⟨earlier, later, happend, hsegment, hposition⟩ := precedes_iff.mp hprecedes
        have hafter := mem_after_of_append_eq (hchildren ▸ nodup_firstSegments errors)
          (hchildren.symm.trans happend) hsegment hposition
        exact hlast _ hafter htext
      · exact hkept hdisplaced
      · exact hmixed hitems
    · -- Every key has a part, so only items are left.
      obtain ⟨segment, hfirst⟩ := exists_firstSegment hown herror
      refine ⟨error, herror, hsaid, ?_⟩
      rw [error.getD_path_of_firstSegment hfirst]
      cases segment with
      | index position =>
        rintro (_ | _ | ⟨-, hitems, -⟩)
        exact hmixed hitems
      | key name =>
        rw [isUnaccounted_of_firstSegment _ herror hfirst] at hunaccounted
        cases hunaccounted
  · rintro ⟨error, herror, hsaid, hkept⟩
    obtain ⟨segment, hfirst⟩ := exists_firstSegment hown herror
    have hmem := mem_firstSegments_iff.mpr ⟨error, herror, hfirst⟩
    rw [error.getD_path_of_firstSegment hfirst] at hkept
    cases segment with
    | index position => exact .inr ⟨error, herror, by simp [isUnaccounted, hfirst], hsaid⟩
    | key name =>
      -- The last child of the name is the key itself: an index would have replaced it.
      obtain ⟨value, hvalue⟩ := Entries.exists_get?_iff.mpr (text_mem_keys _ hmem)
      obtain ⟨before, segment, after, hchildren, htext, rfl, hlast⟩ :=
        Entries.exists_last_of_get?_ofPairs hvalue
      have hself : segment = .key name := by
        by_contra hne
        rw [hchildren, List.mem_append, List.mem_cons] at hmem
        rcases hmem with hearly | rfl | hlate
        · cases segment with
          | key other => exact hne (congrArg Segment.key htext)
          | index position =>
            exact hkept (.replaced hown ⟨position, htext,
              precedes_iff.mpr ⟨before, _, hchildren, hearly, List.mem_cons_self⟩⟩)
        · exact hne rfl
        · exact hlast _ hlate rfl
      subst hself
      refine .inl ⟨_, Entries.mem_of_get? hvalue, ?_⟩
      exact (ih _).child_iff.mpr ⟨error, herror, hfirst, hsaid, fun h => hkept (.key hown h)⟩

/-- The value of a position without data reports exactly what is not displaced there. -/
theorem mem_contents_ofErrors_iff (owner : String) (errors : List GraphError) :
    said ∈ (ofErrors owner errors).contents ↔
      ∃ error ∈ errors, error.content = said ∧ ¬ Displaced errors (error.path.getD []) := by
  suffices h : ReportsKept owner errors from h said
  induction errors using errors_induction with
  | nil => exact reportsKept_nil
  | own errors hown => exact reportsKept_of_own hown
  | children errors _ hown ih =>
    by_cases hkey : ∃ key, .key key ∈ firstSegments errors
    · obtain ⟨key, hkey⟩ := hkey
      exact reportsKept_of_key hown hkey ih
    · exact reportsKept_of_items hown ((forall_index_iff hown).mpr hkey) ih

end FetchedValue

end Gateway
