import Gateway.Fetched.Leaf
import Gateway.Fetched.Null
import Gateway.Proofs.Except
import Gateway.Proofs.Fetched.Position
import Mathlib.Data.List.Perm.Basic

/-!
# Reported errors

The errors that are reported with data are split by child on the way into a value and are put
together again when the errors held in the value are listed. A value keeps what was reported with
its data when this leads to the same errors, in some order (`FetchedValue.Keeps`). A list or an
object keeps it when each of its children keeps what was reported for the child
(`FetchedValue.keeps_of_children`).
-/

namespace Gateway

/-! ## Errors by child -/

namespace GraphError

/-- An error with a path is seen from the value itself as it is. -/
theorem under_nil {error : GraphError} {path : Path} (h : error.path = some path) :
    error.under [] = error := by
  obtain ⟨message, locations, _, extensions⟩ := error
  cases h
  rfl

/-- An error about the value itself is at its position. -/
theorem under_of_own {error : GraphError} (h : error.path = some []) (position : Path) :
    error.under position = error.withPath (some position) := by
  unfold under
  rw [h, Option.getD_some, List.append_nil]

/-- An error about a child is the same, seen from the child's position. -/
theorem relativeToChild_under {error : GraphError} {segment : Segment}
    (h : error.firstSegment? = some segment) (position : Path) :
    error.relativeToChild.under (position.join segment) = error.under position := by
  obtain ⟨path, hpath, hfirst⟩ := Option.bind_eq_some_iff.mp h
  obtain ⟨rest, rfl⟩ := List.head?_eq_some_iff.mp hfirst
  unfold under relativeToChild Path.join withPath
  rw [hpath]
  simp [Path.relative]

end GraphError

/-- The errors about a child, seen from its position, are those that begin with it. -/
theorem map_under_errorsOfChild (segment : Segment) (errors : List GraphError) (position : Path) :
    (errorsOfChild segment errors).map (·.under (position.join segment)) =
      (errors.filter fun error => error.firstSegment? = some segment).map (·.under position) := by
  unfold errorsOfChild
  rw [List.map_map]
  refine List.map_congr_left fun error hmem => ?_
  exact error.relativeToChild_under (by simpa using (List.mem_filter.mp hmem).2) position

/-- Errors that are all about some of the children are put together from those about each of
these. -/
theorem perm_flatMap_filter {segments : List Segment} (hdistinct : segments.Nodup)
    {errors : List GraphError}
    (hall : ∀ error ∈ errors, ∃ segment ∈ segments, error.firstSegment? = some segment) :
    (segments.flatMap fun segment =>
      errors.filter fun error => error.firstSegment? = some segment).Perm errors := by
  -- By induction on the children: the errors about the first one are put before the others.
  induction segments generalizing errors with
  | nil =>
    have hnone : errors = [] := List.eq_nil_iff_forall_not_mem.mpr fun error hmem =>
      let ⟨_, hsegment, _⟩ := hall error hmem
      List.not_mem_nil hsegment
    rw [hnone]
    exact .nil
  | cons first rest ih =>
    obtain ⟨hfirst, hrest⟩ := List.nodup_cons.mp hdistinct
    have hothers : ∀ error ∈ errors.filter fun error => !decide (error.firstSegment? = some first),
        ∃ segment ∈ rest, error.firstSegment? = some segment := by
      intro error hmem
      obtain ⟨hmem, hother⟩ := List.mem_filter.mp hmem
      obtain ⟨segment, hsegment, herror⟩ := hall error hmem
      rcases List.mem_cons.mp hsegment with rfl | hsegment
      · exact absurd herror (by simpa using hother)
      · exact ⟨segment, hsegment, herror⟩
    -- What begins with another child is not lost when the errors about the first one are taken out.
    have hsame : ∀ segment ∈ rest,
        ((errors.filter fun error => !decide (error.firstSegment? = some first)).filter
          fun error => error.firstSegment? = some segment) =
        errors.filter fun error => error.firstSegment? = some segment := by
      intro segment hsegment
      rw [List.filter_filter]
      refine List.filter_congr fun error _ => ?_
      by_cases herror : error.firstSegment? = some segment
      · have hne : segment ≠ first := fun heq => hfirst (heq ▸ hsegment)
        simp [herror, hne]
      · simp [herror]
    have hgroups := ih hrest hothers
    rw [List.flatMap_congr fun segment hsegment => hsame segment hsegment] at hgroups
    rw [List.flatMap_cons]
    exact (List.Perm.append_left _ hgroups).trans (List.filter_append_perm _ errors)

/-- Errors that are all about some of the children are those of each of these. -/
theorem perm_flatMap_errorsOfChild {segments : List Segment} (hdistinct : segments.Nodup)
    {errors : List GraphError}
    (hall : ∀ error ∈ errors, ∃ segment ∈ segments, error.firstSegment? = some segment)
    (position : Path) :
    (segments.flatMap fun segment =>
      (errorsOfChild segment errors).map (·.under (position.join segment))).Perm
      (errors.map (·.under position)) := by
  simp only [map_under_errorsOfChild]
  rw [← List.map_flatMap]
  exact (perm_flatMap_filter hdistinct hall).map _

namespace FetchedValue

/-- The errors in items are those of each at its index. -/
theorem errorsOfItems_eq (path : Path) (position : Nat) (items : List FetchedValue) :
    errorsOfItems path position items =
      (indexed position items).flatMap fun child => child.2.errorsAt (path.join child.1) := by
  induction items generalizing position with
  | nil => rfl
  | cons item rest ih => rw [errorsOfItems, ih, indexed_cons, List.flatMap_cons]

/-- The errors in fields are those of each under its key. -/
theorem errorsOfFields_eq (path : Path) (fields : List (String × FetchedValue)) :
    errorsOfFields path fields =
      (keyed fields).flatMap fun child => child.2.errorsAt (path.join child.1) := by
  induction fields with
  | nil => rfl
  | cons field rest ih => rw [errorsOfFields, ih, keyed, keyed, List.map_cons, List.flatMap_cons]

/-! ## What is kept of the reported errors -/

/-- The error that says that a part of data, which stand at a position, is not a value of its leaf
type. -/
def InvalidLeaf (schema : Schema) (json : Json) (position : Path) (error : GraphError) : Prop :=
  ∃ path leaf type, json.at? path = some leaf ∧ leafValue? schema type leaf = none ∧
    error = (leafError type leaf).withPath (some (position ++ path))

/-- The value made of data keeps the errors that were reported with them. -/
structure Keeps (schema : Schema) (json : Json) (errors : List GraphError)
    (value : FetchedValue) : Prop where
  /-- The value holds the errors, and others only about leaf values that are invalid. -/
  held : ∀ position, ∃ added,
    (value.errorsAt position).Perm (errors.map (·.under position) ++ added) ∧
      ∀ error ∈ added, InvalidLeaf schema json position error
  /-- It has no data where an error was reported. -/
  null : ∀ error ∈ errors, ∀ path, error.path = some path →
    value.toJson.at? path = some .null

section Keeps

variable {schema : Schema} {json : Json} {errors : List GraphError}

/-- An invalid leaf of a part is one of the whole. -/
theorem InvalidLeaf.of_part {part : Json} {segment : Segment} {position : Path} {error : GraphError}
    (h : InvalidLeaf schema part (position.join segment) error)
    (hpart : ∀ rest, json.at? (segment :: rest) = part.at? rest) :
    InvalidLeaf schema json position error := by
  obtain ⟨path, leaf, type, hleaf, hinvalid, rfl⟩ := h
  refine ⟨segment :: path, leaf, type, (hpart path).trans hleaf, hinvalid, ?_⟩
  rw [Path.join, List.append_assoc]
  rfl

/-- Without errors a leaf keeps everything. -/
theorem keeps_leaf (schema : Schema) (json leaf : Json) : Keeps schema json [] (.leaf leaf) where
  held _ := ⟨[], by simp [errorsAt], by simp⟩
  null _ hmem := absurd hmem List.not_mem_nil

/-- Without errors the value of a leaf type keeps everything: it may add that it is invalid. -/
theorem keeps_ofLeaf (schema : Schema) (type : Name) (json : Json) :
    Keeps schema json [] (ofLeaf schema type json) := by
  unfold ofLeaf
  cases hleaf : leafValue? schema type json with
  | some leaf => exact keeps_leaf schema json leaf
  | none =>
    refine ⟨fun position => ⟨[(leafError type json).withPath (some position)], ?_, ?_⟩, ?_⟩
    · exact .refl _
    · intro error hmem
      refine ⟨[], json, type, Json.at?_nil json, hleaf, ?_⟩
      rw [List.append_nil]
      exact List.mem_singleton.mp hmem
    · intro error hmem
      exact absurd hmem List.not_mem_nil

/-- A position without data that errors are about itself takes all errors together. -/
theorem ofErrors_eq_error (owner : String) (hown : ownErrors errors ≠ []) :
    ofErrors owner errors = .error (FetchedError.ofErrors errors) := by
  cases errors with
  | nil => exact absurd rfl hown
  | cons first rest =>
    unfold ofErrors
    cases longestPath (first :: rest) <;> simp [ofErrorsWithin, hown]

/-- A position without data holds the errors about itself. -/
theorem keeps_ofErrors (schema : Schema) (owner : String)
    (hown : ∀ error ∈ errors, error.path = some []) :
    Keeps schema .null errors (ofErrors owner errors) := by
  cases errors with
  | nil => exact ⟨fun _ => ⟨[], by simp [ofErrors, ofErrorsWithin, errorsAt], by simp⟩, by simp⟩
  | cons first rest =>
    -- The first error has no child, so all of them are taken together.
    have hvalue : ofErrors owner (first :: rest) =
        .error (FetchedError.ofErrors (first :: rest)) := by
      have hfirst : first ∈ ownErrors (first :: rest) := by
        refine List.mem_filter.mpr ⟨List.mem_cons_self, ?_⟩
        rw [GraphError.firstSegment?, hown first List.mem_cons_self]
        rfl
      exact ofErrors_eq_error owner (List.ne_nil_of_mem hfirst)
    have herrors : ∀ position, (ofErrors owner (first :: rest)).errorsAt position =
        (first :: rest).map (·.under position) := by
      intro position
      have hunder : ∀ error ∈ first :: rest,
          error.under position = error.withPath (some position) :=
        fun error hmem => error.under_of_own (hown error hmem) position
      rw [hvalue, List.map_congr_left hunder, errorsAt]
      cases rest <;> rfl
    refine ⟨fun position => ⟨[], by rw [herrors, List.append_nil], by simp⟩, ?_⟩
    intro error hmem path hpath
    rw [hown error hmem, Option.some.injEq] at hpath
    rw [hvalue, ← hpath]
    rfl

/-! ## Children -/

variable {parts : List (Segment × Json)} {children : List (Segment × FetchedValue)}

/-- Children that keep what was reported for them hold together what was reported for all. -/
theorem exists_perm_children
    (hkeeps : List.Forall₂ (fun part child => child.1 = part.1 ∧
      Keeps schema part.2 (errorsOfChild part.1 errors) child.2) parts children)
    (hparts : ∀ part ∈ parts, ∀ rest, json.at? (part.1 :: rest) = part.2.at? rest)
    (position : Path) :
    ∃ added, (children.flatMap fun child => child.2.errorsAt (position.join child.1)).Perm
        (((parts.map Prod.fst).flatMap fun segment =>
          (errorsOfChild segment errors).map (·.under (position.join segment))) ++ added) ∧
      ∀ error ∈ added, InvalidLeaf schema json position error := by
  induction hkeeps with
  | nil => exact ⟨[], .nil, by simp⟩
  | @cons part child parts children hfirst hrest ih =>
    obtain ⟨hsegment, hkeeps⟩ := hfirst
    obtain ⟨hpart, hparts⟩ := List.forall_mem_cons.mp hparts
    obtain ⟨more, hmore, hmoreInvalid⟩ := ih hparts
    obtain ⟨added, hadded, hinvalid⟩ := hkeeps.held (position.join part.1)
    refine ⟨added ++ more, ?_, ?_⟩
    · rw [List.flatMap_cons, List.map_cons, List.flatMap_cons, hsegment]
      refine (hadded.append hmore).trans ?_
      rw [List.append_assoc, List.append_assoc]
      exact .append_left _ (List.perm_append_comm_assoc _ _ _)
    · intro error hmem
      rcases List.mem_append.mp hmem with hmem | hmem
      · exact (hinvalid error hmem).of_part hpart
      · exact hmoreInvalid error hmem

/-- A value that consists of children keeps what was reported when all of it is about the children
and each of them keeps what was reported for it. -/
theorem keeps_of_children {value : FetchedValue}
    (hkeeps : List.Forall₂ (fun part child => child.1 = part.1 ∧
      Keeps schema part.2 (errorsOfChild part.1 errors) child.2) parts children)
    (hparts : ∀ part ∈ parts, ∀ rest, json.at? (part.1 :: rest) = part.2.at? rest)
    (hdistinct : (parts.map Prod.fst).Nodup)
    (hall : ∀ error ∈ errors, ∃ segment ∈ parts.map Prod.fst, error.firstSegment? = some segment)
    (herrors : ∀ position, value.errorsAt position =
      children.flatMap fun child => child.2.errorsAt (position.join child.1))
    (hdata : ∀ child ∈ children, ∀ rest,
      value.toJson.at? (child.1 :: rest) = child.2.toJson.at? rest) :
    Keeps schema json errors value := by
  constructor
  · intro position
    obtain ⟨added, hadded, hinvalid⟩ := exists_perm_children hkeeps hparts position
    refine ⟨added, ?_, hinvalid⟩
    rw [herrors]
    exact hadded.trans (.append_right _ (perm_flatMap_errorsOfChild hdistinct hall position))
  · intro error hmem path hpath
    obtain ⟨segment, hsegment, hfirst⟩ := hall error hmem
    obtain ⟨part, hpart, rfl⟩ := List.mem_map.mp hsegment
    obtain ⟨child, hchild, hname, hkept⟩ := exists_of_mem_forall₂ hkeeps.flip hpart
    have hhead : path.head? = some part.1 := by
      rw [← hfirst, GraphError.firstSegment?, hpath]
      rfl
    obtain ⟨rest, rfl⟩ := List.head?_eq_some_iff.mp hhead
    -- The error is one of its child, where its path is what is left of it.
    have hmine : error.relativeToChild ∈ errorsOfChild part.1 errors :=
      List.mem_map_of_mem (List.mem_filter.mpr ⟨hmem, by simpa using hfirst⟩)
    have hrest : error.relativeToChild.path = some rest := by
      unfold GraphError.relativeToChild GraphError.withPath
      rw [hpath]
      rfl
    rw [← hname, hdata child hchild rest]
    exact hkept.null _ hmine rest hrest

end Keeps

end FetchedValue

end Gateway
