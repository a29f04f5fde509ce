import Gateway.Proofs.Fetched.Reading
import Gateway.Proofs.Fetched.Reported
import Gateway.Schema.Builtin

/-!
# Errors of conformant responses

In a conformant response the path of every error leads to a null, and not into the data of a leaf
(`Reconstruction.LeadsToNull`). Reconstruction without merging keeps all of these errors at their
places (`Reconstruction.result_keeps`). The proof follows the data: lists and objects hand every
error on to the child that it is about, and at a null the errors that have come so far are about the
position itself.
-/

namespace Gateway

/-! ## Children -/

namespace FetchedValue

/-- The child of a value keeps what was reported for the part that it is made of. -/
def KeepsChild (schema : Schema) (errors : List GraphError) (part : Segment × Json)
    (child : Segment × FetchedValue) : Prop :=
  child.1 = part.1 ∧ Keeps schema part.2 (errorsOfChild part.1 errors) child.2

end FetchedValue

/-! ## Paths of errors -/

/-- Every error has a path, and it is as stated. -/
def AllAt (leads : Path → Prop) (errors : List GraphError) : Prop :=
  ∀ error ∈ errors, ∃ path, error.path = some path ∧ leads path

section AllAt

variable {leads leads' : Path → Prop} {errors : List GraphError}

/-- What the paths are like may be weakened. -/
theorem AllAt.imp (h : AllAt leads errors) (himp : ∀ path, leads path → leads' path) :
    AllAt leads' errors := fun error hmem =>
  let ⟨path, hpath, hleads⟩ := h error hmem
  ⟨path, hpath, himp path hleads⟩

/-- The paths of the errors about a child go on from it. -/
theorem AllAt.child (h : AllAt leads errors) (segment : Segment) :
    AllAt (fun rest => leads (segment :: rest)) (errorsOfChild segment errors) := by
  intro error hmem
  obtain ⟨reported, hreported, rfl⟩ := List.mem_map.mp hmem
  obtain ⟨hreported, hfirst⟩ := List.mem_filter.mp hreported
  obtain ⟨path, hpath, hleads⟩ := h reported hreported
  have hhead : path.head? = some segment := by
    simpa [GraphError.firstSegment?, hpath] using hfirst
  obtain ⟨rest, rfl⟩ := List.head?_eq_some_iff.mp hhead
  refine ⟨rest, ?_, hleads⟩
  unfold GraphError.relativeToChild GraphError.withPath
  rw [hpath]
  rfl

/-- There are no errors where no path leads. -/
theorem AllAt.eq_nil (h : AllAt leads errors) (hnone : ∀ path, ¬ leads path) : errors = [] :=
  List.eq_nil_iff_forall_not_mem.mpr fun error hmem =>
    let ⟨path, _, hleads⟩ := h error hmem
    hnone path hleads

end AllAt

namespace FetchedValue

variable {schema : Schema} {errors : List GraphError}

/-- A list keeps what was reported when its items do. -/
theorem keeps_list {items : List Json} {values : List FetchedValue}
    (hnull : AllAt (fun path => (Json.array items).at? path = some .null) errors)
    (hkeeps : List.Forall₂ (KeepsChild schema errors) (indexed 0 items) (indexed 0 values)) :
    Keeps schema (.array items) errors (.list values) := by
  refine keeps_of_children hkeeps ?_ (nodup_indexed 0 items) ?_ ?_ ?_
  · intro part hpart rest
    obtain ⟨position, hsegment, hitem⟩ := mem_indexed.mp hpart
    rw [hsegment, Json.at?_array_of_getElem? hitem]
  · intro error hmem
    obtain ⟨path, hpath, hleads⟩ := hnull error hmem
    cases path with
    | nil => exact absurd hleads (by simp)
    | cons segment rest =>
      obtain ⟨position, item, rfl, hitem, -⟩ := Json.at?_array_eq_some_iff.mp hleads
      have hpart : (Segment.index position, item) ∈ indexed 0 items :=
        mem_indexed.mpr ⟨position, rfl, hitem⟩
      refine ⟨_, List.mem_map_of_mem hpart, ?_⟩
      rw [GraphError.firstSegment?, hpath]
      rfl
  · intro position
    rw [errorsAt, errorsOfItems_eq]
  · intro child hchild rest
    obtain ⟨position, hsegment, hitem⟩ := mem_indexed.mp hchild
    have hdata : (values.map toJson)[position]? = some child.2.toJson := by
      rw [List.getElem?_map, hitem, Option.map_some]
    rw [hsegment, toJson_list, Json.at?_array_of_getElem? hdata]

/-- An object keeps what was reported when its fields do. -/
theorem keeps_object {members : List (String × Json)} {object : FetchedObject}
    (hobject : object.errors = errors) (hdistinct : (Entries.keys members).Nodup)
    (hnull : AllAt (fun path => (Json.object members).at? path = some .null) errors)
    (hkeeps : List.Forall₂ (KeepsChild schema errors) (keyed members) (keyed object.fields)) :
    Keeps schema (.object members) errors (.object object) := by
  -- The fields have the keys of the members, in order.
  have hkeys : Entries.keys object.fields = Entries.keys members :=
    keys_eq_of_forall₂ hkeeps fun _ _ h => h.1
  -- No error is about the object itself, since it is not null.
  have hkey : ∀ error ∈ errors, ∃ key ∈ Entries.keys members,
      error.firstSegment? = some (.key key) := by
    intro error hmem
    obtain ⟨path, hpath, hleads⟩ := hnull error hmem
    cases path with
    | nil => exact absurd hleads (by simp)
    | cons segment rest =>
      obtain ⟨key, item, rfl, hitem, -⟩ := Json.at?_object_eq_some_iff.mp hleads
      refine ⟨key, Entries.exists_get?_iff.mp ⟨item, hitem⟩, ?_⟩
      rw [GraphError.firstSegment?, hpath]
      rfl
  refine keeps_of_children hkeeps ?_ ?_ ?_ ?_ ?_
  · intro part hpart rest
    obtain ⟨key, hsegment, hmember⟩ := mem_keyed.mp hpart
    rw [hsegment, Json.at?_object_of_get? (Entries.get?_of_mem hdistinct hmember)]
  · rw [keyed_map_fst]
    exact List.Nodup.map (fun _ _ h => Segment.key.inj h) hdistinct
  · intro error hmem
    obtain ⟨key, hmember, hfirst⟩ := hkey error hmem
    refine ⟨.key key, ?_, hfirst⟩
    rw [keyed_map_fst]
    exact List.mem_map_of_mem hmember
  · -- Every error is about a field, so that none is listed for the object itself.
    intro position
    have haccounted : errors.filter (isUnaccounted (Entries.keys object.fields)) = [] := by
      rw [List.filter_eq_nil_iff]
      intro error hmem
      obtain ⟨key, hmember, hfirst⟩ := hkey error hmem
      simp [isUnaccounted, hfirst, hkeys, hmember]
    obtain ⟨fields, held, owner, fieldOwners⟩ := object
    obtain rfl : held = errors := hobject
    rw [errorsAt, haccounted, errorsOfFields_eq, List.map_nil, List.append_nil]
  · intro child hchild rest
    obtain ⟨key, hsegment, hfield⟩ := mem_keyed.mp hchild
    have hdata : (Entries.mapValues toJson object.fields).get? key = some child.2.toJson := by
      rw [Entries.get?_mapValues, Entries.get?_of_mem (hkeys ▸ hdistinct) hfield, Option.map_some]
    rw [hsegment, toJson_object, Json.at?_object_of_get? hdata]

end FetchedValue

namespace Reconstruction

open FetchedValue (Keeps KeepsChild)

variable {σ : Type} {reconstruction : Reconstruction σ} {schema : Schema}
  {errors : List GraphError}

/-! ## Conformant errors -/

/-- Whether what data hold at a path is read as a leaf when they are reconstructed as a value of a
type. -/
def readsLeaf (schema : Schema) : Path → Option FieldInfo → TypeRef → Json → Bool
  | [], _, type, json =>
    match json with
    | .null => false
    | .array _ => type.item?.isNone && schema.isLeaf type.innerName
    | .object _ => !schema.isComposite type.innerName && schema.isLeaf type.innerName
    | _ => schema.isLeaf type.innerName
  | .index position :: rest, info?, type, .array items =>
    match type.item?, items[position]? with
    | some item, some json =>
      readsLeaf schema rest (info?.map (·.atIndex position)) item json
    | _, _ => false
  | .key key :: rest, info?, type, .object members =>
    if schema.isComposite type.innerName then
      match Entries.get? members key with
      | some json =>
        match child schema info? (concreteType schema members type.innerName) key with
        | .typename => rest.isEmpty
        | .typed info? type => readsLeaf schema rest info? type json
        | .unknown => false
      | none => false
    else false
  | _, _, _, _ => false

/-- In data that are reconstructed as a value of a type, a path leads to a null: not through the
name of a concrete type, and not through a position that is read as a leaf. -/
structure LeadsToNull (schema : Schema) (info? : Option FieldInfo) (type : TypeRef) (json : Json)
    (path : Path) : Prop where
  /-- The path ends at a null. -/
  null : json.at? path = some .null
  /-- No segment is the meta field. -/
  ordinary : .key typenameField ∉ path
  /-- Nothing on the way is read as a leaf. -/
  below : ∀ before, before <+: path → before ≠ path →
    readsLeaf schema before info? type json = false

section LeadsToNull

variable {info? : Option FieldInfo} {type : TypeRef} {json : Json} {path : Path}

/-- No path leads into data that are read as a leaf. -/
theorem LeadsToNull.readsLeaf_nil (h : LeadsToNull schema info? type json path) :
    readsLeaf schema [] info? type json = false := by
  cases path with
  | nil =>
    have hnull : json = .null := by simpa using h.null
    rw [hnull]
    rfl
  | cons segment rest => exact h.below [] (List.nil_prefix) (by simp)

/-- A path goes on in the data of a child, when what is read as a leaf there is in the whole. -/
theorem LeadsToNull.of_cons {segment : Segment} {rest : Path} {info'? : Option FieldInfo}
    {type' : TypeRef} {part : Json} (h : LeadsToNull schema info? type json (segment :: rest))
    (hnull : json.at? (segment :: rest) = part.at? rest)
    (hreads : ∀ before, readsLeaf schema (segment :: before) info? type json =
      readsLeaf schema before info'? type' part) :
    LeadsToNull schema info'? type' part rest where
  null := hnull.symm.trans h.null
  ordinary hmem := h.ordinary (List.mem_cons_of_mem _ hmem)
  below before hbefore hne := by
    rw [← hreads]
    exact h.below (segment :: before) (List.cons_prefix_cons.mpr ⟨rfl, hbefore⟩)
      (by simpa using hne)

/-- What is known about a member says how its data are reconstructed, and so where paths lead. -/
def ChildLeads (schema : Schema) (json : Json) (path : Path) : Child → Prop
  | .typename => False
  | .typed info? type => LeadsToNull schema info? type json path
  | .unknown => json.at? path = some .null

/-- A path goes on in an item of a list. -/
theorem LeadsToNull.item {items : List Json} {item : TypeRef} (hitem : type.item? = some item)
    {position : Nat} {part : Json} (hpart : items[position]? = some part) {rest : Path}
    (h : LeadsToNull schema info? type (.array items) (.index position :: rest)) :
    LeadsToNull schema (info?.map (·.atIndex position)) item part rest := by
  have hreads : ∀ before, readsLeaf schema (.index position :: before) info? type (.array items) =
      readsLeaf schema before (info?.map (·.atIndex position)) item part := by
    intro before
    rw [readsLeaf, hitem, hpart]
  exact h.of_cons (Json.at?_array_of_getElem? hpart rest) hreads

/-- A path goes on in a member of an object. -/
theorem LeadsToNull.member {members : List (String × Json)}
    (hcomposite : schema.isComposite type.innerName = true) {key : String} {part : Json}
    (hpart : Entries.get? members key = some part) {rest : Path}
    (h : LeadsToNull schema info? type (.object members) (.key key :: rest)) :
    ChildLeads schema part rest
      (child schema info? (concreteType schema members type.innerName) key) := by
  have hnull : (Json.object members).at? (.key key :: rest) = part.at? rest :=
    Json.at?_object_of_get? hpart rest
  have hreads : ∀ before, readsLeaf schema (.key key :: before) info? type (.object members) =
      match child schema info? (concreteType schema members type.innerName) key with
      | .typename => before.isEmpty
      | .typed info? type => readsLeaf schema before info? type part
      | .unknown => false := by
    intro before
    rw [readsLeaf, if_pos hcomposite, hpart]
  cases hchild : child schema info? (concreteType schema members type.innerName) key with
  | typename =>
    exact h.ordinary (eq_typenameField_of_child hchild ▸ List.mem_cons_self)
  | typed info'? type' =>
    refine h.of_cons hnull fun before => ?_
    rw [hreads, hchild]
  | unknown => exact hnull.symm.trans h.null

end LeadsToNull

/-! ## Reconstruction -/

section Untyped

variable (reconstruction : Reconstruction σ)

/-- A scalar has nothing beneath that an error could be about. -/
theorem scalar_keeps {json : Json} (hscalar : ∀ path, json.at? path ≠ some .null)
    (hnull : AllAt (fun path => json.at? path = some .null) errors) :
    (pure (.leaf json) : Act σ FetchedValue).Ensures fun value _ =>
      Keeps reconstruction.schema json errors value := by
  rw [hnull.eq_nil hscalar]
  exact Act.ensures_pure (FetchedValue.keeps_leaf _ _ _)

mutual

/-- A value whose type is unknown keeps the errors that lead to its nulls. -/
theorem untyped_keeps : ∀ (json : Json) (errors : List GraphError), json.Keyed →
    AllAt (fun path => json.at? path = some .null) errors →
    (reconstruction.untyped json errors).Ensures fun value _ =>
      Keeps reconstruction.schema json errors value
  | .null, errors, _, hnull => by
    -- No path goes on beneath a null, so all errors are about this position itself.
    refine Act.ensures_pure (FetchedValue.keeps_ofErrors _ _ fun error hmem => ?_)
    obtain ⟨path, hpath, hleads⟩ := hnull error hmem
    cases path with
    | nil => exact hpath
    | cons segment rest => exact absurd hleads (by simp [Json.at?])
  | .array items, errors, hkeyed, hnull => by
    refine (untypedItems_keeps items errors 0 ?_).bind fun values _ hvalues =>
      (warnOutside_ensures reconstruction items.length errors).bind fun _ _ _ =>
        Act.ensures_pure (FetchedValue.keeps_list hnull hvalues)
    intro part hpart
    have hitem : items[part.2]? = some part.1 := List.mem_zipIdx_iff_getElem?.mp hpart
    refine ⟨hkeyed.item hitem, (hnull.child (.index part.2)).imp fun rest hrest => ?_⟩
    rw [← Json.at?_array_of_getElem? hitem]
    exact hrest
  | .object members, errors, hkeyed, hnull => by
    refine (untypedMembers_keeps members errors ?_).bind fun fields _ hfields =>
      Act.ensures_pure (FetchedValue.keeps_object rfl hkeyed.nodup hnull hfields)
    intro member hmember
    have hfound : Entries.get? members member.1 = some member.2 :=
      Entries.get?_of_mem hkeyed.nodup hmember
    refine ⟨hkeyed.member hfound, (hnull.child (.key member.1)).imp fun rest hrest => ?_⟩
    rw [← Json.at?_object_of_get? hfound]
    exact hrest
  | .bool _, _, _, hnull | .int _, _, _, hnull | .float _, _, _, hnull | .string _, _, _, hnull =>
    scalar_keeps reconstruction (fun path => by cases path <;> simp [Json.at?]) hnull

/-- So do the items of a list. -/
theorem untypedItems_keeps : ∀ (items : List Json) (errors : List GraphError) (position : Nat),
    (∀ part ∈ items.zipIdx position, part.1.Keyed ∧
      AllAt (fun path => part.1.at? path = some .null) (errorsOfChild (.index part.2) errors)) →
    (reconstruction.untypedItems errors position items).Ensures fun values _ =>
      List.Forall₂ (KeepsChild reconstruction.schema errors) (indexed position items)
        (indexed position values)
  | [], _, _, _ => Act.ensures_pure .nil
  | item :: rest, errors, position, hparts => by
    rw [List.zipIdx_cons, List.forall_mem_cons] at hparts
    obtain ⟨⟨hkeyed, hnull⟩, hrest⟩ := hparts
    refine (untyped_keeps item _ hkeyed hnull).bind fun value _ hvalue =>
      (untypedItems_keeps rest errors (position + 1) hrest).bind fun values _ hvalues =>
        Act.ensures_pure ?_
    rw [indexed_cons, indexed_cons]
    exact .cons ⟨rfl, hvalue⟩ hvalues

/-- So do the members of an object. -/
theorem untypedMembers_keeps : ∀ (members : List (String × Json)) (errors : List GraphError),
    (∀ member ∈ members, member.2.Keyed ∧
      AllAt (fun path => member.2.at? path = some .null) (errorsOfChild (.key member.1) errors)) →
    (reconstruction.untypedMembers errors members).Ensures fun fields _ =>
      List.Forall₂ (KeepsChild reconstruction.schema errors) (keyed members) (keyed fields)
  | [], _, _ => Act.ensures_pure .nil
  | (key, item) :: rest, errors, hparts => by
    obtain ⟨⟨hkeyed, hnull⟩, hrest⟩ := List.forall_mem_cons.mp hparts
    exact (untyped_keeps item _ hkeyed hnull).bind fun value _ hvalue =>
      (untypedMembers_keeps rest errors hrest).bind fun fields _ hfields =>
        Act.ensures_pure (.cons ⟨rfl, hvalue⟩ hfields)

end

end Untyped

section Typed

variable (reconstruction : Reconstruction σ)

/-- Data that are read as a leaf have no errors; other data that are no list and no object of their
type keep those that lead to their nulls. -/
theorem plain_keeps {json : Json} {info? : Option FieldInfo} {type : TypeRef}
    (hleaf : reconstruction.schema.isLeaf type.innerName = true →
      readsLeaf reconstruction.schema [] info? type json = true)
    (hkeyed : json.Keyed)
    (hleads : AllAt (LeadsToNull reconstruction.schema info? type json) errors) :
    (reconstruction.plain json errors type).Ensures fun value _ =>
      Keeps reconstruction.schema json errors value := by
  unfold plain
  by_cases h : reconstruction.schema.isLeaf type.innerName = true
  · have hnone : errors = [] := hleads.eq_nil fun path hpath =>
      absurd (hleaf h) (by rw [hpath.readsLeaf_nil]; decide)
    rw [if_pos h, hnone]
    exact Act.ensures_pure (FetchedValue.keeps_ofLeaf _ _ _)
  · rw [if_neg h]
    exact untyped_keeps reconstruction json errors hkeyed (hleads.imp fun _ hpath => hpath.null)

mutual

/-- A value of a type keeps the errors that lead to its nulls, if objects are not merged. -/
theorem value_keeps : ∀ (json : Json) (errors : List GraphError) (info? : Option FieldInfo)
    (type : TypeRef) (skipsMerging : Bool),
    reconstruction.Unmerged info? →
    json.Keyed → AllAt (LeadsToNull reconstruction.schema info? type json) errors →
    (reconstruction.value json errors info? type skipsMerging).Ensures fun value _ =>
      Keeps reconstruction.schema json errors value
  | .null, errors, _, _, _, _, hkeyed, hleads =>
    untyped_keeps reconstruction .null errors hkeyed (hleads.imp fun _ hpath => hpath.null)
  | .array items, errors, info?, type, skipsMerging, hunmerged, hkeyed, hleads => by
    rw [value]
    cases hitem : type.item? with
    | none =>
      exact plain_keeps reconstruction (fun hleaf => by simp [readsLeaf, hitem, hleaf]) hkeyed
        hleads
    | some item =>
      have hnull := hleads.imp fun _ hpath => hpath.null
      refine (warnList_ensures reconstruction errors).bind fun _ _ _ =>
        (warnOutside_ensures reconstruction items.length errors).bind fun _ _ _ =>
          (itemValues_keeps items errors info? item skipsMerging 0 hunmerged ?_).bind
            fun values _ hvalues => Act.ensures_pure (FetchedValue.keeps_list hnull hvalues)
      intro part hpart
      have hfound : items[part.2]? = some part.1 := List.mem_zipIdx_iff_getElem?.mp hpart
      exact ⟨hkeyed.item hfound,
        (hleads.child (.index part.2)).imp fun _ hpath => hpath.item hitem hfound⟩
  | .object members, errors, info?, type, skipsMerging, hunmerged, hkeyed, hleads => by
    rw [value]
    by_cases hcomposite : reconstruction.schema.isComposite type.innerName = true
    · rw [if_pos hcomposite]
      refine (warnUnknown_ensures reconstruction info? _ _).bind fun _ _ _ =>
        (memberValues_keeps members errors info? _ hunmerged ?_).bind fun fields _ hfields =>
          completed_ensures reconstruction hunmerged
            (FetchedValue.keeps_object rfl hkeyed.nodup (hleads.imp fun _ hpath => hpath.null)
              hfields)
      intro member hmember
      have hfound : Entries.get? members member.1 = some member.2 :=
        Entries.get?_of_mem hkeyed.nodup hmember
      exact ⟨hkeyed.member hfound,
        (hleads.child (.key member.1)).imp fun _ hpath => hpath.member hcomposite hfound⟩
    · rw [if_neg hcomposite]
      exact plain_keeps reconstruction
        (fun hleaf => by simp [readsLeaf, hcomposite, hleaf]) hkeyed hleads
  | .bool _, _, _, _, _, _, hkeyed, hleads | .int _, _, _, _, _, _, hkeyed, hleads
  | .float _, _, _, _, _, _, hkeyed, hleads | .string _, _, _, _, _, _, hkeyed, hleads =>
    plain_keeps reconstruction (fun hleaf => hleaf) hkeyed hleads

/-- So do the items of a list. -/
theorem itemValues_keeps : ∀ (items : List Json) (errors : List GraphError)
    (info? : Option FieldInfo) (type : TypeRef) (skipsMerging : Bool) (position : Nat),
    reconstruction.Unmerged info? →
    (∀ part ∈ items.zipIdx position, part.1.Keyed ∧
      AllAt (LeadsToNull reconstruction.schema (info?.map (·.atIndex part.2)) type part.1)
        (errorsOfChild (.index part.2) errors)) →
    (reconstruction.itemValues errors info? type skipsMerging position items).Ensures
      fun values _ => List.Forall₂ (KeepsChild reconstruction.schema errors)
        (indexed position items) (indexed position values)
  | [], _, _, _, _, _, _, _ => Act.ensures_pure .nil
  | item :: rest, errors, info?, type, skipsMerging, position, hunmerged, hparts => by
    rw [List.zipIdx_cons, List.forall_mem_cons] at hparts
    obtain ⟨⟨hkeyed, hleads⟩, hrest⟩ := hparts
    have hitem : reconstruction.Unmerged (info?.map (·.atIndex position)) := fun hsome =>
      hunmerged (by rwa [Option.isSome_map] at hsome)
    refine (value_keeps item _ _ type skipsMerging hitem hkeyed hleads).bind
      fun value _ hvalue =>
        (itemValues_keeps rest errors info? type skipsMerging (position + 1) hunmerged hrest).bind
          fun values _ hvalues => Act.ensures_pure ?_
    rw [indexed_cons, indexed_cons]
    exact .cons ⟨rfl, hvalue⟩ hvalues

/-- So do the members of an object. -/
theorem memberValues_keeps : ∀ (members : List (String × Json)) (errors : List GraphError)
    (info? : Option FieldInfo) (type : Name),
    reconstruction.Unmerged info? →
    (∀ member ∈ members, member.2.Keyed ∧
      AllAt (fun path => ChildLeads reconstruction.schema member.2 path
        (child reconstruction.schema info? type member.1)) (errorsOfChild (.key member.1) errors)) →
    (reconstruction.memberValues errors info? type members).Ensures fun fields _ =>
      List.Forall₂ (KeepsChild reconstruction.schema errors) (keyed members) (keyed fields)
  | [], _, _, _, _, _ => Act.ensures_pure .nil
  | (key, json) :: rest, errors, info?, type, hunmerged, hparts => by
    obtain ⟨⟨hkeyed, hleads⟩, hrest⟩ := List.forall_mem_cons.mp hparts
    -- Whatever is known about the first member, the others follow once it keeps its errors.
    have hothers : ∀ first (_ : List Warning),
        Keeps reconstruction.schema json (errorsOfChild (.key key) errors) first →
        Act.Ensures (do
          return (key, first) :: (← reconstruction.memberValues errors info? type rest))
          fun fields _ => List.Forall₂ (KeepsChild reconstruction.schema errors)
            (keyed ((key, json) :: rest)) (keyed fields) :=
      fun first _ hfirst =>
        (memberValues_keeps rest errors info? type hunmerged hrest).bind fun fields _ hfields =>
          Act.ensures_pure (.cons ⟨rfl, hfirst⟩ hfields)
    rw [memberValues]
    cases hchild : child reconstruction.schema info? type key with
    | typename =>
      -- The meta field becomes a plain leaf, which is why no path may lead through it.
      rw [hchild] at hleads
      refine (Act.ensures_pure ?_).bind hothers
      rw [hleads.eq_nil fun _ hpath => hpath]
      exact FetchedValue.keeps_leaf _ _ _
    | typed childInfo? childType =>
      rw [hchild] at hleads
      exact (value_keeps json _ childInfo? childType false
        (fun hsome => hunmerged (isSome_of_child hchild hsome)) hkeyed hleads).bind hothers
    | unknown =>
      rw [hchild] at hleads
      exact (untyped_keeps reconstruction json _ hkeyed hleads).bind hothers

end

/-- Reconstruction without merging keeps conformant errors at their places: it never fails, the
errors held in the value are those that were reported and others only about leaf values that are
invalid, and there are no data where an error was reported. -/
theorem result_keeps {data? : Option Json} {info? : Option FieldInfo} {type : TypeRef}
    {skipsMerging : Bool} (hunmerged : reconstruction.Unmerged info?)
    (hkeyed : (data?.getD .null).Keyed)
    (hleads : AllAt (LeadsToNull reconstruction.schema info? type (data?.getD .null)) errors)
    (session : Session σ) :
    ∃ value warnings added,
      runFrom (reconstruction.result data? errors info? type skipsMerging) session =
        (.ok value, { session with warnings := session.warnings ++ warnings }) ∧
      value.errors.Perm (errors ++ added) ∧
      (∀ error ∈ added,
        FetchedValue.InvalidLeaf reconstruction.schema (data?.getD .null) [] error) ∧
      ∀ error ∈ errors, ∃ path, error.path = some path ∧ value.toJson.at? path = some .null := by
  obtain ⟨value, warnings, hrun, hkeeps⟩ :=
    value_keeps reconstruction _ errors info? type skipsMerging hunmerged hkeyed hleads session
  obtain ⟨added, hheld, hinvalid⟩ := hkeeps.held []
  -- From the root itself the errors are seen at the paths with which they were reported.
  have hsame : errors.map (·.under []) = errors := by
    conv_rhs => rw [← List.map_id errors]
    refine List.map_congr_left fun error hmem => ?_
    obtain ⟨path, hpath, -⟩ := hleads error hmem
    exact error.under_nil hpath
  rw [hsame] at hheld
  refine ⟨value, warnings, added, hrun, hheld, hinvalid, fun error hmem => ?_⟩
  obtain ⟨path, hpath, -⟩ := hleads error hmem
  exact ⟨path, hpath, hkeeps.null error hmem path hpath⟩

end Typed

/-- A service of users. -/
def userSchema : Schema where
  types := ["String", "Int"].map Builtin.scalar ++ [
    Builtin.object "User" [Builtin.field "name" (.named "String"),
      Builtin.field "age" (.named "Int")]]
  directives := []
  roots := []

/-- Results of the service, which are not merged. -/
def userResults : Reconstruction Unit where
  subschema := { name := "accounts", schema := userSchema }
  schema := userSchema
  complete _ _ object := pure object

/-- A user whose name could not be fetched, and whose age is no number. -/
def partialUser : Json :=
  .object [("name", .null), ("age", .string "unknown")]

/-- The error about the name. -/
def nameError : GraphError where
  message := "not available"
  path := some [.key "name"]

/-- The error about the name is kept. -/
theorem result_keeps_partialUser :
    userResults.Unmerged none ∧ partialUser.Keyed ∧
      AllAt (LeadsToNull userResults.schema none (.named "User") partialUser) [nameError] ∧
      ∃ value warnings added,
        runFrom (userResults.result (some partialUser) [nameError] none (.named "User") false)
            { world := () } =
          (.ok value, { world := (), warnings }) ∧
        value.errors.Perm ([nameError] ++ added) ∧
        value.toJson.at? [.key "name"] = some .null := by
  have hunmerged : userResults.Unmerged none := fun _ _ _ _ => rfl
  have hkeyed : partialUser.Keyed := Json.keyed_object (by decide) <| by
    simp [Json.keyed_null, Json.keyed_string]
  have hname : LeadsToNull userResults.schema none (.named "User") partialUser [.key "name"] := by
    refine ⟨rfl, by decide, fun before hbefore hne => ?_⟩
    cases before with
    | nil => decide
    | cons segment rest =>
      obtain ⟨rfl, hrest⟩ := List.cons_prefix_cons.mp hbefore
      exact absurd (by rw [List.prefix_nil.mp hrest]) hne
  have hleads : AllAt (LeadsToNull userResults.schema none (.named "User") partialUser)
      [nameError] := by
    intro error hmem
    obtain rfl := List.mem_singleton.mp hmem
    exact ⟨_, rfl, hname⟩
  obtain ⟨value, warnings, added, hrun, hheld, -, hnull⟩ :=
    result_keeps userResults hunmerged (show ((some partialUser).getD .null).Keyed from hkeyed)
      hleads { world := () }
  obtain ⟨path, hpath, hvalue⟩ := hnull nameError (List.mem_singleton_self _)
  cases hpath
  exact ⟨hunmerged, hkeyed, hleads, value, warnings, added, hrun, hheld, hvalue⟩

end Reconstruction

end Gateway
