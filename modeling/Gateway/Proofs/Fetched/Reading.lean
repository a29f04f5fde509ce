import Gateway.Fetched.Reconstruct
import Gateway.Proofs.Fetched.Position
import Gateway.Proofs.Session

/-!
# How data are read

Data are reconstructed by what is known about them: the name of a concrete type is kept, data of a
type become a value of it, and other data stay what they are. One step of this is a `Reading`: the
data are absent, a leaf, or they have parts about which something is known in turn.

Without merging, reconstruction does nothing but read, so what holds of a value when it holds of its
parts holds of all values (`Reconstruction.HoldsByParts.result`). `Child.readAt` follows a path
through the readings, and `Child.exists_readAt` says that it gets to everything that is not inside
of a leaf.
-/

namespace Gateway

/-! ## Readings -/

/-- How data are read. -/
inductive Reading
  /-- There are none. -/
  | absent
  /-- They are a leaf: a value of a type, or whatever they are. -/
  | leaf (type? : Option Name)
  /-- They are the items of a list; the list is declared, or its type is unknown. -/
  | list (declared : Bool) (items : List (Child × Json))
  /-- They are the members of an object; its type is declared, or it is unknown. -/
  | object (declared : Bool) (members : List (String × Child × Json))

namespace Reading

/-- What is known about the part behind a segment, and the part. -/
def part? : Reading → Segment → Option (Child × Json)
  | .list _ items, .index position => items[position]?
  | .object _ members, .key key => Entries.get? members key
  | _, _ => none

/-- The data are read by a type. -/
def isTyped : Reading → Bool
  | .absent => false
  | .leaf type? => type?.isSome
  | .list declared _ => declared
  | .object declared _ => declared

end Reading

namespace Child

/-- How data are read whose type is unknown: so are the types of their parts. -/
def readUntyped : Json → Reading
  | .null => .absent
  | .array items => .list false (items.map fun item => (.unknown, item))
  | .object members => .object false (members.map fun member => (member.1, .unknown, member.2))
  | _ => .leaf none

/-- How data are read that are no list and no object of their type. -/
def readPlain (schema : Schema) (type : TypeRef) (json : Json) : Reading :=
  if schema.isLeaf type.innerName then .leaf (some type.innerName) else readUntyped json

/-- How data are read about which something is known. -/
def reading (schema : Schema) : Child → Json → Reading
  | .typename, _ => .leaf none
  | .unknown, json => readUntyped json
  | .typed _ _, .null => .absent
  | .typed info? type, .array items =>
    match type.item? with
    | some item => .list true <| items.zipIdx.map fun part =>
      (.typed (info?.map (·.atIndex part.2)) item, part.1)
    | none => readPlain schema type (.array items)
  | .typed info? type, .object members =>
    if schema.isComposite type.innerName then
      let name := Reconstruction.concreteType schema members type.innerName
      .object true <| members.map fun member =>
        (member.1, Reconstruction.child schema info? name member.1, member.2)
    else readPlain schema type (.object members)
  | .typed _ type, json => readPlain schema type json

/-- What is read at a path: what is known there, and the data. -/
def readAt (schema : Schema) : Path → Child → Json → Option (Child × Json)
  | [], child, json => some (child, json)
  | segment :: rest, child, json =>
    ((child.reading schema json).part? segment).bind fun part => readAt schema rest part.1 part.2

section Reading

variable {schema : Schema} {child : Child} {json : Json}

/-- Data are read as if their type were unknown, as a leaf, or as a list or an object of their
type. -/
theorem reading_cases (schema : Schema) (child : Child) (json : Json) :
    child.reading schema json = readUntyped json ∨
      (∃ type?, child.reading schema json = .leaf type?) ∨
      (∃ items, child.reading schema json = .list true items ∧
        json = .array (items.map Prod.snd)) ∨
      ∃ members, child.reading schema json = .object true members ∧
        json = .object (Entries.mapValues Prod.snd members) := by
  have hplain : ∀ type, readPlain schema type json = readUntyped json ∨
      ∃ type?, readPlain schema type json = .leaf type? := by
    intro type
    unfold readPlain
    split_ifs
    · exact .inr ⟨_, rfl⟩
    · exact .inl rfl
  cases child with
  | typename => exact .inr (.inl ⟨none, by cases json <;> rfl⟩)
  | unknown => exact .inl (by cases json <;> rfl)
  | typed info? type =>
    cases json with
    | null => exact .inl rfl
    | array data =>
      rw [reading]
      cases type.item? with
      | none => exact (hplain type).imp_right .inl
      | some item =>
        refine .inr (.inr (.inl ⟨_, rfl, ?_⟩))
        rw [List.map_map]
        exact congrArg Json.array (List.zipIdx_map_fst 0 data).symm
    | object data =>
      rw [reading]
      split_ifs with hcomposite
      · refine .inr (.inr (.inr ⟨_, rfl, ?_⟩))
        unfold Entries.mapValues
        rw [List.map_map]
        exact congrArg Json.object (List.map_id data).symm
      · exact (hplain type).imp_right .inl
    | bool _ => exact (hplain type).imp_right .inl
    | int _ => exact (hplain type).imp_right .inl
    | float _ => exact (hplain type).imp_right .inl
    | string _ => exact (hplain type).imp_right .inl

/-- Data that are read as a list are one, and have its items as parts; without a type nothing is
known about these. -/
theorem of_reading_list {declared : Bool} {items : List (Child × Json)}
    (h : child.reading schema json = .list declared items) :
    json = .array (items.map Prod.snd) ∧
      (declared = false → ∀ item ∈ items, item.1 = .unknown) := by
  rcases reading_cases schema child json with huntyped | ⟨_, hleaf⟩ | ⟨_, hlist, hjson⟩ |
    ⟨_, hobject, _⟩
  · rw [huntyped] at h
    cases json <;> cases h
    exact ⟨by simp [Function.comp_def], by simp⟩
  · exact absurd (hleaf.symm.trans h) (by simp)
  · cases hlist.symm.trans h
    exact ⟨hjson, by simp⟩
  · exact absurd (hobject.symm.trans h) (by simp)

/-- Data that are read as an object are one, and have its members as parts; without a type nothing
is known about these. -/
theorem of_reading_object {declared : Bool} {members : List (String × Child × Json)}
    (h : child.reading schema json = .object declared members) :
    json = .object (Entries.mapValues Prod.snd members) ∧
      (declared = false → ∀ member ∈ members, member.2.1 = .unknown) := by
  rcases reading_cases schema child json with huntyped | ⟨_, hleaf⟩ | ⟨_, hlist, _⟩ |
    ⟨_, hobject, hjson⟩
  · rw [huntyped] at h
    cases json <;> cases h
    refine ⟨by simp [Entries.mapValues, Function.comp_def], fun _ member hmember => ?_⟩
    obtain ⟨_, -, rfl⟩ := List.mem_map.mp hmember
    rfl
  · exact absurd (hleaf.symm.trans h) (by simp)
  · exact absurd (hlist.symm.trans h) (by simp)
  · cases hobject.symm.trans h
    exact ⟨hjson, by simp⟩

/-- Data that are absent are null. -/
theorem of_reading_absent (h : child.reading schema json = .absent) : json = .null := by
  rcases reading_cases schema child json with huntyped | ⟨_, hleaf⟩ | ⟨_, hlist, _⟩ |
    ⟨_, hobject, _⟩
  · rw [huntyped] at h
    cases json <;> cases h
    rfl
  · exact absurd (hleaf.symm.trans h) (by simp)
  · exact absurd (hlist.symm.trans h) (by simp)
  · exact absurd (hobject.symm.trans h) (by simp)

/-- Without a type data are not read by one. -/
@[simp]
theorem isTyped_readUntyped (json : Json) : (readUntyped json).isTyped = false := by
  cases json <;> rfl

/-- A part stands in the data, behind its segment. -/
theorem at?_of_part? {segment : Segment} {known : Child} {part : Json}
    (h : (child.reading schema json).part? segment = some (known, part)) (rest : Path) :
    json.at? (segment :: rest) = part.at? rest := by
  cases hreading : child.reading schema json with
  | absent => rw [hreading] at h; cases segment <;> cases h
  | leaf type? => rw [hreading] at h; cases segment <;> cases h
  | list declared items =>
    rw [hreading] at h
    cases segment with
    | key key => cases h
    | index position =>
      have hpart : (items.map Prod.snd)[position]? = some part := by
        rw [List.getElem?_map, show items[position]? = some (known, part) from h, Option.map_some]
      rw [(of_reading_list hreading).1, Json.at?_array_of_getElem? hpart]
  | object declared members =>
    rw [hreading] at h
    cases segment with
    | index position => cases h
    | key key =>
      have hpart : (Entries.mapValues Prod.snd members).get? key = some part := by
        rw [Entries.get?_mapValues, show Entries.get? members key = some (known, part) from h,
          Option.map_some]
      rw [(of_reading_object hreading).1, Json.at?_object_of_get? hpart]

/-- Parts hold keys once when the data do. -/
theorem keyed_of_part? {segment : Segment} {known : Child} {part : Json}
    (h : (child.reading schema json).part? segment = some (known, part)) (hkeyed : json.Keyed) :
    part.Keyed := fun path members hmembers =>
  hkeyed (segment :: path) members ((at?_of_part? h path).trans hmembers)

/-- What stands in data behind a segment is a part of them, unless they are read as a leaf. -/
theorem exists_part? {segment : Segment} {rest : Path} {part : Json}
    (h : json.at? (segment :: rest) = some part) :
    (∃ type?, child.reading schema json = .leaf type?) ∨
      ∃ known inner, (child.reading schema json).part? segment = some (known, inner) ∧
        inner.at? rest = some part := by
  cases hreading : child.reading schema json with
  | absent =>
    rw [of_reading_absent hreading] at h
    exact absurd h (by simp [Json.at?])
  | leaf type? => exact .inl ⟨type?, rfl⟩
  | list declared items =>
    rw [(of_reading_list hreading).1] at h
    obtain ⟨position, inner, rfl, hinner, hpart⟩ := Json.at?_array_eq_some_iff.mp h
    rw [List.getElem?_map, Option.map_eq_some_iff] at hinner
    obtain ⟨⟨known, _⟩, hitem, rfl⟩ := hinner
    exact .inr ⟨known, _, hitem, hpart⟩
  | object declared members =>
    rw [(of_reading_object hreading).1] at h
    obtain ⟨key, inner, rfl, hinner, hpart⟩ := Json.at?_object_eq_some_iff.mp h
    rw [Entries.get?_mapValues, Option.map_eq_some_iff] at hinner
    obtain ⟨⟨known, _⟩, hmember, rfl⟩ := hinner
    exact .inr ⟨known, _, hmember, hpart⟩

/-- Everything in data is read, unless it is inside of what is read as a leaf. -/
theorem exists_readAt {path : Path} {part : Json} (h : json.at? path = some part) :
    (∃ known, child.readAt schema path json = some (known, part)) ∨
      ∃ before rest known leaf type?, path = before ++ rest ∧
        child.readAt schema before json = some (known, leaf) ∧
        known.reading schema leaf = .leaf type? := by
  induction path generalizing child json with
  | nil =>
    rw [Json.at?_nil, Option.some.injEq] at h
    exact .inl ⟨child, by rw [readAt, h]⟩
  | cons segment rest ih =>
    rcases exists_part? h with ⟨type?, hleaf⟩ | ⟨known, inner, hpart, hinner⟩
    · exact .inr ⟨[], segment :: rest, child, json, type?, rfl, rfl, hleaf⟩
    · have hstep : ∀ path, child.readAt schema (segment :: path) json =
          known.readAt schema path inner := by
        intro path
        rw [readAt, hpart, Option.bind_some]
      rcases ih hinner with ⟨found, hfound⟩ |
        ⟨before, after, found, leaf, type?, rfl, hfound, hleaf⟩
      · exact .inl ⟨found, (hstep rest).trans hfound⟩
      · exact .inr ⟨segment :: before, after, found, leaf, type?, rfl,
          (hstep before).trans hfound, hleaf⟩

end Reading

end Child

namespace Reconstruction

variable {σ : Type} {reconstruction : Reconstruction σ} {info? : Option FieldInfo}

/-! ## What is known about members -/

/-- Only the meta field names the concrete type. -/
theorem eq_typenameField_of_child {schema : Schema} {name : Name} {key : String}
    (h : child schema info? name key = .typename) : key = typenameField := by
  unfold child at h
  by_contra hne
  rw [if_neg hne] at h
  dsimp only at h
  split at h <;> cases h

/-- Only a gateway field has gateway fields beneath it. -/
theorem isSome_of_child {schema : Schema} {name : Name} {key : String}
    {info'? : Option FieldInfo} {type' : TypeRef}
    (h : child schema info? name key = .typed info'? type') (hsome : info'?.isSome = true) :
    info?.isSome = true := by
  unfold child at h
  cases info? with
  | some info => rfl
  | none =>
    by_cases hkey : key = typenameField
    · rw [if_pos hkey] at h
      cases h
    · rw [if_neg hkey] at h
      dsimp only [Option.bind_eq_bind, Option.bind_none] at h
      cases hfield : schema.field? name key <;> rw [hfield] at h <;> cases h
      cases hsome

/-! ## Warnings -/

/-- Only a warning comes of errors about items that a list does not have, and it does. -/
theorem warnOutside_ensures (reconstruction : Reconstruction σ) (length : Nat)
    (errors : List GraphError) :
    (reconstruction.warnOutside length errors).Ensures fun _ warnings =>
      errors.any (isOutside length) = true →
        .errorsOutsideList reconstruction.owner length ∈ warnings := by
  unfold warnOutside
  split_ifs with houtside
  · exact Act.ensures_warn fun _ => List.mem_cons_self
  · exact Act.ensures_pure fun h => absurd h houtside

/-- Only a warning comes of errors about a list, and it does. -/
theorem warnList_ensures (reconstruction : Reconstruction σ) (errors : List GraphError) :
    (reconstruction.warnList errors).Ensures fun _ warnings =>
      ownErrors errors ≠ [] → .listErrors reconstruction.owner ∈ warnings := by
  unfold warnList
  split_ifs with hnone
  · exact Act.ensures_pure fun h => absurd (List.isEmpty_iff.mp hnone) h
  · exact Act.ensures_warn fun _ => List.mem_cons_self

/-- Warnings about members are all that comes of them. -/
theorem warnUnknown_ensures (reconstruction : Reconstruction σ) (info? : Option FieldInfo)
    (type : Name) (keys : List String) :
    (reconstruction.warnUnknown info? type keys).Ensures fun _ _ => True := by
  unfold warnUnknown
  induction keys with
  | nil => exact Act.ensures_pure trivial
  | cons key rest ih =>
    refine Act.Ensures.bind (show Act.Ensures _ fun _ _ => True from ?_) fun _ _ _ => ih
    dsimp only
    split
    · exact Act.ensures_warn trivial
    · exact Act.ensures_pure trivial

/-! ## Reading without merging -/

/-- Objects are not merged: when there is a gateway field that they could answer, they are complete
as they are. -/
def Unmerged (reconstruction : Reconstruction σ) (info? : Option FieldInfo) : Prop :=
  info?.isSome = true → ∀ info type object,
    reconstruction.complete info type object = pure object

/-- An object that is not merged is complete. -/
theorem completed_ensures (reconstruction : Reconstruction σ) {skipsMerging : Bool} {type : Name}
    {object : FetchedObject} {post : FetchedValue → List Warning → Prop}
    (hunmerged : reconstruction.Unmerged info?)
    (h : post (.object object) []) :
    (reconstruction.completed info? type skipsMerging object).Ensures post := by
  unfold completed
  cases info? with
  | none => exact Act.ensures_pure h
  | some info =>
    cases skipsMerging with
    | true => exact Act.ensures_pure h
    | false =>
      dsimp only
      rw [hunmerged rfl]
      exact Act.ensures_pure h

/-- What may hold of data and the errors reported for them, of the value that is read from them and
of the warnings on the way. -/
abbrev ReadPost := Child → Json → List GraphError → FetchedValue → List Warning → Prop

/-- It holds of a part of data and of the part of the value that is read from it, with some of the
warnings. -/
def HoldsOfPart (post : ReadPost) (errors : List GraphError) (warnings : List Warning)
    (part : Segment × Child × Json) (value : Segment × FetchedValue) : Prop :=
  value.1 = part.1 ∧ ∃ more ⊆ warnings,
    post part.2.1 part.2.2 (errorsOfChild part.1 errors) value.2 more

/-- It holds of all values because it holds of a value when it holds of its parts. -/
structure HoldsByParts (reconstruction : Reconstruction σ) (post : ReadPost) : Prop where
  /-- Where there are no data, the value is made of the errors. -/
  absent : ∀ {child json}, child.reading reconstruction.schema json = .absent →
    ∀ errors, post child json errors (.ofErrors reconstruction.owner errors) []
  /-- A leaf without a type is kept. -/
  kept : ∀ {child json}, child.reading reconstruction.schema json = .leaf none →
    ∀ errors, post child json errors (.leaf json) []
  /-- A leaf of a type becomes a value of it. -/
  leaf : ∀ {child json type}, child.reading reconstruction.schema json = .leaf (some type) →
    ∀ errors, post child json errors (.ofLeaf reconstruction.schema type json) []
  /-- Items become those of a list. Of errors about a declared list comes a warning, and of errors
  about items that the list does not have. -/
  list : ∀ {child json declared items},
    child.reading reconstruction.schema json = .list declared items →
    ∀ {errors values warnings},
    (declared = true → ownErrors errors ≠ [] → .listErrors reconstruction.owner ∈ warnings) →
    (errors.any (isOutside items.length) = true →
      .errorsOutsideList reconstruction.owner items.length ∈ warnings) →
    List.Forall₂ (HoldsOfPart post errors warnings) (indexed 0 items) (indexed 0 values) →
    post child json errors (.list values) warnings
  /-- Members become those of an object that also has the errors. -/
  object : ∀ {child json declared members},
    child.reading reconstruction.schema json = .object declared members →
    ∀ {errors fields warnings},
    List.Forall₂ (HoldsOfPart post errors warnings) (keyed members) (keyed fields) →
    post child json errors (.object { fields, errors, owner := reconstruction.owner }) warnings

section HoldsByParts

variable {post : ReadPost} {errors : List GraphError}

/-- Parts hold with more warnings. -/
theorem HoldsOfPart.mono {warnings more : List Warning} (hsub : warnings ⊆ more)
    {parts : List (Segment × Child × Json)} {values : List (Segment × FetchedValue)}
    (h : List.Forall₂ (HoldsOfPart post errors warnings) parts values) :
    List.Forall₂ (HoldsOfPart post errors more) parts values :=
  h.imp fun _ _ ⟨hsegment, few, hfew, hpost⟩ =>
    ⟨hsegment, few, List.Subset.trans hfew hsub, hpost⟩

/-- A first part holds before the others, and the warnings come in this order. -/
theorem HoldsOfPart.cons {first others : List Warning} {part : Segment × Child × Json}
    {parts : List (Segment × Child × Json)} {segment : Segment} {value : FetchedValue}
    {values : List (Segment × FetchedValue)} (hsegment : segment = part.1)
    (hfirst : post part.2.1 part.2.2 (errorsOfChild part.1 errors) value first)
    (hothers : List.Forall₂ (HoldsOfPart post errors others) parts values) :
    List.Forall₂ (HoldsOfPart post errors (first ++ others)) (part :: parts)
      ((segment, value) :: values) :=
  .cons ⟨hsegment, first, List.subset_append_left _ _, hfirst⟩
    (mono (List.subset_append_right _ _) hothers)

mutual

/-- What is read without a type has what holds by parts. -/
theorem HoldsByParts.untyped (h : reconstruction.HoldsByParts post) : ∀ (json : Json)
    (errors : List GraphError) (child : Child),
    child.reading reconstruction.schema json = Child.readUntyped json →
    (reconstruction.untyped json errors).Ensures (post child json errors)
  | .null, errors, _, hreading => Act.ensures_pure (h.absent hreading errors)
  | .array items, errors, child, hreading => by
    refine (HoldsByParts.untypedItems h items errors 0).bind fun values more hvalues =>
      (warnOutside_ensures reconstruction items.length errors).bind fun _ outside houtside =>
        Act.ensures_pure ?_
    refine h.list hreading (fun habsurd => absurd habsurd (by decide)) (fun hany => ?_)
      (HoldsOfPart.mono (List.subset_append_left _ _) hvalues)
    rw [List.length_map] at hany ⊢
    exact List.mem_append_right _ (List.mem_append_left _ (houtside hany))
  | .object members, errors, child, hreading =>
    (HoldsByParts.untypedMembers h members errors).bind fun fields more hfields =>
      Act.ensures_pure <| h.object hreading <|
        HoldsOfPart.mono (List.subset_append_left _ _) hfields
  | .bool _, errors, _, hreading | .int _, errors, _, hreading | .float _, errors, _, hreading
  | .string _, errors, _, hreading => Act.ensures_pure (h.kept hreading errors)

/-- So do the items of a list. -/
theorem HoldsByParts.untypedItems (h : reconstruction.HoldsByParts post) :
    ∀ (items : List Json) (errors : List GraphError) (position : Nat),
    (reconstruction.untypedItems errors position items).Ensures fun values warnings =>
      List.Forall₂ (HoldsOfPart post errors warnings)
        (indexed position (items.map fun item => (Child.unknown, item)))
        (indexed position values)
  | [], _, _ => Act.ensures_pure .nil
  | item :: rest, errors, position => by
    refine (HoldsByParts.untyped h item _ .unknown rfl).bind fun value first hvalue =>
      (HoldsByParts.untypedItems h rest errors (position + 1)).bind fun values others hvalues =>
        Act.ensures_pure ?_
    rw [List.map_cons, indexed_cons, indexed_cons, List.append_nil]
    exact HoldsOfPart.cons rfl hvalue hvalues

/-- So do the members of an object. -/
theorem HoldsByParts.untypedMembers (h : reconstruction.HoldsByParts post) :
    ∀ (members : List (String × Json)) (errors : List GraphError),
    (reconstruction.untypedMembers errors members).Ensures fun fields warnings =>
      List.Forall₂ (HoldsOfPart post errors warnings)
        (keyed (members.map fun member => (member.1, Child.unknown, member.2))) (keyed fields)
  | [], _ => Act.ensures_pure .nil
  | (key, item) :: rest, errors => by
    refine (HoldsByParts.untyped h item _ .unknown rfl).bind fun value first hvalue =>
      (HoldsByParts.untypedMembers h rest errors).bind fun fields others hfields =>
        Act.ensures_pure ?_
    rw [List.append_nil]
    exact HoldsOfPart.cons rfl hvalue hfields

end

/-- What is no list and no object of its type has what holds by parts. -/
theorem HoldsByParts.plain (h : reconstruction.HoldsByParts post) {json : Json}
    {type : TypeRef}
    (hreading : (Child.typed info? type).reading reconstruction.schema json =
      Child.readPlain reconstruction.schema type json) :
    (reconstruction.plain json errors type).Ensures (post (.typed info? type) json errors) := by
  unfold Reconstruction.plain
  unfold Child.readPlain at hreading
  split_ifs at hreading ⊢ with hleaf
  · exact Act.ensures_pure (h.leaf hreading errors)
  · exact h.untyped json errors _ hreading

mutual

/-- What is read by its type has what holds by parts, if objects are not merged. -/
theorem HoldsByParts.value (h : reconstruction.HoldsByParts post) : ∀ (json : Json)
    (errors : List GraphError) (info? : Option FieldInfo) (type : TypeRef) (skipsMerging : Bool),
    reconstruction.Unmerged info? →
    (reconstruction.value json errors info? type skipsMerging).Ensures
      (post (.typed info? type) json errors)
  | .null, errors, _, _, _, _ => Act.ensures_pure (h.absent rfl errors)
  | .array items, errors, info?, type, skipsMerging, hunmerged => by
    rw [Reconstruction.value]
    cases hitem : type.item? with
    | none => exact h.plain (by rw [Child.reading, hitem])
    | some item =>
      have hreading : (Child.typed info? type).reading reconstruction.schema (.array items) =
          .list true (items.zipIdx.map fun part =>
            (.typed (info?.map (·.atIndex part.2)) item, part.1)) := by
        rw [Child.reading, hitem]
      refine (warnList_ensures reconstruction errors).bind fun _ own hown =>
        (warnOutside_ensures reconstruction items.length errors).bind fun _ outside houtside =>
          (HoldsByParts.itemValues h items errors info? item skipsMerging 0 hunmerged).bind
            fun values more hvalues => Act.ensures_pure ?_
      refine h.list hreading (fun _ hsome => ?_) (fun hany => ?_) ?_
      · exact List.mem_append_left _ (hown hsome)
      · rw [List.length_map, List.length_zipIdx] at hany ⊢
        exact List.mem_append_right _ (List.mem_append_left _ (houtside hany))
      · refine HoldsOfPart.mono ?_ hvalues
        rw [List.append_nil]
        exact List.Subset.trans (List.subset_append_right _ _) (List.subset_append_right _ _)
  | .object members, errors, info?, type, skipsMerging, hunmerged => by
    rw [Reconstruction.value]
    by_cases hcomposite : reconstruction.schema.isComposite type.innerName = true
    · rw [if_pos hcomposite]
      have hreading : (Child.typed info? type).reading reconstruction.schema (.object members) =
          .object true (members.map fun member =>
            (member.1, child reconstruction.schema info?
              (concreteType reconstruction.schema members type.innerName) member.1, member.2)) := by
        rw [Child.reading, if_pos hcomposite]
      refine (warnUnknown_ensures reconstruction info? _ _).bind fun _ unknown _ =>
        (HoldsByParts.memberValues h members errors info? _ hunmerged).bind
          fun fields more hfields => completed_ensures reconstruction hunmerged ?_
      refine h.object hreading (HoldsOfPart.mono ?_ hfields)
      rw [List.append_nil]
      exact List.subset_append_right _ _
    · rw [if_neg hcomposite]
      exact h.plain (by rw [Child.reading, if_neg hcomposite])
  | .bool _, _, _, _, _, _ | .int _, _, _, _, _, _ | .float _, _, _, _, _, _
  | .string _, _, _, _, _, _ => h.plain rfl

/-- So do the items of a list. -/
theorem HoldsByParts.itemValues (h : reconstruction.HoldsByParts post) : ∀ (items : List Json)
    (errors : List GraphError) (info? : Option FieldInfo) (type : TypeRef) (skipsMerging : Bool)
    (position : Nat), reconstruction.Unmerged info? →
    (reconstruction.itemValues errors info? type skipsMerging position items).Ensures
      fun values warnings => List.Forall₂ (HoldsOfPart post errors warnings)
        (indexed position ((items.zipIdx position).map fun part =>
          (Child.typed (info?.map (·.atIndex part.2)) type, part.1)))
        (indexed position values)
  | [], _, _, _, _, _, _ => Act.ensures_pure .nil
  | item :: rest, errors, info?, type, skipsMerging, position, hunmerged => by
    have hitem : reconstruction.Unmerged (info?.map (·.atIndex position)) := fun hsome =>
      hunmerged (by rwa [Option.isSome_map] at hsome)
    refine (HoldsByParts.value h item _ _ type skipsMerging hitem).bind fun value first hvalue =>
      (HoldsByParts.itemValues h rest errors info? type skipsMerging (position + 1)
        hunmerged).bind fun values others hvalues => Act.ensures_pure ?_
    rw [List.zipIdx_cons, List.map_cons, indexed_cons, indexed_cons, List.append_nil]
    exact HoldsOfPart.cons rfl hvalue hvalues

/-- So do the members of an object. -/
theorem HoldsByParts.memberValues (h : reconstruction.HoldsByParts post) :
    ∀ (members : List (String × Json)) (errors : List GraphError) (info? : Option FieldInfo)
    (type : Name), reconstruction.Unmerged info? →
    (reconstruction.memberValues errors info? type members).Ensures fun fields warnings =>
      List.Forall₂ (HoldsOfPart post errors warnings)
        (keyed (members.map fun member =>
          (member.1, child reconstruction.schema info? type member.1, member.2)))
        (keyed fields)
  | [], _, _, _, _ => Act.ensures_pure .nil
  | (key, json) :: rest, errors, info?, type, hunmerged => by
    -- Whatever is known about the first member, the others follow once it is read.
    have hothers : ∀ first more,
        post (child reconstruction.schema info? type key) json (errorsOfChild (.key key) errors)
          first more →
        Act.Ensures (do
          return (key, first) :: (← reconstruction.memberValues errors info? type rest))
          fun fields warnings => List.Forall₂ (HoldsOfPart post errors (more ++ warnings))
            (keyed (((key, json) :: rest).map fun member =>
              (member.1, child reconstruction.schema info? type member.1, member.2)))
            (keyed fields) := by
      intro first more hfirst
      refine (HoldsByParts.memberValues h rest errors info? type hunmerged).bind
        fun fields others hfields => Act.ensures_pure ?_
      rw [List.append_nil]
      exact HoldsOfPart.cons rfl hfirst hfields
    rw [Reconstruction.memberValues]
    cases hchild : child reconstruction.schema info? type key with
    | typename =>
      rw [hchild] at hothers
      exact (Act.ensures_pure (h.kept (by cases json <;> rfl) _)).bind hothers
    | typed childInfo? childType =>
      rw [hchild] at hothers
      exact (HoldsByParts.value h json _ childInfo? childType false
        fun hsome => hunmerged (isSome_of_child hchild hsome)).bind hothers
    | unknown =>
      rw [hchild] at hothers
      exact (h.untyped json _ .unknown (by cases json <;> rfl)).bind hothers

end

/-- What is reconstructed without merging has what holds by parts. -/
theorem HoldsByParts.result (h : reconstruction.HoldsByParts post)
    (hunmerged : reconstruction.Unmerged info?) (data? : Option Json) (errors : List GraphError)
    (type : TypeRef) (skipsMerging : Bool) :
    (reconstruction.result data? errors info? type skipsMerging).Ensures
      (post (.typed info? type) (data?.getD .null) errors) :=
  h.value _ errors info? type skipsMerging hunmerged

/-- Reconstruction without merging never fails. -/
theorem exists_result (hunmerged : reconstruction.Unmerged info?) (data? : Option Json)
    (errors : List GraphError) (type : TypeRef) (skipsMerging : Bool) (session : Session σ) :
    ∃ value warnings,
      runFrom (reconstruction.result data? errors info? type skipsMerging) session =
        (.ok value, { session with warnings := session.warnings ++ warnings }) := by
  have hanything : reconstruction.HoldsByParts fun _ _ _ _ _ => True :=
    ⟨fun _ _ => trivial, fun _ _ => trivial, fun _ _ => trivial, fun _ _ _ _ _ _ _ => trivial,
      fun _ _ _ _ _ => trivial⟩
  obtain ⟨value, warnings, hrun, -⟩ :=
    hanything.result hunmerged data? errors type skipsMerging session
  exact ⟨value, warnings, hrun⟩

end HoldsByParts

end Reconstruction

end Gateway
