import Gateway.Proofs.Fetched.Conformant
import Gateway.Proofs.Fetched.Reading

/-!
# Data that are kept

Without errors and without merging, reconstruction keeps the data. Lists keep their items and
objects their keys, in order; data that are read without a type are as they were, and only leaves of
enums and built-in scalars may change (`Restores`, `LeafRestores`). Every object belongs to the
subschema that the data came from.

`Reconstruction.result_restores` says so at every path. What holds at a path follows from what holds
of the parts of data (`FetchedValue.restoresAll_of_parts`), by `Reconstruction.HoldsByParts`.
-/

namespace Gateway

/-! ## Leaves -/

/-- A value of a built-in scalar. -/
def IsScalarValue : Name → Json → Prop
  | "Int", json => ∃ n, json = .int n ∧ -Int.pow 2 31 ≤ n ∧ n < Int.pow 2 31
  | "Float", json => (∃ n, json = .int n) ∨ ∃ x, json = .float x
  | "String", json => ∃ text, json = .string text
  | "Boolean", json => ∃ truth, json = .bool truth
  | "ID", json => ∃ text, json = .string text
  | _, _ => False

/-- A value of an enum or of a built-in scalar. -/
inductive IsLeafValue (schema : Schema) (type : Name) : Json → Prop
  | member {values : List EnumValue} (henum : schema.body? type = some (.enum values))
      {value : EnumValue} (hvalue : value ∈ values) : IsLeafValue schema type (.string value.name)
  | scalar {json : Json} (hscalar : schema.body? type = some .scalar)
      (hvalue : IsScalarValue type json) : IsLeafValue schema type json

/-- An integer that stands for an identifier. -/
structure IsIntegerId (schema : Schema) (type : Name) (n : Int) : Prop where
  scalar : schema.body? type = some .scalar
  identifier : type = "ID"
  fits : -Int.pow 2 63 ≤ n ∧ n < Int.pow 2 63

/-- Leaves of the type have to be values of it: it is an enum or a built-in scalar. -/
def IsChecked (schema : Schema) (type : Name) : Prop :=
  (∃ values, schema.body? type = some (.enum values)) ∨
    schema.body? type = some .scalar ∧ type ∈ Builtin.scalarNames

/-- What becomes of a leaf of a type. -/
inductive LeafRestores (schema : Schema) (type : Name) : Json → Json → Prop
  /-- Leaves of other types are kept. -/
  | unchecked {json : Json} (htype : ¬ IsChecked schema type) : LeafRestores schema type json json
  /-- Values of the type are kept. -/
  | valid {json : Json} (hvalue : IsLeafValue schema type json) :
    LeafRestores schema type json json
  /-- An integer that is an identifier becomes its decimal text. -/
  | identifier {n : Int} (hid : IsIntegerId schema type n) :
    LeafRestores schema type (.int n) (.string (toString n))
  /-- Anything else becomes null. -/
  | invalid {json : Json} (htype : IsChecked schema type)
    (hvalue : ¬ IsLeafValue schema type json)
    (hid : ∀ n, json = .int n → ¬ IsIntegerId schema type n) : LeafRestores schema type json .null

section Leaves

variable {schema : Schema} {type : Name}

/-- Members of an enum are its values. -/
theorem isLeafValue_enum_iff {values : List EnumValue} {json : Json}
    (henum : schema.body? type = some (.enum values)) :
    IsLeafValue schema type json ↔ ∃ value ∈ values, json = .string value.name := by
  constructor
  · rintro (⟨henum', hvalue⟩ | ⟨hscalar, -⟩)
    · cases henum.symm.trans henum'
      exact ⟨_, hvalue, rfl⟩
    · exact absurd (henum.symm.trans hscalar) (by simp)
  · rintro ⟨value, hvalue, rfl⟩
    exact .member henum hvalue

/-- Values of the right shape are those of a scalar. -/
theorem isLeafValue_scalar_iff {json : Json} (hscalar : schema.body? type = some .scalar) :
    IsLeafValue schema type json ↔ IsScalarValue type json := by
  constructor
  · rintro (⟨henum, -⟩ | ⟨-, hvalue⟩)
    · exact absurd (hscalar.symm.trans henum) (by simp)
    · exact hvalue
  · exact .scalar hscalar

/-- What is neither a value of a built-in scalar nor an identifier becomes null. -/
theorem LeafRestores.of_scalar {json : Json} (hscalar : schema.body? type = some .scalar)
    (hname : type ∈ Builtin.scalarNames) (hvalue : ¬ IsScalarValue type json)
    (hid : type = "ID" → ∀ n, json = .int n → ¬ (-Int.pow 2 63 ≤ n ∧ n < Int.pow 2 63)) :
    LeafRestores schema type json .null :=
  .invalid (.inr ⟨hscalar, hname⟩) (fun h => hvalue ((isLeafValue_scalar_iff hscalar).mp h))
    fun n hn h => hid h.identifier n hn h.fits

/-- A leaf of a scalar becomes what the scalar makes of it. -/
theorem scalarLeaf?_restores (hscalar : schema.body? type = some .scalar) (json : Json) :
    LeafRestores schema type json ((scalarLeaf? type json).getD .null) := by
  unfold scalarLeaf?
  split
  case h_1 n =>
    split_ifs with hfits
    · exact .valid (.scalar hscalar ⟨n, rfl, of_decide_eq_true hfits⟩)
    · refine .of_scalar hscalar (by decide) ?_ (by simp)
      rintro ⟨_, ⟨⟩, hfits'⟩
      exact hfits (decide_eq_true hfits')
  case h_3 => exact .valid (.scalar hscalar (.inl ⟨_, rfl⟩))
  case h_4 => exact .valid (.scalar hscalar (.inr ⟨_, rfl⟩))
  case h_6 => exact .valid (.scalar hscalar ⟨_, rfl⟩)
  case h_8 => exact .valid (.scalar hscalar ⟨_, rfl⟩)
  case h_10 n =>
    split_ifs with hfits
    · exact .identifier ⟨hscalar, rfl, of_decide_eq_true hfits⟩
    · refine .of_scalar hscalar (by decide) (fun ⟨_, h⟩ => nomatch h) ?_
      rintro - _ ⟨⟩ hfits'
      exact hfits (decide_eq_true hfits')
  case h_11 => exact .valid (.scalar hscalar ⟨_, rfl⟩)
  case h_12 hint hstring =>
    exact .of_scalar hscalar (by decide) (fun ⟨text, h⟩ => hstring text h)
      fun _ n hn => absurd hn (hint n)
  case h_13 =>
    refine .unchecked ?_
    rintro (⟨_, henum⟩ | ⟨-, hname⟩)
    · exact absurd (hscalar.symm.trans henum) (by simp)
    · simp_all [Builtin.scalarNames]
  -- The other shapes are no values of the scalar.
  case h_2 hint =>
    exact .of_scalar hscalar (by decide) (fun ⟨n, h, _⟩ => hint n h) (by simp)
  case h_5 hint hfloat =>
    exact .of_scalar hscalar (by decide) (fun h => h.elim (fun ⟨n, h⟩ => hint n h)
      fun ⟨x, h⟩ => hfloat x h) (by simp)
  case h_7 hstring =>
    exact .of_scalar hscalar (by decide) (fun ⟨text, h⟩ => hstring text h) (by simp)
  case h_9 hbool =>
    exact .of_scalar hscalar (by decide) (fun ⟨truth, h⟩ => hbool truth h) (by simp)

/-- A leaf of a type becomes what the type makes of it. -/
theorem ofLeaf_restores (schema : Schema) (type : Name) (json : Json) :
    LeafRestores schema type json (FetchedValue.ofLeaf schema type json).toJson := by
  have hdata : (FetchedValue.ofLeaf schema type json).toJson =
      (leafValue? schema type json).getD .null := by
    unfold FetchedValue.ofLeaf
    cases leafValue? schema type json <;> rfl
  rw [hdata]
  unfold leafValue?
  split
  case h_1 values henum =>
    -- Only names can be members of an enum.
    have hother : (∀ value ∈ values, json ≠ .string value.name) →
        LeafRestores schema type json .null := by
      intro hnone
      refine .invalid (.inl ⟨values, henum⟩) (fun h => ?_) fun n _ hid =>
        absurd (henum.symm.trans hid.scalar) (by simp)
      obtain ⟨value, hvalue, hjson⟩ := (isLeafValue_enum_iff henum).mp h
      exact hnone value hvalue hjson
    split
    · split_ifs with hmember
      · obtain ⟨value, hvalue, hname⟩ := List.any_eq_true.mp hmember
        rw [← of_decide_eq_true hname]
        exact .valid (.member henum hvalue)
      · refine hother fun value hvalue hjson => hmember ?_
        exact List.any_eq_true.mpr ⟨value, hvalue, decide_eq_true (Json.string.inj hjson).symm⟩
    · rename_i hstring
      exact hother fun value _ hjson => hstring _ hjson
  case h_2 hscalar => exact scalarLeaf?_restores hscalar json
  case h_3 henum hscalar =>
    refine .unchecked ?_
    rintro (⟨values, h⟩ | ⟨h, -⟩)
    · exact henum values h
    · exact hscalar h

end Leaves

/-! ## Data -/

/-- What is restored of data about which something is known. Without a type they are as they were; a
leaf becomes what its type makes of it, a list has as many items and an object the same keys in
order. -/
def Restores (schema : Schema) (known : Child) (json restored : Json) : Prop :=
  match known.reading schema json with
  | .leaf (some type) => LeafRestores schema type json restored
  | .list true items => ∃ values, restored = .array values ∧ values.length = items.length
  | .object true members =>
    ∃ fields, restored = .object fields ∧ Entries.keys fields = Entries.keys members
  | _ => restored = json

namespace FetchedValue

/-- Every object in the value belongs to a subschema, and so do all of its fields. -/
def BelongsTo (owner : String) (value : FetchedValue) : Prop :=
  ∀ path object, value.at? path = some (.object object) →
    object.owner = owner ∧ object.fieldOwners = []

/-- The value restores data, everything that is read of them, and belongs to a subschema. -/
structure RestoresAll (schema : Schema) (owner : String) (child : Child) (json : Json)
    (value : FetchedValue) : Prop where
  /-- At every path there is what is restored of what is read there. -/
  read : ∀ path known part, child.readAt schema path json = some (known, part) →
    ∃ restored, value.toJson.at? path = some restored ∧ Restores schema known part restored
  /-- Without a type the data are as they were. -/
  kept : (child.reading schema json).isTyped = false → value.toJson = json
  /-- Every object belongs to the subschema. -/
  owned : value.BelongsTo owner

section RestoresAll

variable {schema : Schema} {owner : String} {child : Child} {json : Json} {value : FetchedValue}

/-- Data are restored when they are at their own position and all of their parts are. -/
theorem restoresAll_of_parts (hhere : Restores schema child json value.toJson)
    (hparts : ∀ segment known part,
      (child.reading schema json).part? segment = some (known, part) →
      ∃ inner, RestoresAll schema owner known part inner ∧
        ∀ rest, value.toJson.at? (segment :: rest) = inner.toJson.at? rest)
    (hkept : (child.reading schema json).isTyped = false → value.toJson = json)
    (howned : value.BelongsTo owner) : RestoresAll schema owner child json value where
  kept := hkept
  owned := howned
  read := by
    rintro (_ | ⟨segment, rest⟩) known part hread
    · rw [Child.readAt, Option.some.injEq, Prod.mk.injEq] at hread
      obtain ⟨rfl, rfl⟩ := hread
      exact ⟨_, Json.at?_nil _, hhere⟩
    · rw [Child.readAt, Option.bind_eq_some_iff] at hread
      obtain ⟨⟨inner, innerJson⟩, hpart, hrest⟩ := hread
      obtain ⟨innerValue, hinner, hat⟩ := hparts segment inner innerJson hpart
      rw [hat]
      exact hinner.read rest known part hrest

/-- A value that is no list and no object belongs to any subschema. -/
theorem belongsTo_of_plain (hlist : ∀ items, value ≠ .list items)
    (hobject : ∀ object, value ≠ .object object) : value.BelongsTo owner := by
  rintro (_ | ⟨segment, rest⟩) object hpart
  · rw [at?_nil, Option.some.injEq] at hpart
    exact absurd hpart (hobject object)
  · cases value with
    | list items => exact absurd rfl (hlist items)
    | object found => exact absurd rfl (hobject found)
    | _ => exact absurd hpart (by simp [at?])

end RestoresAll

end FetchedValue

namespace Reconstruction

open FetchedValue (RestoresAll BelongsTo)

variable {σ : Type} {reconstruction : Reconstruction σ} {info? : Option FieldInfo}

/-- Whatever data are read, they are restored if no errors were reported. -/
def restoring (reconstruction : Reconstruction σ) : ReadPost :=
  fun child json errors value _ => errors = [] →
    RestoresAll reconstruction.schema reconstruction.owner child json value

section Parts

variable {child : Child} {json : Json} {declared : Bool} {warnings : List Warning}

/-- Without errors the parts of data are restored. -/
theorem HoldsOfPart.restores {part : Segment × Child × Json} {value : Segment × FetchedValue}
    (h : HoldsOfPart reconstruction.restoring [] warnings part value) :
    RestoresAll reconstruction.schema reconstruction.owner part.2.1 part.2.2 value.2 := by
  obtain ⟨-, _, -, hpost⟩ := h
  exact hpost rfl

/-- Parts of which nothing is known are as they were. -/
theorem map_toJson_eq {parts : List (Segment × Child × Json)}
    {values : List (Segment × FetchedValue)} (hunknown : ∀ part ∈ parts, part.2.1 = .unknown)
    (h : List.Forall₂ (HoldsOfPart reconstruction.restoring [] warnings) parts values) :
    values.map (fun value => (value.1, value.2.toJson)) =
      parts.map fun part => (part.1, part.2.2) := by
  rw [← List.forall₂_eq_eq_eq, List.forall₂_map_left_iff, List.forall₂_map_right_iff]
  refine ((List.forall₂_and_left _ _).mpr ⟨hunknown, h⟩).flip.imp fun value part hpart => ?_
  obtain ⟨hunknown, hholds⟩ := hpart
  refine Prod.ext hholds.1 (hholds.restores.kept ?_)
  rw [hunknown]
  exact Child.isTyped_readUntyped _

/-- A list is restored when its items are. -/
theorem restoresAll_list {items : List (Child × Json)} {values : List FetchedValue}
    (hreading : child.reading reconstruction.schema json = .list declared items)
    (hitems : List.Forall₂ (HoldsOfPart reconstruction.restoring [] warnings) (indexed 0 items)
      (indexed 0 values)) :
    RestoresAll reconstruction.schema reconstruction.owner child json (.list values) := by
  obtain ⟨hjson, hunknown⟩ := Child.of_reading_list hreading
  have hkept : declared = false → (FetchedValue.list values).toJson = json := by
    intro hdeclared
    have hsame := map_toJson_eq (fun part hpart => ?_) hitems
    · rw [← indexed_map, ← indexed_map] at hsame
      rw [FetchedValue.toJson_list, hjson, ← indexed_map_snd 0 (values.map _), hsame,
        indexed_map_snd]
    · obtain ⟨position, -, hitem⟩ := mem_indexed.mp hpart
      exact hunknown hdeclared _ (List.mem_of_getElem? hitem)
  refine FetchedValue.restoresAll_of_parts ?_ ?_ ?_ ?_
  · unfold Restores
    rw [hreading]
    cases declared with
    | false => exact hkept rfl
    | true =>
      refine ⟨_, FetchedValue.toJson_list values, ?_⟩
      have hlength := congrArg List.length (indexed_map_snd 0 values)
      rw [List.length_map, ← hitems.length_eq] at hlength
      rw [List.length_map, ← hlength, ← congrArg List.length (indexed_map_snd 0 items),
        List.length_map]
  · intro segment known part hpart
    rw [hreading] at hpart
    cases segment with
    | key key => cases hpart
    | index position =>
      obtain ⟨value, hvalue, hholds⟩ :=
        exists_getElem?_of_forall₂ hitems (fun _ _ h => h.1) hpart
      refine ⟨value, hholds.restores, fun rest => ?_⟩
      rw [FetchedValue.toJson_list]
      refine Json.at?_array_of_getElem? ?_ rest
      rw [List.getElem?_map, hvalue, Option.map_some]
  · intro htyped
    rw [hreading] at htyped
    exact hkept htyped
  · rintro (_ | ⟨segment, rest⟩) object hobject
    · cases hobject
    · cases segment with
      | key key => cases hobject
      | index position =>
        rw [FetchedValue.at?, Option.bind_eq_some_iff] at hobject
        obtain ⟨value, hvalue, hrest⟩ := hobject
        obtain ⟨part, -, hholds⟩ :=
          exists_getElem?_of_forall₂ hitems.flip (fun _ _ h => h.1.symm) hvalue
        exact (HoldsOfPart.restores hholds).owned rest object hrest

/-- An object is restored when its members are. -/
theorem restoresAll_object {members : List (String × Child × Json)}
    {fields : Entries FetchedValue}
    (hreading : child.reading reconstruction.schema json = .object declared members)
    (hmembers : List.Forall₂ (HoldsOfPart reconstruction.restoring [] warnings) (keyed members)
      (keyed fields)) :
    RestoresAll reconstruction.schema reconstruction.owner child json
      (.object { fields, owner := reconstruction.owner }) := by
  obtain ⟨hjson, hunknown⟩ := Child.of_reading_object hreading
  have hkept : declared = false →
      (FetchedValue.object { fields, owner := reconstruction.owner }).toJson = json := by
    intro hdeclared
    have hsame := map_toJson_eq (fun part hpart => ?_) hmembers
    · rw [← keyed_mapValues, ← keyed_mapValues] at hsame
      rw [FetchedValue.toJson_object, hjson]
      exact congrArg Json.object (keyed_injective hsame)
    · obtain ⟨key, -, hmember⟩ := mem_keyed.mp hpart
      exact hunknown hdeclared _ hmember
  refine FetchedValue.restoresAll_of_parts ?_ ?_ ?_ ?_
  · unfold Restores
    rw [hreading]
    cases declared with
    | false => exact hkept rfl
    | true =>
      refine ⟨_, FetchedValue.toJson_object _, ?_⟩
      rw [Entries.keys_mapValues]
      exact keys_eq_of_forall₂ hmembers fun _ _ h => h.1
  · intro segment known part hpart
    rw [hreading] at hpart
    cases segment with
    | index position => cases hpart
    | key key =>
      obtain ⟨value, hvalue, hholds⟩ :=
        exists_get?_of_forall₂ hmembers (fun _ _ h => h.1) hpart
      refine ⟨value, hholds.restores, fun rest => ?_⟩
      rw [FetchedValue.toJson_object]
      refine Json.at?_object_of_get? ?_ rest
      rw [Entries.get?_mapValues, hvalue, Option.map_some]
  · intro htyped
    rw [hreading] at htyped
    exact hkept htyped
  · rintro (_ | ⟨segment, rest⟩) object hobject
    · cases hobject
      exact ⟨rfl, rfl⟩
    · cases segment with
      | index position => cases hobject
      | key key =>
        rw [FetchedValue.at?, Option.bind_eq_some_iff] at hobject
        obtain ⟨value, hvalue, hrest⟩ := hobject
        have hfield : (Segment.key key, value) ∈ keyed fields :=
          mem_keyed.mpr ⟨key, rfl, Entries.mem_of_get? hvalue⟩
        obtain ⟨part, -, hholds⟩ := exists_of_mem_forall₂ hmembers hfield
        exact hholds.restores.owned rest object hrest

end Parts

/-- Without errors everything that is read is restored. -/
theorem restoring_holdsByParts (reconstruction : Reconstruction σ) :
    reconstruction.HoldsByParts reconstruction.restoring where
  absent := by
    rintro child json hreading _ rfl
    obtain rfl := Child.of_reading_absent hreading
    refine FetchedValue.restoresAll_of_parts ?_ ?_ (fun _ => rfl)
      (FetchedValue.belongsTo_of_plain
        (by simp [FetchedValue.ofErrors, FetchedValue.ofErrorsWithin])
        (by simp [FetchedValue.ofErrors, FetchedValue.ofErrorsWithin]))
    · unfold Restores
      rw [hreading]
      rfl
    · intro segment known part hpart
      rw [hreading] at hpart
      cases segment <;> cases hpart
  kept := by
    rintro child json hreading _ rfl
    refine FetchedValue.restoresAll_of_parts ?_ ?_ (fun _ => rfl)
      (FetchedValue.belongsTo_of_plain (by simp) (by simp))
    · unfold Restores
      rw [hreading]
      rfl
    · intro segment known part hpart
      rw [hreading] at hpart
      cases segment <;> cases hpart
  leaf := by
    rintro child json type hreading _ rfl
    have hplain : ∀ owner,
        (FetchedValue.ofLeaf reconstruction.schema type json).BelongsTo owner := by
      intro owner
      unfold FetchedValue.ofLeaf
      cases leafValue? reconstruction.schema type json <;>
        exact FetchedValue.belongsTo_of_plain (by simp) (by simp)
    refine FetchedValue.restoresAll_of_parts ?_ ?_ ?_ (hplain _)
    · unfold Restores
      rw [hreading]
      exact ofLeaf_restores _ _ _
    · intro segment known part hpart
      rw [hreading] at hpart
      cases segment <;> cases hpart
    · intro htyped
      rw [hreading] at htyped
      cases htyped
  list hreading _ _ _ _ _ hitems := by
    rintro rfl
    exact restoresAll_list hreading hitems
  object hreading _ _ _ hmembers := by
    rintro rfl
    exact restoresAll_object hreading hmembers

/-- Without errors and without merging, reconstruction never fails and restores the data. All that
is in them, but for what is inside of leaves, is read at its path and restored there, and every
object belongs to the subschema. -/
theorem result_restores (hunmerged : reconstruction.Unmerged info?) (data? : Option Json)
    (type : TypeRef) (skipsMerging : Bool) (session : Session σ) :
    ∃ value warnings,
      runFrom (reconstruction.result data? [] info? type skipsMerging) session =
        (.ok value, { session with warnings := session.warnings ++ warnings }) ∧
      (∀ path known part, (Child.typed info? type).readAt reconstruction.schema path
          (data?.getD .null) = some (known, part) →
        ∃ restored, value.toJson.at? path = some restored ∧
          Restores reconstruction.schema known part restored) ∧
      (∀ path part, (data?.getD .null).at? path = some part →
        (∃ known, (Child.typed info? type).readAt reconstruction.schema path
          (data?.getD .null) = some (known, part)) ∨
        ∃ before rest known leaf leafType?, path = before ++ rest ∧
          (Child.typed info? type).readAt reconstruction.schema before (data?.getD .null) =
            some (known, leaf) ∧
          known.reading reconstruction.schema leaf = .leaf leafType?) ∧
      value.BelongsTo reconstruction.owner := by
  obtain ⟨value, warnings, hrun, hrestores⟩ :=
    (restoring_holdsByParts reconstruction).result hunmerged data? [] type skipsMerging session
  exact ⟨value, warnings, hrun, (hrestores rfl).read, fun _ _ => Child.exists_readAt,
    (hrestores rfl).owned⟩

/-- A user with an age that is no number, and with tags of which nothing is known. -/
def taggedUser : Json :=
  .object [("name", .string "Ann"), ("age", .string "unknown"),
    ("tags", .array [.int 1, .null])]

/-- The age becomes null, and the tags are as they were. -/
theorem result_restores_taggedUser :
    userResults.Unmerged none ∧ ∃ value warnings,
      runFrom (userResults.result (some taggedUser) [] none (.named "User") false)
        { world := () } = (.ok value, { world := (), warnings }) ∧
      value.toJson.at? [.key "age"] = some .null ∧
      value.toJson.at? [.key "tags"] = some (.array [.int 1, .null]) := by
  have hunmerged : userResults.Unmerged none := fun _ _ _ _ => rfl
  obtain ⟨value, warnings, hrun, hread, -, -⟩ :=
    result_restores hunmerged (some taggedUser) (.named "User") false { world := () }
  refine ⟨hunmerged, value, warnings, hrun, ?_, ?_⟩
  · obtain ⟨age, hage, hrestores⟩ := hread [.key "age"] (.typed none (.named "Int"))
      (.string "unknown") rfl
    have hleaf : LeafRestores userSchema "Int" (.string "unknown") age := hrestores
    rw [hage]
    cases hleaf with
    | invalid => rfl
    | unchecked htype => exact absurd (.inr ⟨by decide, by decide⟩) htype
    | valid hvalue =>
      obtain ⟨_, h, -⟩ := (isLeafValue_scalar_iff (by decide)).mp hvalue
      cases h
  · obtain ⟨tags, htags, hrestores⟩ := hread [.key "tags"] .unknown
      (.array [.int 1, .null]) rfl
    rw [htags]
    exact congrArg some hrestores

end Reconstruction

end Gateway
