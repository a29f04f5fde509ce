import Gateway.Proofs.Delegation.Positions

/-!
# Reconstruction inside of reconstruction

What is reconstructed of data of a type is made of what is reconstructed of the parts that have
types themselves (`Child.TypedPart`). `Reconstruction.exists_putAt_of_readAt` finds the value of
such a part within the value of the whole, by induction on the path of the part: it is put there,
and if objects are merged, answers are merged into the objects around it.
-/

namespace Gateway

variable {σ : Type}

/-! ## Parts with types -/

/-- A part of data that have a type, where the part has one itself: an item of a list, or a member
of an object. -/
inductive Child.TypedPart (schema : Schema) (info? : Option FieldInfo) (type : TypeRef) :
    Json → Segment → Option FieldInfo → TypeRef → Json → Prop
  /-- An item. -/
  | item {items : List Json} {itemType : TypeRef} (listed : type.item? = some itemType)
    {position : Nat} {part : Json} (found : items[position]? = some part) :
    TypedPart schema info? type (.array items) (.index position)
      (info?.map (·.atIndex position)) itemType part
  /-- A member. -/
  | member {members : List (String × Json)} (composite : schema.isComposite type.innerName = true)
    {key : String} {part : Json} (found : Entries.get? members key = some part)
    {partInfo? : Option FieldInfo} {partType : TypeRef}
    (declared : Reconstruction.child schema info?
      (Reconstruction.concreteType schema members type.innerName) key =
        .typed partInfo? partType) :
    TypedPart schema info? type (.object members) (.key key) partInfo? partType part

/-- The parts that have types are those of lists and objects of the type. -/
theorem Child.typedPart_of_part? {schema : Schema} {info? : Option FieldInfo} {type : TypeRef}
    {json part : Json} {segment : Segment} {partInfo? : Option FieldInfo} {partType : TypeRef}
    (h : ((typed info? type).reading schema json).part? segment =
      some (.typed partInfo? partType, part)) :
    TypedPart schema info? type json segment partInfo? partType part := by
  have hplain : ∀ json, (readPlain schema type json).part? segment ≠
      some (.typed partInfo? partType, part) :=
    fun json hpart => absurd (eq_unknown_of_part?_plain hpart) (by simp)
  cases json with
  | null => cases segment <;> cases h
  | array items =>
    rw [reading] at h
    cases hitem : type.item? with
    | none =>
      rw [hitem] at h
      exact absurd h (hplain _)
    | some itemType =>
      rw [hitem] at h
      cases segment with
      | key => cases h
      | index position =>
        rw [Reading.part?, List.getElem?_map, List.getElem?_zipIdx, Option.map_map,
          Option.map_eq_some_iff] at h
        obtain ⟨item, hfound, heq⟩ := h
        rw [Function.comp_apply, Nat.zero_add] at heq
        cases heq
        exact .item hitem hfound
  | object members =>
    rw [reading] at h
    split_ifs at h with hcomposite
    · cases segment with
      | index => cases h
      | key key =>
        rw [Reading.part?, Entries.get?_map_eq_find?, Option.map_eq_some_iff] at h
        obtain ⟨member, hfound, heq⟩ := h
        have hkey : member.1 = key := by simpa using List.find?_some hfound
        have hmember : Entries.get? members key = some member.2 := by
          have hsame := Entries.get?_map_eq_find? members Prod.fst Prod.snd key
          rw [hfound] at hsame
          simpa using hsame
        obtain ⟨hchild, rfl⟩ := Prod.mk.inj heq
        exact .member hcomposite hmember (hkey ▸ hchild)
    · exact absurd h (hplain _)
  | bool | int | float | string => exact absurd h (hplain _)

namespace Reconstruction

variable {reconstruction : Reconstruction σ} {info? : Option FieldInfo}
  {merges : FetchedObject → List FetchedValue → Prop}

/-! ## Completed objects -/

/-- Objects of gateway fields are completed by answers that are merged into them. -/
def CompletesBy (reconstruction : Reconstruction σ)
    (merges : FetchedObject → List FetchedValue → Prop) (info? : Option FieldInfo) : Prop :=
  info?.isSome = true → ∀ info type object result,
    (reconstruction.complete info type object).Yields result →
    ∃ answers, merges object answers ∧ result = object.mergeAnswers answers

/-- Objects that are not merged are completed by no answers. -/
theorem Unmerged.completesBy (h : reconstruction.Unmerged info?) :
    reconstruction.CompletesBy ObjectOf.Apart info? := by
  intro hsome info type object result hresult
  rw [h hsome] at hresult
  exact ⟨[], ⟨List.nodup_nil, fun _ hmem => absurd hmem List.not_mem_nil⟩,
    Act.eq_of_yields_pure hresult⟩

/-- Merged type resolvers complete objects in this way. -/
theorem completesBy_completeWithin (stitching : Stitching σ) (depth : Nat) (subschema : Subschema)
    (context : Context) (schema : Schema) (info? : Option FieldInfo) :
    CompletesBy { subschema, schema, complete := stitching.completeWithin depth subschema context }
      (fun _ _ => True) info? := by
  intro _ info type object result hresult
  have hagree := stitching.completeAt_agreeAt info.path depth (List.append_nil info.path).symm
    subschema context type object
  dsimp only at hresult
  rw [hagree] at hresult
  obtain ⟨answers, hanswers⟩ := Stitching.exists_mergeAnswers hresult
  exact ⟨answers, trivial, hanswers⟩

/-- What is put in a field of an object is put in what the object is completed to. -/
theorem putAt_of_completed (hcompletes : reconstruction.CompletesBy merges info?) {type : Name}
    {skipsMerging : Bool} {object : FetchedObject} {value part : FetchedValue} {segment : Segment}
    {rest : Path}
    (hvalue : (reconstruction.completed info? type skipsMerging object).Yields value)
    (hput : FetchedValue.PutAt merges part (.object object) (segment :: rest)) :
    FetchedValue.PutAt merges part value (segment :: rest) := by
  unfold completed at hvalue
  cases info? with
  | none => exact Act.eq_of_yields_pure hvalue ▸ hput
  | some info =>
    cases skipsMerging with
    | true => exact Act.eq_of_yields_pure hvalue ▸ hput
    | false =>
      obtain ⟨result, hresult, rfl⟩ := Act.Yields.exists_of_map hvalue
      obtain ⟨answers, hmerged, rfl⟩ := hcompletes rfl _ _ _ _ hresult
      exact .answered hmerged hput

/-! ## Parts -/

/-- The items of a list are reconstructed one by one. -/
theorem exists_value_of_itemValues {errors : List GraphError} {type : TypeRef}
    {skipsMerging : Bool} {items : List Json} {position : Nat} {values : List FetchedValue}
    (h : (reconstruction.itemValues errors info? type skipsMerging position items).Yields values)
    {offset : Nat} {item : Json} (hitem : items[offset]? = some item) :
    ∃ value, (reconstruction.value item (errorsOfChild (.index (position + offset)) errors)
        (info?.map (·.atIndex (position + offset))) type skipsMerging).Yields value ∧
      values[offset]? = some value := by
  induction items generalizing position values offset with
  | nil => exact absurd hitem (by simp)
  | cons first rest ih =>
    obtain ⟨value, hfirst, h⟩ := h.exists_of_bind
    obtain ⟨others, hrest, h⟩ := h.exists_of_bind
    obtain rfl := Act.eq_of_yields_pure h
    cases offset with
    | zero =>
      cases hitem
      exact ⟨value, hfirst, rfl⟩
    | succ offset =>
      obtain ⟨found, hfound, hvalue⟩ := ih hrest hitem
      rw [Nat.add_right_comm] at hfound
      exact ⟨found, hfound, hvalue⟩

/-- The first member of an object is reconstructed before the others, by its type if it has one. -/
theorem exists_memberValues_cons (reconstruction : Reconstruction σ) (errors : List GraphError)
    (info? : Option FieldInfo) (name : Name) (key : String) (json : Json)
    (rest : List (String × Json)) :
    ∃ first : Act σ FetchedValue,
      reconstruction.memberValues errors info? name ((key, json) :: rest) = (do
        let value ← first
        return (key, value) :: (← reconstruction.memberValues errors info? name rest)) ∧
      ∀ childInfo? childType,
        child reconstruction.schema info? name key = .typed childInfo? childType →
        first = reconstruction.value json (errorsOfChild (.key key) errors) childInfo? childType
          false := by
  rw [memberValues]
  cases child reconstruction.schema info? name key with
  | typename => exact ⟨_, rfl, by simp⟩
  | unknown => exact ⟨_, rfl, by simp⟩
  | typed childInfo? childType =>
    refine ⟨_, rfl, ?_⟩
    rintro _ _ ⟨rfl, rfl⟩
    rfl

/-- The members of an object that have types are reconstructed one by one. -/
theorem exists_value_of_memberValues {errors : List GraphError} {name : Name}
    {members : List (String × Json)} {fields : Entries FetchedValue}
    (h : (reconstruction.memberValues errors info? name members).Yields fields) {key : String}
    {json : Json} (hmember : Entries.get? members key = some json)
    {childInfo? : Option FieldInfo} {childType : TypeRef}
    (hchild : child reconstruction.schema info? name key = .typed childInfo? childType) :
    ∃ value, (reconstruction.value json (errorsOfChild (.key key) errors) childInfo? childType
        false).Yields value ∧ Entries.get? fields key = some value := by
  induction members generalizing fields with
  | nil => exact absurd hmember (by simp [Entries.get?])
  | cons member rest ih =>
    obtain ⟨first, heq, htyped⟩ :=
      exists_memberValues_cons reconstruction errors info? name member.1 member.2 rest
    rw [heq] at h
    obtain ⟨value, hvalue, h⟩ := h.exists_of_bind
    obtain ⟨others, hrest, h⟩ := h.exists_of_bind
    obtain rfl := Act.eq_of_yields_pure h
    rw [Entries.get?_cons] at hmember ⊢
    by_cases hkey : key = member.1
    · rw [if_pos hkey, Option.some.injEq] at hmember
      rw [htyped _ _ (hkey ▸ hchild), hmember, ← hkey] at hvalue
      exact ⟨value, hvalue, if_pos hkey⟩
    · rw [if_neg hkey] at hmember ⊢
      exact ih hrest hmember

/-- Data that are read by a type within others are reconstructed by it, and put in the value at
their path. -/
theorem exists_putAt_of_readAt {path : Path} (hcompletes : reconstruction.CompletesBy merges info?)
    {json : Json} {errors : List GraphError} {type : TypeRef} {skipsMerging : Bool}
    {value : FetchedValue}
    (h : (reconstruction.value json errors info? type skipsMerging).Yields value)
    {partInfo? : Option FieldInfo} {partType : TypeRef} {part : Json}
    (hread : (Child.typed info? type).readAt reconstruction.schema path json =
      some (.typed partInfo? partType, part)) :
    ∃ partErrors skipsMerging partValue,
      (reconstruction.value part partErrors partInfo? partType skipsMerging).Yields partValue ∧
      FetchedValue.PutAt merges partValue value path := by
  induction path generalizing info? json errors type skipsMerging value with
  | nil =>
    cases hread
    exact ⟨errors, skipsMerging, value, h, .here⟩
  | cons segment rest ih =>
    obtain ⟨⟨known, inner⟩, hpart, hrest⟩ := Option.bind_eq_some_iff.mp hread
    obtain ⟨innerInfo?, innerType, rfl⟩ := Child.exists_typed_of_readAt hrest
    cases Child.typedPart_of_part? hpart with
    | item listed found =>
      rw [Reconstruction.value, listed] at h
      obtain ⟨_, -, h⟩ := h.exists_of_bind
      obtain ⟨_, -, h⟩ := h.exists_of_bind
      obtain ⟨values, hitems, h⟩ := h.exists_of_bind
      obtain rfl := Act.eq_of_yields_pure h
      obtain ⟨item, hitem, hvalue⟩ := exists_value_of_itemValues hitems found
      rw [Nat.zero_add] at hitem
      obtain ⟨partErrors, skips, partValue, hpartValue, hput⟩ :=
        ih (fun hsome => hcompletes (by rwa [Option.isSome_map] at hsome)) hitem hrest
      exact ⟨partErrors, skips, partValue, hpartValue, .item hvalue hput⟩
    | member composite found declared =>
      rw [Reconstruction.value, if_pos composite] at h
      obtain ⟨_, -, h⟩ := h.exists_of_bind
      obtain ⟨fields, hmembers, h⟩ := h.exists_of_bind
      obtain ⟨field, hfield, hvalue⟩ := exists_value_of_memberValues hmembers found declared
      obtain ⟨partErrors, skips, partValue, hpartValue, hput⟩ :=
        ih (fun hsome => hcompletes (isSome_of_child declared hsome)) hfield hrest
      exact ⟨partErrors, skips, partValue, hpartValue,
        putAt_of_completed hcompletes h (.field hvalue hput)⟩

end Reconstruction

end Gateway
