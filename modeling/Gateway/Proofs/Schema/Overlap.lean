import Gateway.Schema.Build
import Mathlib.Data.List.Nodup
import Mathlib.Tactic.Common

/-!
# Types that overlap

In a valid schema the members of unions are object types (`unionsOfObjects_of_isValid`). So the test
whether two types overlap is right: they are the same, or some object type is possible for both
(`typesOverlap_iff`). It looks this up in four ways, by which of the types are abstract, and they
agree.

A schema that is read from a text is checked before built-in scalars are dropped that nothing refers
to. A union has no scalar as its member, because the built-in scalars remain scalars when types are
extended (`unionsOfObjects_of_parse?`).
-/

namespace Gateway.Schema

/-! ## Types by name -/

section Names

variable {schema : Schema} {name : Name} {type : TypeDefinition}

/-- A type that is found is one of the types and has the name. -/
theorem of_type? (h : schema.type? name = some type) : type ∈ schema.types ∧ type.name = name :=
  ⟨List.mem_of_find?_eq_some h, by simpa using List.find?_some h⟩

/-- When elements have different names, each is found under its name. -/
theorem find?_eq_some_iff_of_nodup {α : Type} {nameOf : α → Name} {elements : List α}
    (hdistinct : (elements.map nameOf).Nodup) {element : α} :
    (elements.find? fun element => nameOf element = name) = some element ↔
      element ∈ elements ∧ nameOf element = name := by
  constructor
  · exact fun h => ⟨List.mem_of_find?_eq_some h, by simpa using List.find?_some h⟩
  · rintro ⟨hmem, hname⟩
    obtain ⟨found, hfound⟩ : ∃ found, (elements.find? fun element => nameOf element = name) =
        some found :=
      Option.isSome_iff_exists.mp (List.find?_isSome.mpr ⟨element, hmem, decide_eq_true hname⟩)
    have hfoundName : nameOf found = name := by simpa using List.find?_some hfound
    rw [hfound, List.inj_on_of_nodup_map hdistinct (List.mem_of_find?_eq_some hfound) hmem
      (hfoundName.trans hname.symm)]

/-- When types have different names, each is found under its name. -/
theorem type?_eq_some_iff (hdistinct : (schema.types.map TypeDefinition.name).Nodup) :
    schema.type? name = some type ↔ type ∈ schema.types ∧ type.name = name :=
  find?_eq_some_iff_of_nodup hdistinct

/-- An object type is one of the types. -/
theorem isObject_iff : schema.isObject name = true ↔
    ∃ interfaces fields, schema.body? name = some (.object interfaces fields) := by
  unfold isObject
  split
  · rename_i interfaces fields hbody
    exact ⟨fun _ => ⟨interfaces, fields, hbody⟩, fun _ => rfl⟩
  · rename_i hother
    exact ⟨fun h => absurd h (by simp), fun ⟨_, _, hbody⟩ => absurd hbody (hother _ _)⟩

/-- An abstract type is an interface or a union. -/
theorem isAbstract_iff : schema.isAbstract name = true ↔
    (∃ interfaces fields, schema.body? name = some (.interface interfaces fields)) ∨
      ∃ members, schema.body? name = some (.union members) := by
  unfold isAbstract
  split
  · rename_i interfaces fields hbody
    exact ⟨fun _ => .inl ⟨interfaces, fields, hbody⟩, fun _ => rfl⟩
  · rename_i members hbody
    exact ⟨fun _ => .inr ⟨members, hbody⟩, fun _ => rfl⟩
  · rename_i hinterface hunion
    refine ⟨fun h => absurd h (by simp), ?_⟩
    rintro (⟨interfaces, fields, hbody⟩ | ⟨members, hbody⟩)
    · exact absurd hbody (hinterface _ _)
    · exact absurd hbody (hunion _)

/-- An abstract type is no object type. -/
theorem isObject_eq_false_of_isAbstract (h : schema.isAbstract name = true) :
    schema.isObject name = false := by
  rw [Bool.eq_false_iff, ne_eq, isObject_iff]
  rintro ⟨interfaces, fields, hbody⟩
  rcases isAbstract_iff.mp h with ⟨_, _, hother⟩ | ⟨_, hother⟩
  · exact absurd (hbody.symm.trans hother) (by simp)
  · exact absurd (hbody.symm.trans hother) (by simp)

end Names

/-! ## Schemas that are read from texts -/

/-- The built-in scalars are among the types, and they are scalars. -/
def HasScalars (types : List TypeDefinition) : Prop :=
  ∀ name ∈ Builtin.scalarNames, ∃ type ∈ types, type.name = name ∧ type.body = .scalar

/-- An extended type keeps its name, and a scalar remains one. -/
theorem extend?_keeps {type extension extended : TypeDefinition}
    (h : type.extend? extension = some extended) :
    extended.name = type.name ∧ (type.body = .scalar → extended.body = .scalar) := by
  obtain ⟨body, hbody, h⟩ := Option.bind_eq_some_iff.mp h
  cases h
  refine ⟨rfl, fun hscalar => ?_⟩
  rw [hscalar] at hbody
  cases hextension : extension.body <;> rw [hextension] at hbody <;>
    simp [TypeBody.extend?] at hbody
  exact hbody.symm

/-- Where one type is extended the built-in scalars remain. -/
theorem HasScalars.extendType? {types extended : List TypeDefinition} {extension : TypeDefinition}
    (hscalars : HasScalars types) (h : Schema.extendType? extension types = some extended) :
    HasScalars extended := by
  have hkeeps : ∀ type ∈ types, ∃ type' ∈ extended, type'.name = type.name ∧
      (type.body = .scalar → type'.body = .scalar) := by
    clear hscalars
    induction types generalizing extended with
    | nil => exact fun _ hmem => absurd hmem List.not_mem_nil
    | cons first rest ih =>
      rw [Schema.extendType?] at h
      intro type hmem
      split at h
      · obtain ⟨first', hfirst, h⟩ := Option.bind_eq_some_iff.mp h
        cases h
        rcases List.mem_cons.mp hmem with rfl | hmem
        · exact ⟨first', List.mem_cons_self, extend?_keeps hfirst⟩
        · exact ⟨type, List.mem_cons_of_mem _ hmem, rfl, id⟩
      · obtain ⟨rest', hrest, h⟩ := Option.bind_eq_some_iff.mp h
        cases h
        rcases List.mem_cons.mp hmem with rfl | hmem
        · exact ⟨type, List.mem_cons_self, rfl, id⟩
        · obtain ⟨type', hmem', hkept⟩ := ih hrest type hmem
          exact ⟨type', List.mem_cons_of_mem _ hmem', hkept⟩
  intro name hname
  obtain ⟨type, hmem, htype, hscalar⟩ := hscalars name hname
  obtain ⟨type', hmem', hsame, hkept⟩ := hkeeps type hmem
  exact ⟨type', hmem', hsame.trans htype, hkept hscalar⟩

/-- Where types are extended one after another the built-in scalars remain. -/
theorem HasScalars.extendTypes {types extended : List TypeDefinition}
    {extensions : List TypeDefinition} (hscalars : HasScalars types)
    (h : extensions.foldlM (fun types extension => Schema.extendType? extension types) types =
      some extended) : HasScalars extended := by
  induction extensions generalizing types with
  | nil =>
    rw [List.foldlM_nil] at h
    cases h
    exact hscalars
  | cons first rest ih =>
    rw [List.foldlM_cons] at h
    obtain ⟨middle, hfirst, hrest⟩ := Option.bind_eq_some_iff.mp h
    exact ih (hscalars.extendType? hfirst) hrest

/-- A schema of definitions has the built-in scalars. -/
theorem hasScalars_ofDefinitions? {definitions : List TypeSystemDefinition} {schema : Schema}
    (h : ofDefinitions? definitions = some schema) : HasScalars schema.types := by
  unfold ofDefinitions? at h
  obtain ⟨types, htypes, h⟩ := Option.bind_eq_some_iff.mp h
  have hbuiltin : HasScalars Builtin.types := by
    intro name hname
    refine ⟨Builtin.scalar name, List.mem_append_right _ (List.mem_map.mpr ⟨name, hname, rfl⟩),
      rfl, rfl⟩
  have hall : HasScalars types := by
    refine HasScalars.extendTypes ?_ htypes
    intro name hname
    obtain ⟨type, hmem, hscalar⟩ := hbuiltin name hname
    exact ⟨type, List.mem_append_left _ hmem, hscalar⟩
  -- However the roots are found, the schema has these types.
  have hsame : schema.types = types := by
    dsimp only at h
    split at h
    · exact absurd h (by simp)
    · split at h
      · split at h
        · exact absurd h (by simp)
        · cases h
          rfl
      · cases h
        rfl
      · exact absurd h (by simp)
  rw [hsame]
  exact hall

/-- A schema that is read is a valid one with the built-in scalars, without those that are not
used. -/
theorem exists_of_parse? {text : String} {schema : Schema} (h : parse? text = some schema) :
    ∃ whole : Schema, whole.isValid = true ∧ HasScalars whole.types ∧
      schema = whole.dropUnusedScalars := by
  unfold parse? at h
  obtain ⟨document, -, h⟩ := Option.bind_eq_some_iff.mp h
  obtain ⟨definitions, -, h⟩ := Option.bind_eq_some_iff.mp h
  obtain ⟨whole, hwhole, h⟩ := Option.bind_eq_some_iff.mp h
  split at h
  · rename_i hvalid
    exact ⟨whole, hvalid, hasScalars_ofDefinitions? hwhole, (Option.some.inj h).symm⟩
  · exact absurd h (by simp)

/-! ## Unions of valid schemas -/

/-- The members of unions are object types. -/
def UnionsOfObjects (schema : Schema) : Prop :=
  ∀ union members, schema.body? union = some (.union members) →
    ∀ member ∈ members, schema.isObject member = true

/-- The types of a valid schema have different names. -/
theorem nodup_types_of_isValid {schema : Schema} (h : schema.isValid = true) :
    (schema.types.map TypeDefinition.name).Nodup := by
  simp only [isValid, Bool.and_eq_true, distinct, decide_eq_true_eq] at h
  exact h.1.1.1.1.1

/-- What the types of a valid schema are made of is valid. -/
theorem bodyValid_of_isValid {schema : Schema} (h : schema.isValid = true) {type : TypeDefinition}
    (hmem : type ∈ schema.types) : schema.bodyValid type.name type.body = true := by
  simp only [isValid, Bool.and_eq_true, List.all_eq_true] at h
  have hvalid : schema.typeValid type = true := h.1.2 type hmem
  simp only [typeValid, Bool.and_eq_true] at hvalid
  exact hvalid.1.2

/-- A valid schema has unions of object types. -/
theorem unionsOfObjects_of_isValid {schema : Schema} (h : schema.isValid = true) :
    schema.UnionsOfObjects := by
  intro union members hbody member hmem
  obtain ⟨type, htype, hunion⟩ := Option.map_eq_some_iff.mp hbody
  have hvalid := bodyValid_of_isValid h (of_type? htype).1
  simp only [hunion, bodyValid, Bool.and_eq_true, List.all_eq_true] at hvalid
  exact hvalid.2 member hmem

section Dropped

variable {whole : Schema} {name : Name}

/-- Types keep different names when unused scalars are dropped. -/
theorem nodup_dropUnusedScalars (hdistinct : (whole.types.map TypeDefinition.name).Nodup) :
    (whole.dropUnusedScalars.types.map TypeDefinition.name).Nodup :=
  hdistinct.sublist (List.filter_sublist.map _)

/-- A type that remains is what it was. -/
theorem body?_of_dropUnusedScalars (hdistinct : (whole.types.map TypeDefinition.name).Nodup)
    {body : TypeBody} (h : whole.dropUnusedScalars.body? name = some body) :
    whole.body? name = some body := by
  obtain ⟨type, htype, hbody⟩ := Option.map_eq_some_iff.mp h
  obtain ⟨hmem, hname⟩ := (type?_eq_some_iff (nodup_dropUnusedScalars hdistinct)).mp htype
  unfold body?
  rw [(type?_eq_some_iff hdistinct).mpr ⟨List.mem_of_mem_filter hmem, hname⟩, Option.map_some,
    hbody]

/-- An object type remains when unused scalars are dropped. -/
theorem isObject_dropUnusedScalars (hdistinct : (whole.types.map TypeDefinition.name).Nodup)
    (hscalars : HasScalars whole.types) (h : whole.isObject name = true) :
    whole.dropUnusedScalars.isObject name = true := by
  obtain ⟨interfaces, fields, hobject⟩ := isObject_iff.mp h
  obtain ⟨definition, hdefinition, hparts⟩ := Option.map_eq_some_iff.mp hobject
  obtain ⟨hmem, hname⟩ := (type?_eq_some_iff hdistinct).mp hdefinition
  -- An object type is not a built-in scalar, so it is not dropped.
  have hproper : Builtin.isScalarName definition.name = false := by
    rw [Bool.eq_false_iff]
    intro hscalar
    obtain ⟨scalar, hscalarMem, hscalarName, hscalarBody⟩ :=
      hscalars definition.name (List.contains_iff_mem.mp hscalar)
    rw [List.inj_on_of_nodup_map hdistinct hscalarMem hmem hscalarName, hparts] at hscalarBody
    exact absurd hscalarBody (by simp)
  have hleft : definition ∈ whole.dropUnusedScalars.types :=
    List.mem_filter.mpr ⟨hmem, by rw [hproper]; rfl⟩
  refine isObject_iff.mpr ⟨interfaces, fields, ?_⟩
  unfold body?
  rw [(type?_eq_some_iff (nodup_dropUnusedScalars hdistinct)).mpr ⟨hleft, hname⟩, Option.map_some,
    hparts]

end Dropped

/-- A schema that is read has unions of object types. -/
theorem unionsOfObjects_of_parse? {text : String} {schema : Schema}
    (hparse : parse? text = some schema) : schema.UnionsOfObjects := by
  obtain ⟨whole, hvalid, hscalars, rfl⟩ := exists_of_parse? hparse
  have hdistinct := nodup_types_of_isValid hvalid
  intro union members hbody member hmem
  exact isObject_dropUnusedScalars hdistinct hscalars
    (unionsOfObjects_of_isValid hvalid union members (body?_of_dropUnusedScalars hdistinct hbody)
      member hmem)

/-! ## Overlapping types -/

section Overlap

variable {schema : Schema} {a b type : Name}

/-- Some value can be of both types: they are the same, or they have a possible object type in
common. -/
def Overlaps (schema : Schema) (a b : Name) : Prop :=
  a = b ∨ ∃ type ∈ schema.possibleTypes a, type ∈ schema.possibleTypes b

/-- The possible types of an abstract type are the object types directly under it. -/
theorem mem_possibleTypes_of_isAbstract (h : schema.isAbstract a = true) :
    type ∈ schema.possibleTypes a ↔
      schema.isObject type = true ∧ schema.isSubtype a type = true := by
  unfold possibleTypes
  rw [isObject_eq_false_of_isAbstract h, if_neg Bool.false_ne_true, if_pos h, List.mem_filter,
    Bool.and_eq_true]
  refine ⟨fun hmem => hmem.2, fun hmem => ⟨?_, hmem⟩⟩
  obtain ⟨interfaces, fields, hbody⟩ := isObject_iff.mp hmem.1
  obtain ⟨definition, hfound, -⟩ := Option.map_eq_some_iff.mp hbody
  exact List.mem_map.mpr ⟨definition, of_type? hfound⟩

/-- A type that is not abstract has itself as its only possible type, if it is an object type. -/
theorem mem_possibleTypes_of_not_isAbstract (h : schema.isAbstract a = false) :
    type ∈ schema.possibleTypes a ↔ schema.isObject a = true ∧ type = a := by
  unfold possibleTypes
  cases schema.isObject a with
  | true => rw [if_pos rfl, List.mem_singleton, eq_self_iff_true, true_and]
  | false =>
    rw [if_neg Bool.false_ne_true, h, if_neg Bool.false_ne_true]
    simp

/-- Only an abstract type has types directly under it. -/
theorem isAbstract_of_isSubtype (h : schema.isSubtype a type = true) :
    schema.isAbstract a = true := by
  unfold isSubtype at h
  split at h
  · rename_i members hbody
    exact isAbstract_iff.mpr (.inr ⟨members, hbody⟩)
  · rename_i interfaces fields hbody
    exact isAbstract_iff.mpr (.inl ⟨interfaces, fields, hbody⟩)
  · exact absurd h (by simp)

/-- Possible types are object types. -/
theorem isObject_of_mem_possibleTypes (h : type ∈ schema.possibleTypes a) :
    schema.isObject type = true := by
  cases ha : schema.isAbstract a with
  | true => exact ((mem_possibleTypes_of_isAbstract ha).mp h).1
  | false =>
    obtain ⟨hobject, rfl⟩ := (mem_possibleTypes_of_not_isAbstract ha).mp h
    exact hobject

/-- A fragment applies to the objects of the possible types of its condition. -/
theorem fragmentApplies_iff (hobject : schema.isObject type = true) :
    schema.fragmentApplies a type = true ↔ type ∈ schema.possibleTypes a := by
  unfold fragmentApplies
  rw [Bool.or_eq_true, decide_eq_true_iff]
  cases ha : schema.isAbstract a with
  | true =>
    rw [mem_possibleTypes_of_isAbstract ha]
    refine ⟨fun h => ⟨hobject, h.resolve_left ?_⟩, fun h => .inr h.2⟩
    rintro rfl
    exact absurd ((isObject_eq_false_of_isAbstract ha).symm.trans hobject) (by simp)
  | false =>
    rw [mem_possibleTypes_of_not_isAbstract ha]
    constructor
    · rintro (rfl | hsub)
      · exact ⟨hobject, rfl⟩
      · exact absurd (ha.symm.trans (isAbstract_of_isSubtype hsub)) (by simp)
    · rintro ⟨-, rfl⟩
      exact .inl rfl

/-- A type with possible types is one of the schema. -/
theorem hasType_of_mem_possibleTypes (h : type ∈ schema.possibleTypes a) :
    schema.hasType a = true := by
  have hbody : ∃ body, schema.body? a = some body := by
    cases ha : schema.isAbstract a with
    | true =>
      rcases isAbstract_iff.mp ha with ⟨_, _, hbody⟩ | ⟨_, hbody⟩
      · exact ⟨_, hbody⟩
      · exact ⟨_, hbody⟩
    | false =>
      obtain ⟨hobject, -⟩ := (mem_possibleTypes_of_not_isAbstract ha).mp h
      obtain ⟨_, _, hbody⟩ := isObject_iff.mp hobject
      exact ⟨_, hbody⟩
  obtain ⟨body, hbody⟩ := hbody
  obtain ⟨definition, hfound, -⟩ := Option.map_eq_some_iff.mp hbody
  exact Option.isSome_iff_exists.mpr ⟨definition, hfound⟩

/-- Types with a possible type in common pass the test. -/
theorem typesOverlap_of_mem_possibleTypes (ha : type ∈ schema.possibleTypes a)
    (hb : type ∈ schema.possibleTypes b) : schema.typesOverlap a b = true := by
  unfold typesOverlap
  split
  · rfl
  · rename_i hdifferent
    cases habstract : schema.isAbstract a <;> cases hbbstract : schema.isAbstract b <;> dsimp only
    · obtain ⟨-, rfl⟩ := (mem_possibleTypes_of_not_isAbstract habstract).mp ha
      exact absurd ((mem_possibleTypes_of_not_isAbstract hbbstract).mp hb).2 hdifferent
    · obtain ⟨-, rfl⟩ := (mem_possibleTypes_of_not_isAbstract habstract).mp ha
      exact ((mem_possibleTypes_of_isAbstract hbbstract).mp hb).2
    · obtain ⟨-, rfl⟩ := (mem_possibleTypes_of_not_isAbstract hbbstract).mp hb
      exact ((mem_possibleTypes_of_isAbstract habstract).mp ha).2
    · exact List.any_eq_true.mpr ⟨type, ha, ((mem_possibleTypes_of_isAbstract hbbstract).mp hb).2⟩

/-- What is directly under an abstract type is an object type, unless it is abstract. -/
theorem isObject_of_isSubtype (hunions : schema.UnionsOfObjects)
    (h : schema.isSubtype a type = true) (hconcrete : schema.isAbstract type = false) :
    schema.isObject type = true := by
  unfold isSubtype at h
  split at h
  · rename_i members hbody
    exact hunions a members hbody type (List.contains_iff_mem.mp h)
  · -- Only object types and interfaces implement interfaces.
    unfold interfaces at h
    cases hbody : schema.body? type with
    | none =>
      rw [hbody] at h
      exact absurd h (by simp)
    | some body =>
      rw [hbody] at h
      cases body with
      | object interfaces fields => exact isObject_iff.mpr ⟨_, _, hbody⟩
      | interface interfaces fields =>
        rw [isAbstract_iff.mpr (.inl ⟨_, _, hbody⟩)] at hconcrete
        exact absurd hconcrete (by simp)
      | _ => exact absurd h (by simp [TypeBody.interfaces])
  · exact absurd h (by simp)

/-- With unions of object types, the test for overlapping types finds those for which some value can
be of both types. -/
theorem typesOverlap_iff (hunions : schema.UnionsOfObjects) :
    schema.typesOverlap a b = true ↔ schema.Overlaps a b := by
  constructor
  · intro h
    unfold typesOverlap at h
    split at h
    · exact .inl ‹a = b›
    · right
      cases ha : schema.isAbstract a <;> cases hb : schema.isAbstract b <;> rw [ha, hb] at h <;>
        dsimp only at h
      · exact absurd h (by simp)
      · have hobject := isObject_of_isSubtype hunions h ha
        exact ⟨a, (mem_possibleTypes_of_not_isAbstract ha).mpr ⟨hobject, rfl⟩,
          (mem_possibleTypes_of_isAbstract hb).mpr ⟨hobject, h⟩⟩
      · have hobject := isObject_of_isSubtype hunions h hb
        exact ⟨b, (mem_possibleTypes_of_isAbstract ha).mpr ⟨hobject, h⟩,
          (mem_possibleTypes_of_not_isAbstract hb).mpr ⟨hobject, rfl⟩⟩
      · obtain ⟨type, hfirst, hsecond⟩ := List.any_eq_true.mp h
        exact ⟨type, hfirst, (mem_possibleTypes_of_isAbstract hb).mpr
          ⟨isObject_of_mem_possibleTypes hfirst, hsecond⟩⟩
  · rintro (rfl | ⟨type, hfirst, hsecond⟩)
    · exact if_pos rfl
    · exact typesOverlap_of_mem_possibleTypes hfirst hsecond

/-- Types overlap either way round. -/
theorem Overlaps.symm (h : schema.Overlaps a b) : schema.Overlaps b a := by
  rcases h with rfl | ⟨type, hfirst, hsecond⟩
  · exact .inl rfl
  · exact .inr ⟨type, hsecond, hfirst⟩

/-- In a valid schema, and in one that is read, types of different names overlap exactly when they
have a possible object type in common. Whatever they are, they overlap either way round. -/
theorem typesOverlap_iff_common
    (hvalid : schema.isValid = true ∨ ∃ text, parse? text = some schema) (a b : Name) :
    (a ≠ b → (schema.typesOverlap a b = true ↔ ∃ type, schema.isObject type = true ∧
      type ∈ schema.possibleTypes a ∧ type ∈ schema.possibleTypes b)) ∧
    schema.typesOverlap a b = schema.typesOverlap b a := by
  have hunions : schema.UnionsOfObjects := by
    rcases hvalid with hvalid | ⟨text, hparse⟩
    · exact unionsOfObjects_of_isValid hvalid
    · exact unionsOfObjects_of_parse? hparse
  constructor
  · intro hne
    rw [typesOverlap_iff hunions]
    constructor
    · intro h
      obtain ⟨type, hfirst, hsecond⟩ := h.resolve_left hne
      exact ⟨type, isObject_of_mem_possibleTypes hfirst, hfirst, hsecond⟩
    · rintro ⟨type, -, hfirst, hsecond⟩
      exact .inr ⟨type, hfirst, hsecond⟩
  · rw [Bool.eq_iff_iff, typesOverlap_iff hunions, typesOverlap_iff hunions]
    exact ⟨Overlaps.symm, Overlaps.symm⟩

end Overlap

/-- The schema of a service with an interface below another one and unions that share a member. -/
def catalogSchema : Schema where
  types := Builtin.introspectionTypes ++ ["String", "Boolean", "ID"].map Builtin.scalar ++ [
    Builtin.object "Query" [Builtin.field "entry" (.named "Entry"),
      Builtin.field "found" (.named "Found"), Builtin.field "media" (.named "Media")],
    { name := "Entry", body := .interface [] [Builtin.field "id" (.named "ID")] },
    { name := "Titled", body := .interface ["Entry"]
        [Builtin.field "id" (.named "ID"), Builtin.field "title" (.named "String")] },
    { name := "Page", body := .object ["Titled", "Entry"]
        [Builtin.field "id" (.named "ID"), Builtin.field "title" (.named "String")] },
    Builtin.object "Image" [Builtin.field "url" (.named "String")],
    { name := "Found", body := .union ["Page", "Image"] },
    { name := "Media", body := .union ["Image"] }]
  directives := Builtin.directives
  roots := [(.query, "Query")]

/-- The lower interface shares pages with one of the unions, and nothing with the other one. -/
theorem typesOverlap_iff_common_catalog :
    catalogSchema.isValid = true ∧
      (∃ type, catalogSchema.isObject type = true ∧ type ∈ catalogSchema.possibleTypes "Titled" ∧
        type ∈ catalogSchema.possibleTypes "Found") ∧
      catalogSchema.typesOverlap "Found" "Titled" = true ∧
      ¬ ∃ type, catalogSchema.isObject type = true ∧
        type ∈ catalogSchema.possibleTypes "Titled" ∧ type ∈ catalogSchema.possibleTypes "Media" := by
  have hvalid : catalogSchema.isValid = true := by decide +kernel
  obtain ⟨hfound, hsymm⟩ := typesOverlap_iff_common (.inl hvalid) "Titled" "Found"
  obtain ⟨hmedia, -⟩ := typesOverlap_iff_common (.inl hvalid) "Titled" "Media"
  have hoverlap : catalogSchema.typesOverlap "Titled" "Found" = true := by decide +kernel
  have hapart : catalogSchema.typesOverlap "Titled" "Media" = false := by decide +kernel
  refine ⟨hvalid, (hfound (by decide)).mp hoverlap, hsymm.symm.trans hoverlap, fun hcommon => ?_⟩
  exact absurd (hapart.symm.trans ((hmedia (by decide)).mpr hcommon)) (by simp)

end Gateway.Schema
