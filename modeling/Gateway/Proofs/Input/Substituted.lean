import Gateway.Input.Literal
import Gateway.Proofs.Input.Serialized

/-!
# Literals under different values of variables

The value of a literal depends on the values of its variables, also where these stand deep in lists
and objects. When the same variables have values on two sides and these are serialized alike for the
types of the variables, then so are the values of a literal for its own type
(`Literal.Fits.toJson?_alike`). For this the variables must fit where they stand (`Literal.Fits`).
Fields that an input object does not declare are dropped, so they may hold any variables; values of
scalars are never changed, so no variables stand inside of them.
-/

namespace Gateway

/-- The values are serialized alike for a type. -/
def Schema.Alike (schema : Schema) (type : TypeRef) (one other : Json) : Prop :=
  schema.serializeInput? type one = schema.serializeInput? type other

/-- Values are serialized alike for a type of the same shape. -/
theorem Schema.Alike.of_shape_eq {schema : Schema} {type type' : TypeRef} {one other : Json}
    (h : schema.Alike type one other) (hshape : type.shape = type'.shape) :
    schema.Alike type' one other := by
  unfold Alike at h ⊢
  rw [← serializeInput?_shape, ← serializeInput?_shape schema type' other, ← hshape,
    serializeInput?_shape, serializeInput?_shape, h]

namespace Literal

/-- The variables of a literal are defined, with the shapes of the types at which they stand; where
a scalar stands, the literal is no variable in a list or an object. -/
inductive Fits (schema : Schema) (definitions : Entries VariableDefinition) :
    TypeRef → Literal → Prop
  /-- A literal without variables. -/
  | closed {type : TypeRef} {literal : Literal} (closed : literal.vars = []) :
    Fits schema definitions type literal
  /-- A variable of the shape of the type. -/
  | var {type : TypeRef} {name : Name} {definition : VariableDefinition}
    (defined : definitions.get? name = some definition)
    (shape : definition.type.shape = type.shape) : Fits schema definitions type (.var name)
  /-- A list for a list type. -/
  | list {type item : TypeRef} {items : List Literal} (listed : type.item? = some item)
    (all : ∀ literal ∈ items, Fits schema definitions item literal) :
    Fits schema definitions type (.list items)
  /-- An object for an input object type. Of fields that are not declared only the variables have to
  be defined. -/
  | object {type : TypeRef} {inputs : List InputValue} {fields : List (Name × Literal)}
    (declared : schema.inputFields? type.innerName = some inputs)
    (all : ∀ entry ∈ fields, ∀ input, inputs.find? (·.name = entry.1) = some input →
      Fits schema definitions input.type entry.2)
    (others : ∀ entry ∈ fields, inputs.find? (·.name = entry.1) = none →
      ∀ name ∈ entry.2.vars, definitions.get? name ≠ none) :
    Fits schema definitions type (.object fields)

/-! ## Values of literals -/

variable {vars others : Entries Json}

mutual

/-- The value of a literal depends on its variables only. -/
theorem toJson?_congr : ∀ (literal : Literal),
    (∀ name ∈ literal.vars, vars.get? name = others.get? name) →
      literal.toJson? vars = literal.toJson? others
  | .var name, h => by
    rw [toJson?, toJson?]
    exact h name (List.mem_singleton_self name)
  | .list items, h => by
    rw [toJson?, toJson?, toJsonItems_congr items h]
  | .object fields, h => by
    rw [toJson?, toJson?, toJsonFields_congr fields [] h]
  | .null, _ | .boolean _, _ | .enum _, _ | .string _, _ | .int _, _ | .float _, _ => by
    simp only [toJson?]

/-- So do the values of the items of a list. -/
theorem toJsonItems_congr : ∀ (items : List Literal),
    (∀ name ∈ variablesOfItems items, vars.get? name = others.get? name) →
      toJsonItems vars items = toJsonItems others items
  | [], _ => by rw [toJsonItems, toJsonItems]
  | item :: rest, h => by
    rw [variablesOfItems, List.forall_mem_append] at h
    rw [toJsonItems, toJsonItems, toJson?_congr item h.1, toJsonItems_congr rest h.2]

/-- So do the values of the fields of an object. -/
theorem toJsonFields_congr : ∀ (fields : List (Name × Literal)) (done : Entries Json),
    (∀ name ∈ variablesOfFields fields, vars.get? name = others.get? name) →
      toJsonFields vars done fields = toJsonFields others done fields
  | [], done, _ => by rw [toJsonFields, toJsonFields]
  | (name, item) :: rest, done, h => by
    rw [variablesOfFields, List.forall_mem_append] at h
    rw [toJsonFields, toJsonFields, toJson?_congr item h.1]
    cases item.toJson? others with
    | none => exact toJsonFields_congr rest done h.2
    | some json => exact toJsonFields_congr rest (done.insert name json) h.2

end

/-- Whether a literal has a value depends on which of its variables have one. -/
theorem isSome_toJson?_congr {literal : Literal}
    (h : ∀ name ∈ literal.vars, (vars.get? name).isSome = (others.get? name).isSome) :
    (literal.toJson? vars).isSome = (literal.toJson? others).isSome := by
  cases literal with
  | var name =>
    rw [toJson?, toJson?]
    exact h name (List.mem_singleton_self name)
  | _ => simp only [toJson?, Option.isSome_some]

/-! ## Values that are serialized alike -/

variable {schema : Schema} {definitions : Entries VariableDefinition} {type : TypeRef}
  {literal : Literal}

/-- Two values are both missing, or they are serialized alike. -/
abbrev BothAlike (schema : Schema) (type : TypeRef) : Option Json → Option Json → Prop :=
  Option.Rel (schema.Alike type)

/-- What is missing is missing on both sides. -/
theorem BothAlike.isSome_eq {one other : Option Json} (h : BothAlike schema type one other) :
    one.isSome = other.isSome := by
  cases h <;> rfl

/-- A value is serialized like itself. -/
theorem BothAlike.refl (value? : Option Json) : BothAlike schema type value? value? := by
  cases value? with
  | none => exact .none
  | some value => exact .some rfl

/-- Values that are serialized alike for a type are so for a type of the same shape. -/
theorem BothAlike.of_shape_eq {type' : TypeRef} {one other : Option Json}
    (h : BothAlike schema type one other) (hshape : type.shape = type'.shape) :
    BothAlike schema type' one other := by
  cases h with
  | none => exact .none
  | some halike => exact .some (halike.of_shape_eq hshape)

/-- Items that are missing are null, and null is serialized like null. -/
theorem BothAlike.getD_null {one other : Option Json} (h : BothAlike schema type one other) :
    schema.Alike type (one.getD .null) (other.getD .null) := by
  cases h with
  | none => rfl
  | some halike => exact halike

/-- What is serialized of two values is the same. -/
theorem BothAlike.bind_eq {one other : Option Json} (h : BothAlike schema type one other) :
    one.bind (schema.serializeInput? type) = other.bind (schema.serializeInput? type) := by
  cases h with
  | none => rfl
  | some halike => exact halike

/-- Lists of values that are serialized alike are serialized alike. -/
theorem alike_array {item : TypeRef} (hitem : type.item? = some item) {ones others : List Json}
    (h : List.Forall₂ (schema.Alike item) ones others) :
    schema.Alike type (.array ones) (.array others) := by
  have hitems : Schema.serializeItems schema item ones =
      Schema.serializeItems schema item others := by
    rw [Schema.serializeItems_eq_map, Schema.serializeItems_eq_map]
    induction h with
    | nil => rfl
    | cons hfirst _ ih =>
      unfold Schema.Alike at hfirst
      rw [List.map_cons, List.map_cons, hfirst, ih]
  unfold Schema.Alike
  rw [Schema.serializeInput?, Schema.serializeInput?, hitem]
  dsimp only
  rw [hitems]

/-- Two members have the same key, and if it is declared they are serialized alike. -/
def MembersAlike (schema : Schema) (inputs : List InputValue) (one other : String × Json) : Prop :=
  one.1 = other.1 ∧ ∀ input, inputs.find? (·.name = one.1) = some input →
    schema.Alike input.type one.2 other.2

variable {inputs : List InputValue}

/-- Objects whose members are serialized alike are serialized alike. -/
theorem alike_object (hinputs : schema.inputFields? type.innerName = some inputs)
    {ones others : List (String × Json)}
    (h : List.Forall₂ (MembersAlike schema inputs) ones others) :
    schema.Alike type (.object ones) (.object others) := by
  have hmembers : Schema.serializeMembers schema inputs ones =
      Schema.serializeMembers schema inputs others := by
    rw [Schema.serializeMembers_eq_filterMap, Schema.serializeMembers_eq_filterMap]
    induction h with
    | nil => rfl
    | @cons one other _ _ hfirst _ ih =>
      obtain ⟨hkey, halike⟩ := hfirst
      have hsame : schema.serializedMember inputs one = schema.serializedMember inputs other := by
        unfold Schema.serializedMember
        rw [← hkey]
        refine Option.bind_congr fun input hinput => ?_
        rw [halike input hinput]
      rw [List.filterMap_cons, List.filterMap_cons, hsame, ih]
  unfold Schema.Alike
  rw [Schema.serializeInput?, Schema.serializeInput?, hinputs]
  dsimp only
  rw [hmembers]

/-- A member that is added on both sides keeps members alike. -/
theorem forall₂_insert {ones others : Entries Json} {key : String} {one other : Json}
    (h : List.Forall₂ (MembersAlike schema inputs) ones others)
    (hadded : MembersAlike schema inputs (key, one) (key, other)) :
    List.Forall₂ (MembersAlike schema inputs) (ones.insert key one) (others.insert key other) := by
  induction h with
  | nil => exact .cons hadded .nil
  | @cons first first' rest rest' hfirst hrest ih =>
    obtain ⟨name, value⟩ := first
    obtain ⟨name', value'⟩ := first'
    obtain ⟨hname, halike⟩ := hfirst
    dsimp only at hname
    subst hname
    rw [Entries.insert, Entries.insert]
    by_cases hkey : name = key
    · subst hkey
      rw [if_pos rfl, if_pos rfl]
      exact .cons hadded hrest
    · rw [if_neg hkey, if_neg hkey]
      exact .cons ⟨rfl, halike⟩ ih

/-- Items whose values are serialized alike have such values in a list. -/
theorem forall₂_toJsonItems {items : List Literal}
    (h : ∀ literal ∈ items, BothAlike schema type (literal.toJson? vars) (literal.toJson? others)) :
    List.Forall₂ (schema.Alike type) (toJsonItems vars items) (toJsonItems others items) := by
  induction items with
  | nil => exact .nil
  | cons first rest ih =>
    obtain ⟨hfirst, hrest⟩ := List.forall_mem_cons.mp h
    rw [toJsonItems, toJsonItems]
    exact .cons hfirst.getD_null (ih hrest)

/-- Fields whose values are serialized alike where they are declared, and else are there on both
sides or on none, have such values in an object. -/
theorem forall₂_toJsonFields {fields : List (Name × Literal)} {done done' : Entries Json}
    (hdone : List.Forall₂ (MembersAlike schema inputs) done done')
    (hboth : ∀ entry ∈ fields,
      (entry.2.toJson? vars).isSome = (entry.2.toJson? others).isSome)
    (halike : ∀ entry ∈ fields, ∀ input, inputs.find? (·.name = entry.1) = some input →
      BothAlike schema input.type (entry.2.toJson? vars) (entry.2.toJson? others)) :
    List.Forall₂ (MembersAlike schema inputs) (toJsonFields vars done fields)
      (toJsonFields others done' fields) := by
  induction fields generalizing done done' with
  | nil =>
    rw [toJsonFields, toJsonFields]
    exact hdone
  | cons first rest ih =>
    obtain ⟨name, literal⟩ := first
    obtain ⟨hfirst, hrest⟩ := List.forall_mem_cons.mp hboth
    obtain ⟨hfirstAlike, hrestAlike⟩ := List.forall_mem_cons.mp halike
    dsimp only at hfirst hfirstAlike
    rw [toJsonFields, toJsonFields]
    cases hone : literal.toJson? vars with
    | none =>
      rw [hone] at hfirst
      rw [Option.not_isSome_iff_eq_none.mp (Bool.eq_false_iff.mp hfirst.symm)]
      exact ih hdone hrest hrestAlike
    | some one =>
      rw [hone] at hfirst
      obtain ⟨other, hother⟩ := Option.isSome_iff_exists.mp hfirst.symm
      rw [hother]
      refine ih (forall₂_insert hdone ⟨rfl, fun input hinput => ?_⟩) hrest hrestAlike
      have hrel := hfirstAlike input hinput
      rw [hone, hother] at hrel
      cases hrel with
      | some hvalues => exact hvalues

/-- When its variables are defined, a literal has a value on both sides or on none. -/
theorem isSome_toJson?_of_defined {literal : Literal}
    (hvars : ∀ name definition, definitions.get? name = some definition →
      BothAlike schema definition.type (vars.get? name) (others.get? name))
    (hdefined : ∀ name ∈ literal.vars, definitions.get? name ≠ none) :
    (literal.toJson? vars).isSome = (literal.toJson? others).isSome := by
  refine isSome_toJson?_congr fun name hname => ?_
  obtain ⟨definition, hdefinition⟩ := Option.ne_none_iff_exists'.mp (hdefined name hname)
  exact (hvars name definition hdefinition).isSome_eq

/-- A literal that fits is serialized alike under values that are serialized alike for the types of
the variables. -/
theorem Fits.toJson?_alike (h : literal.Fits schema definitions type)
    (hvars : ∀ name definition, definitions.get? name = some definition →
      BothAlike schema definition.type (vars.get? name) (others.get? name)) :
    BothAlike schema type (literal.toJson? vars) (literal.toJson? others) := by
  induction h with
  | @closed type literal closed =>
    have hsame : literal.toJson? vars = literal.toJson? others :=
      toJson?_congr literal fun name hmem => absurd (closed ▸ hmem) List.not_mem_nil
    rw [hsame]
    exact .refl _
  | @var type name definition defined shape =>
    rw [toJson?, toJson?]
    exact (hvars name definition defined).of_shape_eq shape
  | @list type item items listed _ ih =>
    rw [toJson?, toJson?]
    exact .some (alike_array listed (forall₂_toJsonItems ih))
  | @object type inputs fields declared _ undeclared ih =>
    rw [toJson?, toJson?]
    refine .some (alike_object declared (forall₂_toJsonFields .nil (fun entry hentry => ?_) ih))
    cases hinput : inputs.find? (·.name = entry.1) with
    | some input => exact (ih entry hentry input hinput).isSome_eq
    | none => exact isSome_toJson?_of_defined hvars (undeclared entry hentry hinput)

end Literal

end Gateway
