import Gateway.Input.Serialize
import Gateway.Proofs.Schema.Overlap

/-!
# Declared fields

The fields of a schema that is read were checked when it was read: they are not named as what is
kept for introspection (`Schema.name_ne_typename`), and no argument of a field and no field of an
input object is declared twice (`Schema.nodup_arguments`, `Schema.nodup_inputFields`).
-/

namespace Gateway

/-- The types of a schema that is read have different names, and what they are made of is valid. -/
theorem Schema.exists_bodyValid {text : String} {schema : Schema}
    (hparse : parse? text = some schema) :
    (schema.types.map TypeDefinition.name).Nodup ∧ ∃ whole : Schema, ∀ type ∈ schema.types,
      whole.bodyValid type.name type.body = true := by
  obtain ⟨whole, hvalid, -, rfl⟩ := exists_of_parse? hparse
  exact ⟨nodup_dropUnusedScalars (nodup_types_of_isValid hvalid), whole,
    fun _ hmem => bodyValid_of_isValid hvalid (List.mem_of_mem_filter hmem)⟩

/-- What fields they have are valid. -/
theorem Schema.exists_fieldsValid {text : String} {schema : Schema}
    (hparse : parse? text = some schema) :
    (schema.types.map TypeDefinition.name).Nodup ∧ ∃ whole : Schema, ∀ type ∈ schema.types,
      type.body.fields = [] ∨ whole.fieldsValid type.body.fields = true := by
  obtain ⟨hnames, whole, hbodies⟩ := exists_bodyValid hparse
  refine ⟨hnames, whole, fun type hmem => ?_⟩
  have hbody := hbodies type hmem
  cases hshape : type.body <;> rw [hshape] at hbody <;>
    simp_all [TypeBody.fields, bodyValid]

/-- The fields of a type, if it has any, are those of one of the types. -/
theorem Schema.fields_cases (schema : Schema) (type : Name) :
    schema.fields type = [] ∨
      ∃ definition ∈ schema.types, schema.fields type = definition.body.fields := by
  unfold Schema.fields body?
  cases hfound : schema.type? type with
  | none => exact .inl rfl
  | some definition => exact .inr ⟨definition, (of_type? hfound).1, rfl⟩

/-- The fields among which a field is declared are valid. -/
theorem Schema.exists_fieldsValid_of_mem {text : String} {schema : Schema}
    (hparse : parse? text = some schema) {type : Name} {field : FieldDefinition}
    (hmem : field ∈ schema.fields type) :
    ∃ whole : Schema, whole.fieldsValid (schema.fields type) = true := by
  obtain ⟨-, whole, hfields⟩ := exists_fieldsValid hparse
  refine ⟨whole, ?_⟩
  rcases schema.fields_cases type with hnone | ⟨definition, hdefinition, hsame⟩
  · rw [hnone] at hmem
    exact absurd hmem List.not_mem_nil
  rw [hsame] at hmem ⊢
  rcases hfields definition hdefinition with hnone | hvalid
  · rw [hnone] at hmem
    exact absurd hmem List.not_mem_nil
  · exact hvalid

/-- A type of a schema that is read does not declare the meta field. -/
theorem Schema.name_ne_typename {text : String} {schema : Schema}
    (hparse : parse? text = some schema) {type : Name} {field : FieldDefinition}
    (hmem : field ∈ schema.fields type) : field.name ≠ typenameField := by
  obtain ⟨whole, hvalid⟩ := exists_fieldsValid_of_mem hparse hmem
  simp only [fieldsValid, Bool.and_eq_true, List.all_eq_true] at hvalid
  have hproper := (hvalid.2 field hmem).1.1.1
  intro hname
  rw [hname] at hproper
  exact absurd hproper (by decide +kernel)

/-- A field of a schema that is read declares no argument twice. -/
theorem Schema.nodup_arguments {text : String} {schema : Schema}
    (hparse : parse? text = some schema) {type name : Name} {field : FieldDefinition}
    (hfound : schema.field? type name = some field) :
    (field.arguments.map InputValue.name).Nodup := by
  have hmem : field ∈ schema.fields type := List.mem_of_find?_eq_some hfound
  obtain ⟨whole, hvalid⟩ := exists_fieldsValid_of_mem hparse hmem
  simp only [fieldsValid, Bool.and_eq_true, List.all_eq_true] at hvalid
  have hinputs := (hvalid.2 field hmem).1.2
  simp only [inputsValid, Bool.and_eq_true] at hinputs
  exact of_decide_eq_true hinputs.1

/-- An input object type of a schema that is read declares no field twice. -/
theorem Schema.nodup_inputFields {text : String} {schema : Schema}
    (hparse : parse? text = some schema) {type : Name} {fields : List InputValue}
    (hfields : schema.inputFields? type = some fields) :
    (fields.map InputValue.name).Nodup := by
  obtain ⟨-, whole, hbodies⟩ := exists_bodyValid hparse
  obtain ⟨definition, hfound, hbody⟩ : ∃ definition, schema.type? type = some definition ∧
      definition.body = .input fields := by
    unfold inputFields? body? at hfields
    cases hfound : schema.type? type with
    | none => simp [hfound] at hfields
    | some definition =>
      refine ⟨definition, rfl, ?_⟩
      cases hshape : definition.body <;> simp [hfound, hshape] at hfields
      rw [hfields]
  have hvalid := hbodies definition (of_type? hfound).1
  rw [hbody] at hvalid
  simp only [bodyValid, inputsValid, Bool.and_eq_true] at hvalid
  exact of_decide_eq_true hvalid.2.1

end Gateway
