import Gateway.Fetched.Resolve
import Gateway.Proofs.Fetched.Grouped

/-!
# Resolved fields

A field that is missing resolves to what the errors make that were reported for it. So the object
that is made of errors about keys, with a value under each of them, says no more than an object
without fields that holds these errors: every field resolves to the same value on both, at any
depth, and is raised by both when an error is about the field itself
(`FetchedValue.resolve_ofErrors`).
-/

namespace Gateway

namespace ObjectOf

/-- A field that is there resolves to its value. -/
theorem resolve_of_get? {object : FetchedObject} {key : String} {value : FetchedValue}
    (h : object.get? key = some value) : object.resolve key = value := by
  unfold ObjectOf.resolve
  rw [h]

/-- A field that is missing, and about which there are no errors, fails with the errors about the
object itself. -/
theorem resolve_missing {object : FetchedObject} {key : String}
    (hmissing : object.get? key = none)
    (hblameless : ∀ error ∈ object.errors, error.firstSegment? ≠ some (.key key))
    (hown : ownErrors object.errors ≠ []) :
    object.resolve key = .error (FetchedError.ofErrors (ownErrors object.errors)) := by
  have hnone : errorsOfChild (.key key) object.errors = [] := by
    unfold errorsOfChild
    rw [List.map_eq_nil_iff, List.filter_eq_nil_iff]
    exact fun error hmem => by simpa using hblameless error hmem
  have hself : ownErrors (ownErrors object.errors) = ownErrors object.errors :=
    List.filter_eq_self.mpr fun _ hmem => (List.mem_filter.mp hmem).2
  unfold ObjectOf.resolve
  rw [hmissing, hnone]
  exact FetchedValue.ofErrors_eq_error _ (hself.symm ▸ hown)

/-- When no error is about the object itself, a field that is missing resolves to the errors about
it. -/
theorem resolve_of_child {object : FetchedObject} {key : String}
    (hmissing : object.get? key = none) (hown : ownErrors object.errors = []) :
    object.resolve key =
      FetchedValue.ofErrors object.owner (errorsOfChild (.key key) object.errors) := by
  unfold ObjectOf.resolve
  rw [hmissing, hown]
  cases errorsOfChild (.key key) object.errors <;> rfl

end ObjectOf

namespace FetchedValue

/-- A field of an object resolves to what the object has for it. -/
theorem resolveField_object (object : FetchedObject) (key : String) :
    (FetchedValue.object object).resolveField key = (object.resolve key).raise := rfl

/-- What is raised is what a position holds. -/
theorem raise_eq_error_iff {value : FetchedValue} {held : FetchedError} :
    value.raise = .error held ↔ value = .error held := by
  cases value <;> simp [raise]

variable {errors : List GraphError}

/-- The value of a position without data is an error when an error is about the position itself. -/
theorem ofErrors_eq_error_iff (owner : String) {held : FetchedError} :
    ofErrors owner errors = .error held ↔
      ownErrors errors ≠ [] ∧ held = FetchedError.ofErrors errors := by
  by_cases hown : ownErrors errors = []
  · refine iff_of_false ?_ fun h => h.1 hown
    by_cases hne : errors = []
    · rw [hne]
      exact nofun
    · rw [ofErrors_eq owner hne hown]
      split <;> exact nofun
  · rw [ofErrors_eq_error owner hown, FetchedValue.error.injEq]
    exact ⟨fun h => ⟨hown, h.symm⟩, fun h => h.2.symm⟩

/-- Errors about keys are not about the value itself. -/
theorem ownErrors_eq_nil_of_keys
    (hkeys : ∀ error ∈ errors, ∃ key, error.firstSegment? = some (.key key)) :
    ownErrors errors = [] := by
  refine List.filter_eq_nil_iff.mpr fun error hmem => ?_
  obtain ⟨key, hkey⟩ := hkeys error hmem
  simp [hkey]

/-- Errors about keys make an object. Under each of the keys it has the value that the errors about
the key make. -/
theorem ofErrors_of_keys (owner : String) (hne : errors ≠ [])
    (hkeys : ∀ error ∈ errors, ∃ key, error.firstSegment? = some (.key key)) :
    ∃ object : FetchedObject, ofErrors owner errors = .object object ∧ object.owner = owner ∧
      object.errors = errors ∧ ∀ key, object.get? key =
        if .key key ∈ firstSegments errors then
          some (ofErrors owner (errorsOfChild (.key key) errors))
        else none := by
  have hsegment : ∀ segment ∈ firstSegments errors, ∃ key, segment = .key key := by
    intro segment hmem
    obtain ⟨error, herror, hfirst⟩ := mem_firstSegments_iff.mp hmem
    obtain ⟨key, hkey⟩ := hkeys error herror
    exact ⟨key, Option.some.inj (hfirst.symm.trans hkey)⟩
  obtain ⟨error, hmem⟩ := List.exists_mem_of_ne_nil _ hne
  obtain ⟨key, hkey⟩ := hkeys error hmem
  have hany : (firstSegments errors).any isKey = true :=
    any_isKey_iff.mpr ⟨key, mem_firstSegments_iff.mpr ⟨error, hmem, hkey⟩⟩
  refine ⟨_, by rw [ofErrors_eq owner hne (ownErrors_eq_nil_of_keys hkeys), if_pos hany], rfl, rfl,
    fun key => ?_⟩
  unfold ObjectOf.get?
  dsimp only
  split
  · rename_i hmem
    obtain ⟨value, hvalue⟩ := Entries.exists_get?_iff.mpr
      (text_mem_keys (fun segment => ofErrors owner (errorsOfChild segment errors)) hmem)
    -- Different keys have different names, so the part of this name is that of this key.
    obtain ⟨before, segment, after, hchildren, htext, rfl, -⟩ :=
      Entries.exists_last_of_get?_ofPairs hvalue
    obtain ⟨name, rfl⟩ := hsegment segment (hchildren ▸ List.mem_append_right _ List.mem_cons_self)
    obtain rfl : name = key := htext
    exact hvalue
  · rename_i hnot
    rw [Entries.get?_eq_none_iff, Entries.mem_keys_ofPairs_iff]
    intro hkey
    obtain ⟨_, hpair, rfl⟩ := List.mem_map.mp hkey
    obtain ⟨segment, hmem, rfl⟩ := List.mem_map.mp hpair
    obtain ⟨name, rfl⟩ := hsegment segment hmem
    exact hnot hmem

/-- An object without fields that holds errors. -/
def fieldless (owner : String) (errors : List GraphError) : FetchedObject :=
  ({ owner } : FetchedObject).withErrors errors

/-- A field of an object without fields resolves to what the errors about it make, when none is
about the object itself. -/
theorem resolve_fieldless (owner : String) (hown : ownErrors errors = []) (key : String) :
    (fieldless owner errors).resolve key = ofErrors owner (errorsOfChild (.key key) errors) :=
  ObjectOf.resolve_of_child rfl hown

/-- The object that errors about keys make, and an object without fields that holds them, resolve
every field to the same value, which the errors about the field make. Both fail with the same error,
and do so when an error is about the field itself. -/
theorem resolve_ofErrors (owner : String) (hne : errors ≠ [])
    (hkeys : ∀ error ∈ errors, ∃ key, error.firstSegment? = some (.key key)) :
    ∃ object : FetchedObject, ofErrors owner errors = .object object ∧ ∀ key,
      object.resolve key = (fieldless owner errors).resolve key ∧
      object.resolve key = ofErrors owner (errorsOfChild (.key key) errors) ∧
      (FetchedValue.object object).resolveField key =
        (FetchedValue.object (fieldless owner errors)).resolveField key ∧
      ∀ held, (FetchedValue.object object).resolveField key = .error held ↔
        ownErrors (errorsOfChild (.key key) errors) ≠ [] ∧
          held = FetchedError.ofErrors (errorsOfChild (.key key) errors) := by
  have hown := ownErrors_eq_nil_of_keys hkeys
  obtain ⟨object, hobject, howner, herrors, hfields⟩ := ofErrors_of_keys owner hne hkeys
  refine ⟨object, hobject, fun key => ?_⟩
  have hmade : object.resolve key = ofErrors owner (errorsOfChild (.key key) errors) := by
    have hfield := hfields key
    split at hfield
    · exact ObjectOf.resolve_of_get? hfield
    · rw [ObjectOf.resolve_of_child hfield (herrors ▸ hown), howner, herrors]
  have hsame : object.resolve key = (fieldless owner errors).resolve key :=
    hmade.trans (resolve_fieldless owner hown key).symm
  refine ⟨hsame, hmade, congrArg raise hsame, fun held => ?_⟩
  rw [resolveField_object, hmade, raise_eq_error_iff, ofErrors_eq_error_iff]

/-- Errors about the name and the address of a user, in turns. -/
def userErrors : List GraphError :=
  [{ message := "no street", path := some [.key "address", .key "street"] },
    { message := "no name", path := some [.key "name"] },
    { message := "no city", path := some [.key "address", .key "city"] },
    { message := "no first name", path := some [.key "name", .key "first"] }]

/-- The name fails with both errors about it, the address is an object that is made of the two about
its parts, and the age is null. -/
theorem resolve_userErrors :
    userErrors ≠ [] ∧ (∀ error ∈ userErrors, ∃ key, error.firstSegment? = some (.key key)) ∧
      ∃ object : FetchedObject, ofErrors "users" userErrors = .object object ∧
        object.resolve "address" = (fieldless "users" userErrors).resolve "address" ∧
        object.resolve "address" = ofErrors "users"
          [{ message := "no street", path := some [.key "street"] },
            { message := "no city", path := some [.key "city"] }] ∧
        (FetchedValue.object object).resolveField "name" = .error (.combined
          [{ message := "no name", path := some [] },
            { message := "no first name", path := some [.key "first"] }]) ∧
        object.resolve "age" = .null := by
  have hne : userErrors ≠ [] := by decide
  have hkeys : ∀ error ∈ userErrors, ∃ key, error.firstSegment? = some (.key key) := by
    simp [userErrors, GraphError.firstSegment?]
  obtain ⟨object, hobject, hfields⟩ := resolve_ofErrors "users" hne hkeys
  obtain ⟨hsame, haddress, -⟩ := hfields "address"
  obtain ⟨-, -, -, hname⟩ := hfields "name"
  obtain ⟨-, hage, -⟩ := hfields "age"
  exact ⟨hne, hkeys, object, hobject, hsame, haddress, (hname _).mpr ⟨by decide, by decide⟩, hage⟩

end FetchedValue

end Gateway
