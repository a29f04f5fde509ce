import Gateway.Fetched.Value

/-!
# Merging fetched values

A value fetched later is merged deeply into an earlier one. The later value wins, except that null
never replaces anything; a merged object notes the subschema that each of its fields came from.
-/

namespace Gateway

namespace FetchedValue

mutual

/-- Merges a later value into a target. -/
def mergeInto : FetchedValue → FetchedValue → FetchedValue
  | .null, target => target
  | .object source, .object target => .object (mergeObject source target)
  | .list items, .list targets =>
    if targets.length = items.length then .list (mergeItems items targets) else .list items
  | source, _ => source

/-- Merges the fields and errors of a later object into a target. -/
def mergeObject : ObjectOf FetchedValue → ObjectOf FetchedValue → ObjectOf FetchedValue
  | ⟨fields, errors, owner, fieldOwners⟩, target =>
    { target with
      fields := mergeFields fields target.fields
      errors := target.errors ++ errors
      fieldOwners := target.fieldOwners.insertAll <|
        (Entries.keys fields).map fun key => (key, (fieldOwners.get? key).getD owner) }

/-- Merges later items into targets, one by one. -/
def mergeItems : List FetchedValue → List FetchedValue → List FetchedValue
  | source :: sources, target :: targets => mergeInto source target :: mergeItems sources targets
  | _, targets => targets

/-- Merges later fields into the fields of a target. -/
def mergeFields : List (String × FetchedValue) → Entries FetchedValue → Entries FetchedValue
  | [], targets => targets
  | (key, source) :: sources, targets =>
    mergeFields sources <|
      match targets.get? key with
      | some target => targets.insert key (mergeInto source target)
      | none => targets ++ [(key, source)]

end

/-- The value with a later one merged into it. -/
def merge (target source : FetchedValue) : FetchedValue :=
  mergeInto source target

end FetchedValue

namespace ObjectOf

/-- The object with a later one merged into it. -/
def merge (target source : FetchedObject) : FetchedObject :=
  FetchedValue.mergeObject source target

/-- The object with an answer of a resolver merged into it: the fields of an object, or the errors
of a failure. -/
def mergeAnswer (target : FetchedObject) : FetchedValue → FetchedObject
  | .object source => target.merge source
  | .error error => target.addErrors error.errors
  | _ => target

/-- The object with the answers of resolvers merged into it in order. -/
def mergeAnswers (target : FetchedObject) (answers : List FetchedValue) : FetchedObject :=
  answers.foldl mergeAnswer target

end ObjectOf

end Gateway
