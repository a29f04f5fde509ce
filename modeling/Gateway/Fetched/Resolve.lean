import Gateway.Fetched.Null

/-!
# Resolving fields

The value that a field of a fetched object resolves to. A field that is missing resolves to the
errors reported for it, or else to those reported for the object itself.
-/

namespace Gateway

namespace ObjectOf

/-- The value of the field under a key. -/
def resolve (object : FetchedObject) (key : String) : FetchedValue :=
  match object.get? key with
  | some value => value
  | none =>
    match errorsOfChild (.key key) object.errors with
    | [] => FetchedValue.ofErrors object.owner (ownErrors object.errors)
    | errors => FetchedValue.ofErrors object.owner errors

end ObjectOf

namespace FetchedValue

/-- A value, or the error that it holds. -/
def raise : FetchedValue → Except FetchedError FetchedValue
  | .error held => .error held
  | value => .ok value

/-- Resolves a field of a parent value: a parent that holds an error fails with it, and only objects
have fields. -/
def resolveField (parent : FetchedValue) (key : String) : Except FetchedError FetchedValue :=
  match parent with
  | .error held => .error held
  | .object found => (found.resolve key).raise
  | _ => .ok .null

end FetchedValue

end Gateway
