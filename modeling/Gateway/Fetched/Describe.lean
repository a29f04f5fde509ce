import Gateway.Fetched.Resolve

/-!
# Described values

A fetched value written out with all that is known about it: the kinds of its parts, the subschemas
that they came from and the errors that they hold.
-/

namespace Gateway

/-- Errors as they are written. -/
def describeErrors (errors : List GraphError) : Json :=
  .array (errors.map GraphError.toJson)

/-- The name of the kind of an error in place of a value. -/
def FetchedError.kind : FetchedError → String
  | .single _ => "Field"
  | .combined _ => "Combined"

/-- An error in place of a value, written out. -/
def FetchedError.describe (error : FetchedError) : Json :=
  .object [
    ("k", .string "error"), ("kind", .string error.kind), ("display", .string error.message),
    ("errors", describeErrors error.errors)]

namespace FetchedValue

mutual

/-- A value, written out. -/
def describe : FetchedValue → Json
  | .null => .object [("k", .string "null")]
  | .leaf value => .object [("k", .string "leaf"), ("v", value)]
  | .list items => .object [("k", .string "list"), ("items", .array (describeItems items))]
  | .object ⟨fields, errors, owner, fieldOwners⟩ =>
    let object : FetchedObject := { fields, errors, owner, fieldOwners }
    .object [
      ("k", .string "object"), ("subschema", .string owner),
      ("type", .ofText? object.typeName?),
      ("fields", .array (describeFields owner fieldOwners fields)),
      ("errors", describeErrors errors)]
  | .error held => held.describe

/-- Items, written out. -/
def describeItems : List FetchedValue → List Json
  | [] => []
  | item :: rest => describe item :: describeItems rest

/-- Fields with the subschemas that they came from, written out. -/
def describeFields (owner : String) (owners : Entries String) :
    List (String × FetchedValue) → List Json
  | [] => []
  | (key, value) :: rest =>
    .array [.string key, .string ((owners.get? key).getD owner), describe value]
      :: describeFields owner owners rest

end

/-- What a key of a value resolves to, written out. -/
def describeField (value : FetchedValue) (key : String) : Json :=
  match value.resolveField key with
  | .ok found => .object [("ok", found.describe)]
  | .error held => .object [("raised", held.describe)]

end FetchedValue

end Gateway
