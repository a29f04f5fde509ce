import Gateway.GraphError
import Gateway.Operation.Collect

/-!
# Fetched values

A value that was fetched from a subschema. Every object knows its owner, the subschema that it came
from, the owners of fields that came from elsewhere, and the errors that were reported beneath it; a
position that is null because of errors holds them.
-/

namespace Gateway

/-- The error held at a position without data. -/
inductive FetchedError
  /-- One error about the position. -/
  | single (error : GraphError)
  /-- Several errors that were reported for the position. -/
  | combined (errors : List GraphError)
  deriving DecidableEq

namespace FetchedError

/-- The errors that are held. -/
def errors : FetchedError → List GraphError
  | .single error => [error]
  | .combined errors => errors

/-- The wording: the messages, one a line. -/
def message (error : FetchedError) : String :=
  joinMessages error.errors

/-- The error of a position for which errors were reported; one alone is moved to the position. -/
def ofErrors : List GraphError → FetchedError
  | [error] => .single (error.withPath none)
  | errors => .combined errors

end FetchedError

/-- A fetched object whose fields have values of the given type. -/
structure ObjectOf (α : Type) where
  /-- The values by response key. -/
  fields : List (String × α) := []
  /-- The errors reported beneath the object, relative to it. -/
  errors : List GraphError := []
  /-- The subschema that the object came from first. -/
  owner : String
  /-- The subschemas of fields that came from elsewhere. -/
  fieldOwners : Entries String := []
  deriving DecidableEq

/-- A fetched value. -/
inductive FetchedValue
  | null
  /-- A scalar, an enum value, or a value whose type is unknown. -/
  | leaf (value : Json)
  | list (items : List FetchedValue)
  | object (value : ObjectOf FetchedValue)
  /-- A position that is null because of errors. -/
  | error (error : FetchedError)
  deriving Inhabited

/-- A fetched object. -/
abbrev FetchedObject := ObjectOf FetchedValue

namespace ObjectOf

variable {α : Type}

/-- The subschema that the field came from. -/
def fieldOwner (object : ObjectOf α) (key : String) : String :=
  (object.fieldOwners.get? key).getD object.owner

/-- The value under a key. -/
def get? (object : ObjectOf α) (key : String) : Option α :=
  Entries.get? object.fields key

/-- The object with a value under a key. -/
def insert (object : ObjectOf α) (key : String) (value : α) : ObjectOf α :=
  { object with fields := Entries.insert object.fields key value }

/-- The object with other errors. -/
def withErrors (object : ObjectOf α) (errors : List GraphError) : ObjectOf α :=
  { object with errors }

/-- The object with more errors. -/
def addErrors (object : ObjectOf α) (errors : List GraphError) : ObjectOf α :=
  { object with errors := object.errors ++ errors }

end ObjectOf

namespace FetchedValue

/-- Whether the value is null without errors. -/
def isNull : FetchedValue → Bool
  | .null => true
  | _ => false

/-- The object of a value that is one. -/
def asObject? : FetchedValue → Option FetchedObject
  | .object value => some value
  | _ => none

end FetchedValue

/-- The concrete type that the object names under `__typename`. -/
def ObjectOf.typeName? (object : FetchedObject) : Option String :=
  match object.get? typenameField with
  | some (.leaf (.string name)) => some name
  | _ => none

namespace FetchedValue

/-! ## Data -/

mutual

/-- The plain data; positions with errors are null. -/
def toJson : FetchedValue → Json
  | .null => .null
  | .leaf value => value
  | .list items => .array (toJsonItems items)
  | .object ⟨fields, _, _, _⟩ => .object (toJsonFields fields)
  | .error _ => .null

/-- The plain data of items. -/
def toJsonItems : List FetchedValue → List Json
  | [] => []
  | item :: rest => toJson item :: toJsonItems rest

/-- The plain data of fields. -/
def toJsonFields : List (String × FetchedValue) → Entries Json
  | [] => []
  | (key, value) :: rest => (key, toJson value) :: toJsonFields rest

end

/-! ## Errors -/

/-- Whether no field of an object accounts for the error. -/
def isUnaccounted (keys : List String) (reported : GraphError) : Bool :=
  match reported.firstSegment? with
  | some (.key key) => !keys.contains key
  | _ => true

mutual

/-- The errors held anywhere in a value that stands at a path. -/
def errorsAt (path : Path) : FetchedValue → List GraphError
  | .error held => held.errors.map fun e => e.withPath (some path)
  | .list items => errorsOfItems path 0 items
  | .object ⟨fields, errors, _, _⟩ =>
    errorsOfFields path fields
      ++ (errors.filter (isUnaccounted (Entries.keys fields))).map fun e => e.under path
  | _ => []

/-- The errors held in items from a position on. -/
def errorsOfItems (path : Path) (position : Nat) : List FetchedValue → List GraphError
  | [] => []
  | item :: rest =>
    errorsAt (path.join (.index position)) item ++ errorsOfItems path (position + 1) rest

/-- The errors held in fields. -/
def errorsOfFields (path : Path) : List (String × FetchedValue) → List GraphError
  | [] => []
  | (key, value) :: rest => errorsAt (path.join (.key key)) value ++ errorsOfFields path rest

end

/-- The errors held anywhere in a value, with paths relative to it. -/
def errors (value : FetchedValue) : List GraphError :=
  value.errorsAt []

end FetchedValue

end Gateway
