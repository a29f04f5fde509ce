import Gateway.Schema.Basic

/-!
# Subschemas

A subschema is a schema to which a gateway delegates. It is identified by its name: whatever is
known about a subschema holds for all subschemas of its name. Requests still go to the one that is
asked, so subschemas of one name have places that tell them apart.
-/

namespace Gateway

/-- A schema to which a gateway delegates. -/
structure Subschema where
  /-- What identifies the subschema. -/
  name : String
  /-- The schema against which requests are executed. -/
  schema : Schema
  /-- The schema as the gateway sees it, when transforms change it. -/
  transformed? : Option Schema := none
  /-- Where the subschema stands among those of its gateway. -/
  place : Nat := 0
  deriving DecidableEq, Inhabited

namespace Subschema

/-- The schema as the gateway sees it. -/
def view (subschema : Subschema) : Schema :=
  subschema.transformed?.getD subschema.schema

/-- Whether two subschemas are the same one. -/
def is (subschema other : Subschema) : Bool :=
  subschema.name = other.name

/-- Whether a subschema is among some. -/
def isAmong (subschema : Subschema) (others : List Subschema) : Bool :=
  others.any subschema.is

end Subschema

end Gateway
