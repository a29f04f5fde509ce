import Gateway.DelegationError

/-!
# Sessions

Delegations run in a session: they change the outside world, may warn about responses, and stop at
the first failure.
-/

namespace Gateway

/-- What is noticed about a response without failing. -/
inductive Warning
  /-- A key of an object is neither selected nor declared. -/
  | unmatchedKey (subschema typeName key : String)
  /-- Errors about a list that is there are dropped. -/
  | listErrors (subschema : String)
  /-- Errors about items that a list does not have are dropped. -/
  | errorsOutsideList (subschema : String) (length : Nat)
  deriving DecidableEq, Repr

/-- The wording of a warning. -/
def Warning.message : Warning → String
  | .unmatchedKey .. => "result key does not match the gateway selection"
  | .listErrors _ => "dropping errors reported for a non-null list"
  | .errorsOutsideList .. => "dropping errors reported outside of the list"

/-- A warning as a record of what it is about. -/
def Warning.toJson (warning : Warning) : Json :=
  .object <| ("message", .string warning.message) :: match warning with
    | .unmatchedKey subschema typeName key =>
      [("subschema", .string subschema), ("type_name", .string typeName), ("key", .string key)]
    | .listErrors subschema => [("subschema", .string subschema)]
    | .errorsOutsideList subschema length =>
      [("subschema", .string subschema), ("len", .int length)]

/-- The state of a session in a world. -/
structure Session (σ : Type) where
  /-- The outside world. -/
  world : σ
  /-- The warnings so far. -/
  warnings : List Warning := []

/-- An action in a session: it may fail, and what it did until then stays done. -/
abbrev Act (σ α : Type) := ExceptT DelegationError (StateM (Session σ)) α

namespace Act

variable {σ α : Type}

/-- Warns. -/
def warn (warning : Warning) : Act σ Unit :=
  modify fun session => { session with warnings := session.warnings ++ [warning] }

/-- An effect on the world. -/
def ofWorld (effect : StateM σ α) : Act σ α := do
  let session ← get
  let (answer, world) := effect session.world
  set { session with world }
  return answer

/-- A result without effects. -/
def ofExcept (result : Except DelegationError α) : Act σ α :=
  ExceptT.mk (pure result)

end Act

end Gateway
