import Gateway.Context
import Gateway.Operation.Info
import Gateway.Stitching.Requirements
import Gateway.Stitching.Subschema

/-!
# Delegation contexts

What is known about one delegation while its request and its response are transformed.
-/

namespace Gateway

/-- What is known about a delegation. -/
structure DelegationContext where
  /-- The subschema that is delegated to. -/
  subschema : Subschema
  /-- Another schema as the gateway's view of the subschema. -/
  transformed? : Option Schema := none
  /-- The kind of the operation that is sent. -/
  kind : OperationKind := .query
  /-- The root field that is queried. -/
  fieldName : Name
  /-- The type that the delegation returns. -/
  returnType : TypeRef
  /-- Supplied arguments of the root field. -/
  arguments? : Option (Entries Json) := none
  /-- The gateway field that is delegated, if there is one. -/
  info? : Option FieldInfo := none
  /-- What merging requires, when the gateway stitches. -/
  requirements? : Option MergeRequirements := none
  /-- The context of the gateway request. -/
  context : Context := {}
  /-- Whether the fetched value is left as it is. -/
  skipsMerging : Bool := false

namespace DelegationContext

/-- The subschema as the gateway sees it. -/
def view (context : DelegationContext) : Schema :=
  context.transformed?.getD context.subschema.view

/-- The schema against which the request is executed. -/
def target (context : DelegationContext) : Schema :=
  context.subschema.schema

/-- The schema of the gateway operation. -/
def gateway? (context : DelegationContext) : Option Schema :=
  context.info?.map (·.operation.schema)

/-- What merging requires of a gateway field. -/
def gatewayRequirements? (context : DelegationContext) : Option (Schema × MergeRequirements) := do
  return (← context.gateway?, ← context.requirements?)

end DelegationContext

end Gateway
