import Gateway.GraphError

/-!
# Failures of a delegation

The causes for which a delegated field cannot be answered at all, their wording, and the errors that
a response reports for them.
-/

namespace Gateway

/-- Why a delegation failed. -/
inductive DelegationError
  /-- The delegated request failed validation with one error. -/
  | validation (error : GraphError)
  /-- Several errors were raised together. -/
  | combined (errors : List GraphError)
  /-- The target schema has no root type for the operation. -/
  | missingRootType (subschema operation : String)
  /-- A root type does not declare the field. -/
  | missingRootField (typeName fieldName : String)
  /-- The type of the delegated field is unknown. -/
  | missingReturnType (fieldName : String)
  /-- The subschema cannot answer subscriptions. -/
  | missingSubscriber (subschema : String)
  /-- A planned target has nothing to resolve the merged type with. -/
  | missingMergedTypeResolver (typeName subschema : String)
  /-- The request cannot be used. -/
  | invalidRequest (text : String)
  /-- The stitching configuration cannot be used. -/
  | configuration (text : String)
  /-- A transform refused the request or the response. -/
  | transform (text : String)
  deriving DecidableEq, Inhabited

namespace DelegationError

/-- The name of the kind of a failure. -/
def kind : DelegationError → String
  | .validation _ => "Validation"
  | .combined _ => "Combined"
  | .missingRootType .. => "MissingRootType"
  | .missingRootField .. => "MissingRootField"
  | .missingReturnType _ => "MissingReturnType"
  | .missingSubscriber _ => "MissingSubscriber"
  | .missingMergedTypeResolver .. => "MissingMergedTypeResolver"
  | .invalidRequest _ => "InvalidRequest"
  | .configuration _ => "Configuration"
  | .transform _ => "Transform"

/-- The wording of a failure. -/
def message : DelegationError → String
  | .validation error => error.message
  | .combined errors => joinMessages errors
  | .missingRootType subschema operation =>
    s!"target schema of subschema '{subschema}' has no {operation} root type"
  | .missingRootField typeName fieldName => s!"root type '{typeName}' has no field '{fieldName}'"
  | .missingReturnType fieldName =>
    s!"cannot determine the return type of the delegated field '{fieldName}'"
  | .missingSubscriber subschema =>
    s!"subschema '{subschema}' has no subscriber for subscription delegation"
  | .missingMergedTypeResolver typeName subschema =>
    s!"no merged type resolver for type '{typeName}' in subschema '{subschema}'"
  | .invalidRequest text => s!"invalid request: {text}"
  | .configuration text => s!"invalid stitching configuration: {text}"
  | .transform text => s!"cannot transform the delegated request: {text}"

/-- One validation failure is raised as it is, several are combined. -/
def ofDiagnostics : List GraphError → DelegationError
  | [error] => .validation error
  | errors => .combined errors

/-- The errors that a response reports for a failure. -/
def toErrors : DelegationError → List GraphError
  | .validation error => [error]
  | .combined errors => errors
  | failure => [(GraphError.ofMessage failure.message).withCode "DELEGATION_ERROR"]

end DelegationError

end Gateway
