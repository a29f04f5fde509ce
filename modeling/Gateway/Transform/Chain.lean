import Gateway.Delegation.Context
import Gateway.Delegation.Session
import Gateway.Response
import Gateway.Transform.Arguments
import Gateway.Transform.Concrete
import Gateway.Transform.Expand
import Gateway.Transform.Filter
import Gateway.Transform.Requirements
import Gateway.Transform.Typename

/-!
# Transform chains

A transform changes the request that is sent to a subschema and the response that comes back.
Requests pass the transforms of a chain in order, responses in reverse order; each stops at the
first failure.
-/

namespace Gateway

/-- A change of the requests to a subschema and of its responses. -/
structure Transform (σ : Type) where
  /-- Changes a request. -/
  request : DelegationContext → Request → Act σ Request := fun _ request => pure request
  /-- Changes a response. -/
  result : DelegationContext → Response → Act σ Response := fun _ response => pure response

namespace Transform

variable {σ : Type}

/-- A transform of requests that has no effects. -/
def ofRequest (change : DelegationContext → Request → Except DelegationError Request) :
    Transform σ where
  request := fun context request => Act.ofExcept (change context request)

/-- A transform of documents. -/
def ofDocument (change : DelegationContext → Document → Except DelegationError Document) :
    Transform σ :=
  ofRequest fun context request => do
    return { request with document := ← change context request.document }

/-- A transform of documents by what merging requires, if the gateway stitches. -/
def ofRequirements
    (change : GatewayTypes → MergeRequirements → Document → Except DelegationError Document) :
    Transform σ :=
  ofDocument fun context document =>
    match context.gatewayRequirements? with
    | some (schema, requirements) =>
      change ⟨schema, context.returnType.innerName⟩ requirements document
    | none => .ok document

/-- Adds what the types of objects require. -/
def addSelectionsByType : Transform σ := ofRequirements addTypeRequirements

/-- Adds what the selected fields require of their parent objects. -/
def addSelectionsByField : Transform σ := ofRequirements addFieldRequirements

/-- Adds the fragments that the selected fields require. -/
def addFragmentsByField : Transform σ := ofRequirements addFieldFragments

/-- Makes the selections of root fields apply to a known object type. -/
def wrapConcreteTypes (schema : Schema) (returnType : TypeRef) : Transform σ :=
  ofDocument fun _ => wrapConcrete schema returnType.innerName

/-- Expands types that are abstract in the source schema only. -/
def expandAbstractTypes (source target : Schema) : Transform σ :=
  ofDocument fun _ => expandAbstract source target

/-- Sends arguments as variables. -/
def addArgumentsAsVariables (arguments : Entries Json) : Transform σ :=
  ofRequest fun context request => .ok (addArguments context.target arguments request)

/-- Reduces the request to what the target declares. -/
def filterToTarget : Transform σ :=
  ofDocument fun context => filterToSchema context.target

/-- Requests the concrete types of abstract values. -/
def addTypenameToAbstract : Transform σ :=
  ofDocument fun context => addTypename context.target

/-- The chain of a delegation around the transforms of the subschema and of the call. -/
def chain (context : DelegationContext) (transforms : List (Transform σ)) :
    List (Transform σ) :=
  let stitches := context.gatewayRequirements?.isSome
  (if stitches then [addSelectionsByField, addSelectionsByType] else [])
  ++ [wrapConcreteTypes context.view context.returnType]
  ++ (context.gateway?.map fun gateway => expandAbstractTypes gateway context.view).toList
  ++ transforms.reverse
  ++ (if stitches then [addFragmentsByField] else [])
  ++ (context.arguments?.map addArgumentsAsVariables).toList
  ++ [filterToTarget, addTypenameToAbstract]

/-- Passes a request through a chain. -/
def applyRequest (chain : List (Transform σ)) (context : DelegationContext) (request : Request) :
    Act σ Request :=
  chain.foldlM (fun request transform => transform.request context request) request

/-- Passes a response through a chain, from its end. -/
def applyResult (chain : List (Transform σ)) (context : DelegationContext)
    (response : Response) : Act σ Response :=
  chain.reverse.foldlM (fun response transform => transform.result context response) response

end Transform

end Gateway
