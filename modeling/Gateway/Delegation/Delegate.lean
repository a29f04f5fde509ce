import Gateway.Execution.Local
import Gateway.Fetched.Reconstruct
import Gateway.Request.Build
import Gateway.Stitching.Info
import Gateway.Stitching.Merge

/-!
# Delegation

A request is passed through the chain of a delegation, validated, executed by the service and its
response passed back; the value of the delegated field is reconstructed from it. Objects of merged
types are completed by further delegations.
-/

namespace Gateway

/-- What is delegated to a service, and how. -/
structure Delegation (σ : Type) where
  /-- The service. -/
  service : Service σ
  /-- The request. -/
  request : Request
  /-- The kind of the operation, when it is not that of the request. -/
  kind? : Option OperationKind := none
  /-- The root field, when it is not the first one of the request. -/
  fieldName? : Option Name := none
  /-- Supplied arguments of the root field. -/
  arguments? : Option (Entries Json) := none
  /-- The type of the root field's value. -/
  returnType? : Option TypeRef := none
  /-- The gateway field that is delegated. -/
  info? : Option FieldInfo := none
  /-- The merged types of the gateway. -/
  stitching? : Option (Stitching σ) := none
  /-- The context of the gateway request. -/
  context : Context := {}
  /-- The transforms of this delegation. -/
  transforms : List (Transform σ) := []
  /-- Another schema as the gateway's view of the subschema. -/
  transformed? : Option Schema := none
  /-- Another root value for local execution. -/
  root? : Option Execution.RootValue := none
  /-- Whether the request is sent without being validated. -/
  skipsValidation : Bool := false
  /-- Whether the value is left as it is fetched. -/
  skipsMerging : Bool := false

/-- What a delegation leads to. -/
inductive Delegated (σ : Type)
  /-- The value of the delegated field. -/
  | value (value : FetchedValue)
  /-- What each event of a subscription leads to, once it is taken from the stream. -/
  | stream (events : List (Act σ FetchedObject))

/-- How fetched objects are completed. -/
abbrev Completion (σ : Type) :=
  Subschema → Context → FieldInfo → Name → FetchedObject → Act σ FetchedObject

namespace Delegated

variable {σ : Type}

/-- The value, which a subscription does not have. -/
def toValue : Delegated σ → Except DelegationError FetchedValue
  | .value found => .ok found
  | .stream _ => .error <| .invalidRequest
    "expected a single result but the subschema returned a subscription stream"

end Delegated

namespace Delegation

variable {σ : Type}

/-- The first operation of the request. -/
def rootOperation? (delegation : Delegation σ) : Option Operation :=
  delegation.request.document.operations.head?

/-- The kind of the operation. -/
def kind (delegation : Delegation σ) : OperationKind :=
  (delegation.kind?.or (delegation.rootOperation?.map Operation.kind)).getD .query

/-- The root field. -/
def fieldName (delegation : Delegation σ) : Except DelegationError Name :=
  let selected := delegation.rootOperation?.bind fun operation =>
    (directFields operation.selections).head?.map FieldOf.name
  match delegation.fieldName?.or selected with
  | some name => .ok name
  | none => .error (.invalidRequest "the request selects no root field")

/-- The type that a subschema declares for a root field. -/
def declaredType (subschema : Subschema) (kind : OperationKind) (fieldName : Name) :
    Except DelegationError TypeRef :=
  match subschema.schema.root? kind with
  | none => .error (.missingRootType subschema.name kind.keyword)
  | some root =>
    match subschema.schema.field? root fieldName with
    | none => .error (.missingRootField root fieldName)
    | some field => .ok field.type

/-- The type of the root field's value: what is given, or that of the gateway field, or else what
the subschema declares. -/
def returnType (delegation : Delegation σ) (fieldName : Name) : Except DelegationError TypeRef :=
  match delegation.returnType?.or (delegation.info?.map FieldInfo.returnType) with
  | some type => .ok type
  | none => declaredType delegation.service.subschema delegation.kind fieldName

/-- What is known about the delegation. -/
def delegationContext (delegation : Delegation σ) : Except DelegationError DelegationContext := do
  let fieldName ← delegation.fieldName
  let returnType ← delegation.returnType fieldName
  return {
    subschema := delegation.service.subschema
    transformed? := delegation.transformed?
    kind := delegation.kind
    fieldName, returnType
    arguments? := delegation.arguments?
    info? := delegation.info?
    requirements? := delegation.stitching?.map Stitching.requirements
    context := delegation.context
    skipsMerging := delegation.skipsMerging }

/-- The chain of the delegation: the transforms of the service come before its own. -/
def chain (delegation : Delegation σ) (context : DelegationContext) : List (Transform σ) :=
  Transform.chain context (delegation.service.transforms ++ delegation.transforms)

/-- Fails when a request cannot be executed for a schema. -/
def validate (schema : Schema) (request : Request) : Except DelegationError Unit :=
  match schema.check request.document with
  | [] => .ok ()
  | findings =>
    .error (.ofDiagnostics (findings.map fun finding => GraphError.ofMessage finding.message))

end Delegation

namespace DelegationContext

/-- The data of the delegated field in a response. -/
def fieldData? (context : DelegationContext) (response : Response) : Option Json :=
  response.data.bind fun data => data.get? context.fieldName

/-- The errors of a response as seen from the delegated field: an error about anything else is about
the field itself. -/
def fieldErrors (context : DelegationContext) (response : Response) : List GraphError :=
  response.errors.map fun error =>
    if error.firstSegment? = some (.key context.fieldName) then error.relativeToChild
    else error.withPath none

/-- The value of the delegated field in a response. -/
def fieldValue {σ : Type} (context : DelegationContext) (complete : Completion σ)
    (response : Response) : Act σ FetchedValue :=
  Reconstruction.result
    { subschema := context.subschema
      schema := context.gateway?.getD context.view
      complete := complete context.subschema context.context }
    (context.fieldData? response) (context.fieldErrors response) context.info?
    context.returnType context.skipsMerging

end DelegationContext

namespace Delegation

variable {σ : Type}

/-- The value that a response leads to, once it has passed the chain. -/
def valueOf (complete : Completion σ) (chain : List (Transform σ)) (context : DelegationContext)
    (response : Response) : Act σ FetchedValue := do
  context.fieldValue complete (← Transform.applyResult chain context response)

/-- The object that an event of a subscription leads to. -/
def eventOf (complete : Completion σ) (chain : List (Transform σ)) (context : DelegationContext)
    (response : Response) : Act σ FetchedObject := do
  let value ← valueOf complete chain context response
  return { fields := [(context.fieldName, value)], owner := context.subschema.name }

/-- What is sent to the service. -/
def delivery (delegation : Delegation σ) (request : Request) : Delivery where
  request := request
  context := delegation.context
  info? := delegation.info?
  root? := delegation.root?.or delegation.service.root?

/-- The executor of a service; without one, requests are executed locally. -/
def executor (service : Service σ) : Executor σ :=
  service.executor?.getD fun delivery =>
    pure (Execution.execute service.subschema.schema delivery.root? delivery.request)

/-- Delegates, completing objects in the given way. -/
def run (complete : Completion σ) (delegation : Delegation σ) : Act σ (Delegated σ) := do
  let service := delegation.service
  let context ← Act.ofExcept delegation.delegationContext
  let chain := delegation.chain context
  let request ← Transform.applyRequest chain context delegation.request
  if !delegation.skipsValidation then
    Act.ofExcept (validate context.target request)
  let delivery := delegation.delivery request
  if context.kind = .subscription then
    match service.subscriber? with
    | none => throw (.missingSubscriber service.subschema.name)
    | some subscribe =>
      match ← Act.ofWorld (subscribe delivery) with
      | .response response => return .value (← valueOf complete chain context response)
      | .events responses => return .stream (responses.map (eventOf complete chain context))
  else
    let response ← Act.ofWorld (executor service delivery)
    return .value (← valueOf complete chain context response)

/-- Delegates a gateway field: the request is built from the gateway operation. -/
def ofField (delegation : Delegation σ) (info : FieldInfo) (overrides : RequestOverrides) :
    Except DelegationError (Delegation σ) := do
  let fieldName := delegation.fieldName?.getD info.fieldName
  let request ← info.request { overrides with target? := some fieldName }
  return { delegation with
    request, fieldName? := some fieldName, info? := some info, kind? := none }

end Delegation

namespace MergedType

variable {σ : Type}

/-- The delegation that fetches fields of an object through a root field of a service. -/
def fetching (stitching? : Option (Stitching σ)) (service : Service σ) (fieldName : Name)
    (arguments? : Option KeyArguments) (object : FetchedObject) (context : Context)
    (info : FieldInfo) (selections : List Selection) : Except DelegationError (Delegation σ) :=
  let delegation : Delegation σ :=
    { service, stitching?, context
      request := ⟨[], []⟩
      fieldName? := some fieldName
      arguments? := some ((arguments?.map fun compute => compute object).getD [])
      returnType? := some (.named (object.typeName?.getD info.returnType.innerName))
      skipsMerging := true }
  delegation.ofField info { kind? := some .query, selections? := some selections }

/-- Asks what resolves a type in a subschema for fields of an object; delegations complete objects
in the given way. -/
def ask (merged : MergedType (TypeResolver σ)) (stitching? : Option (Stitching σ))
    (complete : Completion σ) (type : Name) (context : Context) (info : FieldInfo) :
    AskFields (ExceptT DelegationError (StateM (Session σ))) :=
  fun subschema object selections =>
    match merged.resolvers.get? subschema.name with
    | none => pure (throw (.missingMergedTypeResolver type subschema.name))
    | some (.custom fetch) => Act.ofWorld (fetch object context info subschema selections)
    | some (.rootField services fieldName arguments?) => pure do
      let some service := Service.of? services subschema
        | throw (.missingMergedTypeResolver type subschema.name)
      let delegation ← Act.ofExcept <|
        fetching stitching? service fieldName arguments? object context info selections
      Act.ofExcept (← delegation.run complete).toValue

end MergedType

namespace Stitching

variable {σ : Type}

/-- The selected fields that a subschema does not declare on a type. -/
def missingFields (subschema : Subschema) (type : Name) (fields : Entries (List Field)) :
    List Selection :=
  (fields.values.filter fun nodes =>
    match nodes.head? with
    | some node =>
      node.name != typenameField && !subschema.view.hasField type node.name
    | none => false).flatten.map Selection.field

/-- Completes an object of a merged type; merges are nested at most as deep as given. -/
def completeWithin (stitching : Stitching σ) : Nat → Completion σ
  | 0 => fun _ _ _ _ object => pure object
  | depth + 1 => fun subschema context info type object =>
    match stitching.mergedType? type with
    | none => pure object
    | some merged => do
      let targets := merged.targetsOf subschema
      if targets.isEmpty then return object
      let selections := missingFields subschema type (info.subFields type)
      let run ← merged.merge
        (merged.ask (some stitching) (stitching.completeWithin depth) type context info)
        object selections [subschema] targets
      return run.object

end Stitching

mutual

/-- How many fields a selection holds. -/
def Selection.fieldCount : Selection → Nat
  | .field ⟨_, _, _, _, selections⟩ => fieldCountAll selections + 1
  | .spread _ _ => 0
  | .inline _ _ selections => fieldCountAll selections

/-- How many fields selections hold. -/
def fieldCountAll : List Selection → Nat
  | [] => 0
  | selection :: rest => selection.fieldCount + fieldCountAll rest

end

/-- A bound on how deep merges are nested: each is for a field below the one that it is nested
in. -/
def GatewayOperation.mergeDepth (operation : GatewayOperation) : Nat :=
  fieldCountAll operation.operation.selections
    + (operation.fragments.values.map fun fragment =>
      fieldCountAll fragment.selections).foldr (· + ·) 0 + 1

/-- Completes the objects that answer a gateway operation. -/
def Stitching.completion? {σ : Type} (stitching? : Option (Stitching σ))
    (info? : Option FieldInfo) : Completion σ :=
  match stitching?, info? with
  | some stitching, some info => stitching.completeWithin info.operation.mergeDepth
  | _, _ => fun _ _ _ _ object => pure object

/-- Delegates a request. -/
def Delegation.start {σ : Type} (delegation : Delegation σ) : Act σ (Delegated σ) :=
  delegation.run (Stitching.completion? delegation.stitching? delegation.info?)

end Gateway
