import Gateway.Delegation.Context
import Gateway.Execution.Mock
import Gateway.Fetched.Value
import Gateway.Transform.Chain

/-!
# Services

A service is a subschema with all that is needed to delegate to it: what executes requests,
transforms, and how objects of merged types are fetched from it.
-/

namespace Gateway

/-- All that an executor receives with a request. -/
structure Delivery where
  /-- The request. -/
  request : Request
  /-- The context of the gateway request. -/
  context : Context
  /-- The gateway field that is delegated, if there is one. -/
  info? : Option FieldInfo
  /-- The root value for local execution. -/
  root? : Option Execution.RootValue

/-- What answers queries and mutations. -/
abbrev Executor (σ : Type) := Delivery → StateM σ Response

/-- What a subscription leads to. -/
inductive SubscriptionAnswer
  | response (response : Response)
  | events (responses : List Response)

/-- What answers subscriptions. -/
abbrev Subscriber (σ : Type) := Delivery → StateM σ SubscriptionAnswer

/-- Fetches selected fields of an object from a subschema, for the gateway field that the object
answers: the fetch is begun at once, and what it leads to is awaited later. -/
abbrev FieldFetcher (σ : Type) :=
  FetchedObject → Context → FieldInfo → Subschema → List Selection →
    StateM σ (Act σ FetchedValue)

/-- Arguments computed from an object. -/
abbrev KeyArguments := FetchedObject → Entries Json

/-- What one field of a merged type requires. -/
structure FieldMerging where
  /-- The fields of the parent object that the field needs. -/
  selectionSet? : Option String := none
  /-- A fragment to request next to the field. -/
  fragment? : Option String := none
  deriving DecidableEq

/-- How a service takes part in a merged type. -/
structure TypeMerging (σ : Type) where
  /-- The fields of an object that the service needs. -/
  selectionSet? : Option String := none
  /-- The root field that fetches an object. -/
  fieldName? : Option Name := none
  /-- The arguments of the root field. -/
  arguments? : Option KeyArguments := none
  /-- What fetches an object instead of the root field. -/
  fetcher? : Option (FieldFetcher σ) := none
  /-- The requirements of single fields. -/
  fields : Entries FieldMerging := []

/-- A subschema with what is needed to delegate to it. -/
structure Service (σ : Type) where
  /-- The subschema. -/
  subschema : Subschema
  /-- What answers queries and mutations; without it they are executed locally. -/
  executor? : Option (Executor σ) := none
  /-- What answers subscriptions. -/
  subscriber? : Option (Subscriber σ) := none
  /-- The root value for local execution. -/
  root? : Option Execution.RootValue := none
  /-- The transforms of all delegations to the service. -/
  transforms : List (Transform σ) := []
  /-- How the service takes part in merged types. -/
  merging : Entries (TypeMerging σ) := []

/-- What completes objects of a merged type in a subschema. -/
inductive TypeResolver (σ : Type)
  /-- Delegates to a root field of that service, among those of one name, whose subschema is
  asked. -/
  | rootField (services : List (Service σ)) (fieldName : Name)
    (arguments? : Option KeyArguments)
  /-- Fetches in its own way. -/
  | custom (fetcher : FieldFetcher σ)

/-- The service of a subschema. -/
def Service.of? {σ : Type} (services : List (Service σ)) (subschema : Subschema) :
    Option (Service σ) :=
  services.find? fun service => service.subschema = subschema

namespace TypeMerging

variable {σ : Type}

/-- What completes objects in a service, if anything does; the services of its name are given. -/
def resolver? (merging : TypeMerging σ) (services : List (Service σ)) : Option (TypeResolver σ) :=
  match merging.fetcher?, merging.fieldName? with
  | some fetcher, _ => some (.custom fetcher)
  | none, some fieldName => some (.rootField services fieldName merging.arguments?)
  | none, none => none

end TypeMerging

end Gateway
