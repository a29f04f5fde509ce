import Gateway.Configuration.Basic
import Gateway.Fetched.Resolve

/-!
# Applied configurations

A configuration replaces how a service takes part in merged types; what fetches objects of a type in
its own way is kept.
-/

namespace Gateway

/-- Reads a name of a configuration. -/
def configuredName (text : String) : Except DelegationError Name :=
  if Name.isValid text then .ok text
  else .error (.configuration ("\x60" ++ text ++ "\x60 is not a valid GraphQL name"))

/-- The arguments that are read from an object by its keys. -/
def KeyArguments.ofKeys (keys : Entries String) : KeyArguments := fun object =>
  keys.mapValues fun key => (object.resolve key).toJson

/-- The requirements of a configured field, whose selection set has to be one. -/
def FieldConfiguration.merging (field : FieldConfiguration) :
    Except DelegationError FieldMerging := do
  if let some text := field.selectionSet? then
    let _ ← parseSelectionSet text
  return { selectionSet? := field.selectionSet?, fragment? := field.fragment? }

/-- How a configured type is merged. -/
def TypeConfiguration.merging {σ : Type} (type : TypeConfiguration) :
    Except DelegationError (TypeMerging σ) := do
  if let some text := type.selectionSet? then
    let _ ← parseSelectionSet text
  let fieldName? ← type.fieldName?.mapM configuredName
  let _ ← type.keyArguments.keys.mapM configuredName
  let fields ← type.fields.mapM fun (name, field) => do
    let merging ← field.merging
    return (← configuredName name, merging)
  return {
    selectionSet? := type.selectionSet?
    fieldName?
    arguments? :=
      if type.keyArguments.isEmpty then none else some (KeyArguments.ofKeys type.keyArguments)
    fields }

namespace Service

variable {σ : Type}

/-- Configures one merged type of a service. -/
def configureType (service : Service σ) (entry : String × TypeConfiguration) :
    Except DelegationError (Service σ) := do
  let type ← configuredName entry.1
  let merging : TypeMerging σ ← entry.2.merging
  let fetcher? := (service.merging.get? type).bind TypeMerging.fetcher?
  return { service with merging := service.merging.insert type { merging with fetcher? } }

/-- Applies a configuration to a service, if it has a part for it. -/
def configure (service : Service σ) (configuration : Configuration) :
    Except DelegationError (Service σ) :=
  match configuration.subschemas.get? service.subschema.name with
  | some part => part.merge.foldlM configureType service
  | none => .ok service

end Service

end Gateway
