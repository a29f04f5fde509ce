import Gateway.Schema.Builtin
import Gateway.Stitching.Plan
import Gateway.Stitching.Service

/-!
# Stitching

What is derived from the services of a gateway before anything is delegated: the merged types and
what merging requires of requests.
-/

namespace Gateway

/-- What is derived from the services of a gateway. -/
structure Stitching (σ : Type) where
  /-- The merged types. -/
  mergedTypes : Entries (MergedType (TypeResolver σ)) := []
  /-- What merging requires of requests. -/
  requirements : MergeRequirements := {}

/-- The fragment as a selection. -/
def Fragment.asInline (fragment : Fragment) : Selection :=
  .inline (some fragment.condition) fragment.directives fragment.selections

/-- The object types of a subschema that can be merged: those that are neither built in nor
roots. -/
def Subschema.mergeableTypes (subschema : Subschema) : List Name :=
  let view := subschema.view
  (view.types.map TypeDefinition.name).filter fun type =>
    view.isObject type && !Builtin.isTypeName type
      && [OperationKind.query, .mutation, .subscription].all fun kind =>
        view.root? kind != some type

namespace Stitching

variable {σ : Type}

/-- A merged type while it is built from its candidates. -/
structure Building (σ : Type) where
  /-- The merged type so far. -/
  merged : MergedType (TypeResolver σ)
  /-- What merging requires so far. -/
  requirements : MergeRequirements
  /-- The subschemas that declare each field. -/
  owners : Entries (List Subschema) := []
  /-- The subschemas that can complete objects. -/
  resolving : List Subschema := []

namespace Building

/-- Adds what a field requires, and what it needs of an object to the needs of the fields before
it. -/
def addField (type : Name) (sofar : MergeRequirements × Entries (List Selection))
    (field : Name × FieldMerging) :
    Except DelegationError (MergeRequirements × Entries (List Selection)) := do
  let mut (requirements, needs) := sofar
  if let some text := field.2.selectionSet? then
    let selections ← parseSelectionSet text
    requirements := requirements.requireField type field.1 selections
    needs := needs.insert field.1 selections
  if let some text := field.2.fragment? then
    let fragment ← parseFragment text
    requirements := requirements.requireFragment type field.1 fragment.asInline
  return (requirements, needs)

/-- Adds what the fields of a candidate require. What they need takes the place of what the fields
of another candidate of its name need. -/
def addFields (type : Name) (building : Building σ) (subschema : Subschema)
    (fields : Entries FieldMerging) : Except DelegationError (Building σ) := do
  let (requirements, needs) ← fields.foldlM (addField type) (building.requirements, [])
  let present := building.merged.fieldSelections
  return { building with
    requirements
    merged := { building.merged with
      fieldSelections := if needs.isEmpty then present else present.insert subschema.name needs } }

/-- Adds what completes objects in a candidate. -/
def addResolver (building : Building σ) (subschema : Subschema)
    (resolver : TypeResolver σ) : Building σ :=
  { building with
    merged := { building.merged with
      resolvers := building.merged.resolvers.insert subschema.name resolver }
    resolving := building.resolving ++ [subschema] }

/-- The fields that a subschema owns: those that it declares, less the leaf fields that it needs of
an object itself. -/
def ownedFields (subschema : Subschema) (type : Name) (needed : Option (List Selection)) :
    List Name :=
  ((subschema.view.fields type).filter fun field =>
    !(subschema.view.isLeaf field.type.innerName
      && match needed with
        | some selections => (directFields selections).any fun key => key.name = field.name
        | none => false)).map FieldDefinition.name

/-- Adds the fields that a candidate owns. -/
def addOwner (building : Building σ) (subschema : Subschema) (fields : List Name) :
    Building σ :=
  { building with
    owners := fields.foldl (fun owners field => owners.push field subschema) building.owners }

/-- Adds what a candidate needs of an object. -/
def addNeeded (building : Building σ) (type : Name) (subschema : Subschema)
    (selections : List Selection) : Building σ :=
  { building with
    requirements := building.requirements.requireType type selections
    merged := { building.merged with
      selections := building.merged.selections.insert subschema.name selections } }

/-- Adds a candidate, one of the services of the gateway. -/
def addCandidate (services : List (Service σ)) (type : Name) (building : Building σ)
    (service : Service σ) : Except DelegationError (Building σ) := do
  let subschema := service.subschema
  let merging? := service.merging.get? type
  let needed ← (merging?.bind TypeMerging.selectionSet?).mapM parseSelectionSet
  let mut building := building
  if let some merging := merging? then
    building ← addFields type building subschema merging.fields
    if let some resolver := merging.resolver? (services.filter (·.subschema.is subschema)) then
      building := building.addResolver subschema resolver
  building := building.addOwner subschema (ownedFields subschema type needed)
  if let some selections := needed then
    building := building.addNeeded type subschema selections
  return building

end Building

/-- All selection sets that a merged type needs. -/
def neededSelections (merged : MergedType (TypeResolver σ)) : List (List Selection) :=
  merged.selections.values ++ merged.fieldSelections.values.flatMap Entries.values

/-- The table of the needed selection sets that a subschema has. -/
def containment (merged : MergedType (TypeResolver σ)) (type : Name) (subschema : Subschema) :
    Entries Bool :=
  Entries.ofPairs <| (neededSelections merged).map fun selections =>
    (selectionSetKey selections, typesHaveAll [(subschema.view, type)] selections)

/-- The merged type with what follows from all candidates. -/
def finish (type : Name) (candidates : List Subschema) (building : Building σ) :
    MergedType (TypeResolver σ) :=
  let merged := building.merged
  { merged with
    subschemas := candidates
    uniqueFields := building.owners.filterMap fun
      | (field, [owner]) => some (field, owner)
      | _ => none
    sharedFields := building.owners.filter fun entry => entry.2.length ≠ 1
    targets := Entries.ofPairs <| candidates.filterMap fun source =>
      match building.resolving.filter fun target => !target.is source with
      | [] => none
      | targets => some (source.name, targets)
    contains := Entries.ofPairs <| candidates.map fun source =>
      (source.name, containment merged type source) }

/-- The services that declare each type that can be merged. -/
def candidates (services : List (Service σ)) : Entries (List (Service σ)) :=
  services.foldl (fun candidates service =>
    service.subschema.mergeableTypes.foldl (fun candidates type =>
      Entries.push candidates type service) candidates) []

/-- Whether a type is merged: several services declare it, and one takes part in it. -/
def isMerged (type : Name) (candidates : List (Service σ)) : Bool :=
  decide (2 ≤ candidates.length)
    && candidates.any fun service => (service.merging.get? type).isSome

/-- Adds a type, if it is merged. -/
def addType (services : List (Service σ)) (stitching : Stitching σ)
    (entry : Name × List (Service σ)) : Except DelegationError (Stitching σ) := do
  let (type, candidates) := entry
  if isMerged type candidates then
    let building ← candidates.foldlM (Building.addCandidate services type)
      { merged := { typeName? := some type }, requirements := stitching.requirements }
    return {
      mergedTypes := stitching.mergedTypes.insert type
        (finish type (candidates.map Service.subschema) building)
      requirements := building.requirements }
  else return stitching

/-- Derives the merged types of services. -/
def ofServices (services : List (Service σ)) : Except DelegationError (Stitching σ) :=
  (candidates services).foldlM (addType services) {}

/-- How a type is merged, if it is. -/
def mergedType? (stitching : Stitching σ) (type : Name) :
    Option (MergedType (TypeResolver σ)) :=
  stitching.mergedTypes.get? type

end Stitching

end Gateway
