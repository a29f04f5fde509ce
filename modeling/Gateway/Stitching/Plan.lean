import Gateway.Stitching.MergedType

/-!
# Delegation plans

One round of merging asks each target whose needs are met for the fields that it owns. A field that
no such target owns waits for a later round.
-/

namespace Gateway

/-- Which fields are asked of which subschemas in one round. -/
structure Plan where
  /-- The fields to ask of each subschema. -/
  delegations : List (Subschema × List Selection) := []
  /-- The targets whose needs the sources meet. -/
  proxiable : List Subschema := []
  /-- The other targets. -/
  nonProxiable : List Subschema := []
  /-- The selections that wait. -/
  waiting : List Selection := []

namespace Plan

/-- Adds a selection to those asked of a subschema. -/
def addDelegation (subschema : Subschema) (selection : Selection) :
    List (Subschema × List Selection) → List (Subschema × List Selection)
  | [] => [(subschema, [selection])]
  | (other, selections) :: rest =>
    if other.is subschema then (other, selections ++ [selection]) :: rest
    else (other, selections) :: addDelegation subschema selection rest

/-- Asks a subschema for a selection. -/
def delegate (plan : Plan) (subschema : Subschema) (selection : Selection) : Plan :=
  { plan with delegations := addDelegation subschema selection plan.delegations }

/-- Lets a selection wait. -/
def wait (plan : Plan) (selection : Selection) : Plan :=
  { plan with waiting := plan.waiting ++ [selection] }

/-- Whether a subschema is asked for something. -/
def asks (plan : Plan) (subschema : Subschema) : Bool :=
  plan.delegations.any fun entry => entry.1.is subschema

end Plan

namespace MergedType

variable {ρ : Type}

/-- Whether the sources have what a target needs of an object. -/
def typeNeedsMet (merged : MergedType ρ) (sources : List Subschema) (target : Subschema) : Bool :=
  match merged.selections.get? target.name with
  | some needed => merged.sourcesContain sources needed
  | none => true

/-- Whether the sources have what a target needs for the fields that are requested. -/
def fieldNeedsMet (merged : MergedType ρ) (sources : List Subschema)
    (selections : List Selection) (target : Subschema) : Bool :=
  match merged.fieldSelections.get? target.name with
  | some needs => (directFields selections).all fun field =>
    match needs.get? field.name with
    | some needed => merged.sourcesContain sources needed
    | none => true
  | none => true

/-- Whether a target can be asked for fields of an object of the sources. -/
def isProxiable (merged : MergedType ρ) (sources : List Subschema)
    (selections : List Selection) (target : Subschema) : Bool :=
  merged.typeNeedsMet sources target && merged.fieldNeedsMet sources selections target

/-- The subschema to ask for a field: its only owner, or else an owner that is asked already, or
else the first owner, as far as they are proxiable. -/
def choose? (merged : MergedType ρ) (plan : Plan) (field : Name) : Option Subschema :=
  match merged.uniqueFields.get? field with
  | some owner => if owner.isAmong plan.proxiable then some owner else none
  | none =>
    let owners := ((merged.sharedFields.get? field).getD []).filter fun owner =>
      owner.isAmong plan.proxiable
    (owners.find? plan.asks).or owners.head?

/-- Routes one selection. -/
def route (merged : MergedType ρ) (plan : Plan) (selection : Selection) : Plan :=
  match selection with
  | .field node =>
    if node.name = typenameField then plan
    else
      match merged.choose? plan node.name with
      | some owner => plan.delegate owner selection
      | none => plan.wait selection
  | _ => plan.wait selection

/-- Routes selections to the targets that can fetch them for an object of the sources. -/
def plan (merged : MergedType ρ) (selections : List Selection)
    (sources targets : List Subschema) : Plan :=
  selections.foldl merged.route {
    proxiable := targets.filter (merged.isProxiable sources selections)
    nonProxiable := targets.filter fun target =>
      !merged.isProxiable sources selections target }

end MergedType

end Gateway
