import Gateway.Request.Revise
import Gateway.Stitching.Requirements

/-!
# Requested merge requirements

The selections and fragments that merging requires are added to the selection sets of a request. The
gateway schema gives the types; a root field that the gateway does not know has the type that the
delegation returns.
-/

namespace Gateway.Transform

/-- The gateway field types that a request is walked with. -/
structure GatewayTypes where
  /-- The gateway schema. -/
  schema : Schema
  /-- The type of the delegated field. -/
  returnType : Name

namespace GatewayTypes

/-- The type of a field, below the root type of an operation. -/
def fieldType? (types : GatewayTypes) (root? : Option Name) (parent field : Name) :
    Option Name :=
  match types.schema.fieldTypeName? parent field with
  | some type => some type
  | none =>
    if root? = some parent && field != typenameField then some types.returnType else none

/-- Revises a document with the gateway's types. -/
def revise (types : GatewayTypes) (finish : Name → List Selection → List Selection)
    (document : Document) : Except DelegationError Document :=
  document.revise types.schema
    (fun root? => Revision.selections ⟨types.fieldType? root?, finish⟩) none

end GatewayTypes

/-- The selections with those that the type requires. -/
def withTypeRequirements (requirements : MergeRequirements) (type : Name)
    (selections : List Selection) : List Selection :=
  match requirements.byType.get? type with
  | some required => unionSelections selections required
  | none => selections

/-- The selections with those that the selected fields require. -/
def withFieldRequirements (requirements : MergeRequirements) (type : Name)
    (selections : List Selection) : List Selection :=
  (directFields selections).foldl (fun selections field =>
    match requirements.byField.find? type field.name with
    | some required => unionSelections selections required
    | none => selections) selections

/-- The selections with the fragments that the selected fields require. -/
def withFieldFragments (requirements : MergeRequirements) (type : Name)
    (selections : List Selection) : List Selection :=
  unionSelections selections <| (directFields selections).flatMap fun field =>
    (requirements.fragmentsByField.find? type field.name).getD []

/-- Adds what the types of objects require. -/
def addTypeRequirements (types : GatewayTypes) (requirements : MergeRequirements)
    (document : Document) : Except DelegationError Document :=
  if requirements.hasSelections then
    types.revise (withTypeRequirements requirements) document
  else .ok document

/-- Adds what the selected fields require of their parent objects. -/
def addFieldRequirements (types : GatewayTypes) (requirements : MergeRequirements)
    (document : Document) : Except DelegationError Document :=
  if requirements.hasSelections then
    types.revise (withFieldRequirements requirements) document
  else .ok document

/-- Adds the fragments that the selected fields require. -/
def addFieldFragments (types : GatewayTypes) (requirements : MergeRequirements)
    (document : Document) : Except DelegationError Document :=
  if requirements.hasFragments then
    types.revise (withFieldFragments requirements) document
  else .ok document

end Gateway.Transform
