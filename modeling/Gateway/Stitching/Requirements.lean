import Gateway.Entries
import Gateway.Language.Syntax

/-!
# Merge requirements

What has to be requested along with objects and fields so that their types can be merged: selections
on an object type, selections next to a field, and fragments next to a field.
-/

namespace Gateway

/-- Selections by type and field. -/
abbrev SelectionsByField := Entries (Entries (List Selection))

/-- The selections for a field of a type. -/
def SelectionsByField.find? (selections : SelectionsByField) (type field : Name) :
    Option (List Selection) := do
  let fields ← Entries.get? selections type
  fields.get? field

/-- The selections with more of them at the end, each unless it is there already. -/
def unionSelections (selections more : List Selection) : List Selection :=
  more.foldl (fun union selection =>
    if union.contains selection then union else union ++ [selection]) selections

/-- What types and fields require for merging. -/
structure MergeRequirements where
  /-- The selections required on objects of a type. -/
  byType : Entries (List Selection) := []
  /-- The selections required next to a field. -/
  byField : SelectionsByField := []
  /-- The inline fragments required next to a field. -/
  fragmentsByField : SelectionsByField := []

namespace MergeRequirements

/-- Changes the selections for a field of a type, which start empty. -/
def updateField (selections : SelectionsByField) (type field : Name)
    (update : List Selection → List Selection) : SelectionsByField :=
  let fields := (Entries.get? selections type).getD []
  Entries.insert selections type (fields.insert field (update ((fields.get? field).getD [])))

/-- Requires selections on objects of a type. -/
def requireType (requirements : MergeRequirements) (type : Name)
    (selections : List Selection) : MergeRequirements :=
  let present := (requirements.byType.get? type).getD []
  { requirements with
    byType := requirements.byType.insert type (unionSelections present selections) }

/-- Requires selections next to a field. -/
def requireField (requirements : MergeRequirements) (type field : Name)
    (selections : List Selection) : MergeRequirements :=
  { requirements with
    byField := updateField requirements.byField type field fun present =>
      unionSelections present selections }

/-- Requires a fragment next to a field. -/
def requireFragment (requirements : MergeRequirements) (type field : Name)
    (fragment : Selection) : MergeRequirements :=
  { requirements with
    fragmentsByField := updateField requirements.fragmentsByField type field (· ++ [fragment]) }

/-- Whether any selections are required. -/
def hasSelections (requirements : MergeRequirements) : Bool :=
  !requirements.byType.isEmpty || !requirements.byField.isEmpty

/-- Whether any fragments are required. -/
def hasFragments (requirements : MergeRequirements) : Bool :=
  !requirements.fragmentsByField.isEmpty

end MergeRequirements

end Gateway
