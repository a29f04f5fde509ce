import Gateway.Stitching.Info

/-!
# Described stitching

Merged types and plans, written out.
-/

namespace Gateway

/-- Selections as they are printed. -/
def describeSelections (selections : List Selection) : Json :=
  .string (selectionSetKey selections)

/-- Subschemas by name. -/
def describeSubschemas (subschemas : List Subschema) : Json :=
  .array (subschemas.map fun subschema => .string subschema.name)

/-- Entries as pairs, in order. -/
def describeEntries {α : Type} (describe : α → Json) (entries : Entries α) : Json :=
  .array (entries.map fun entry => .array [.string entry.1, describe entry.2])

/-- A merged type, written out. -/
def MergedType.describe {ρ : Type} (merged : MergedType ρ) : Entries Json :=
  [("type_name", .ofText? merged.typeName?),
    ("subschemas", describeSubschemas merged.subschemas),
    ("targets", .array (merged.subschemas.map fun subschema =>
      .array [.string subschema.name, describeSubschemas (merged.targetsOf subschema)])),
    ("unique", describeEntries (fun owner => .string owner.name) merged.uniqueFields),
    ("non_unique", describeEntries describeSubschemas merged.sharedFields),
    ("selection_sets", describeEntries describeSelections merged.selections),
    ("field_selection_sets",
      describeEntries (describeEntries describeSelections) merged.fieldSelections),
    ("contains", describeEntries (.ofTable .bool) merged.contains),
    ("resolvers", .array (merged.resolvers.keys.map .string))]

/-- What a type and some of its fields require, written out. -/
def MergeRequirements.describe (requirements : MergeRequirements) (type : Name)
    (fields : List Name) : Entries Json :=
  [("by_type", ((requirements.byType.get? type).map describeSelections).getD .null),
    ("by_field", .array (fields.map fun field => .array [
      .string field,
      ((requirements.byField.find? type field).map describeSelections).getD .null,
      ((requirements.fragmentsByField.find? type field).map fun fragments =>
        .array (fragments.map fun fragment => .string (fragment.print 0))).getD .null]))]

/-- A plan, written out. -/
def Plan.describe (plan : Plan) : Json :=
  .object [
    ("delegation_map", .array (plan.delegations.map fun asked =>
      .array [.string asked.1.name, describeSelections asked.2])),
    ("proxiable", describeSubschemas plan.proxiable),
    ("non_proxiable", describeSubschemas plan.nonProxiable),
    ("unproxiable", describeSelections plan.waiting)]

end Gateway
