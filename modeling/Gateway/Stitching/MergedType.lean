import Gateway.Language.Printer
import Gateway.Stitching.Subschema

/-!
# Merged types

How one object type is merged across the subschemas that declare it: who declares which field, what
a subschema needs to know about an object before it can resolve more of it, and which subschemas can
complete an object.
-/

namespace Gateway

mutual

/-- Whether at least one of the types has what a selection selects. -/
def typesHave (types : List (Schema × Name)) : Selection → Bool
  | .field ⟨_, name, _, _, selections⟩ =>
    if name = typenameField then true
    else
      let inner := types.filterMap fun type =>
        (type.1.fieldTypeName? type.2 name).map fun inner => (type.1, inner)
      !inner.isEmpty && (selections.isEmpty || typesHaveAll inner selections)
  | .spread _ _ => true
  | .inline condition _ selections =>
    match condition, types.head? with
    | some condition, some (_, type) =>
      if condition = type then typesHaveAll types selections else true
    | _, _ => typesHaveAll types selections

/-- Whether the types together have all that selections select; fragments that may not apply do not
count. -/
def typesHaveAll (types : List (Schema × Name)) : List Selection → Bool
  | [] => true
  | selection :: rest => typesHave types selection && typesHaveAll types rest

end

/-- How an object type is merged, with what resolves it in each subschema. -/
structure MergedType (ρ : Type) where
  /-- The type. -/
  typeName? : Option Name := none
  /-- The subschemas that declare the type. -/
  subschemas : List Subschema := []
  /-- For the subschema that an object came from, those that can complete it. -/
  targets : Entries (List Subschema) := []
  /-- The fields that one subschema declares. -/
  uniqueFields : Entries Subschema := []
  /-- The fields that several subschemas declare. -/
  sharedFields : Entries (List Subschema) := []
  /-- What each subschema needs of an object. -/
  selections : Entries (List Selection) := []
  /-- What each subschema needs of an object for one of its fields. -/
  fieldSelections : Entries (Entries (List Selection)) := []
  /-- Whether a subschema has what a printed selection set selects. -/
  contains : Entries (Entries Bool) := []
  /-- What resolves the type, by subschema. -/
  resolvers : Entries ρ := []

namespace MergedType

variable {ρ : Type}

/-- The subschemas that can complete an object of a subschema. -/
def targetsOf (merged : MergedType ρ) (source : Subschema) : List Subschema :=
  (merged.targets.get? source.name).getD []

/-- Whether objects of the sources are known to have what is selected. -/
def isKnown (merged : MergedType ρ) (sources : List Subschema) (selections : List Selection) :
    Bool :=
  sources.any fun source =>
    (((merged.contains.get? source.name).bind fun table =>
      table.get? (selectionSetKey selections)).getD false)

/-- Whether objects of the sources have what is selected. -/
def sourcesContain (merged : MergedType ρ) (sources : List Subschema)
    (selections : List Selection) : Bool :=
  merged.isKnown sources selections
    || match merged.typeName? with
      | some type => typesHaveAll (sources.map fun source => (source.view, type)) selections
      | none => false

end MergedType

end Gateway
