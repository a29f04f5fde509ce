import Gateway.Configuration.Basic
import Gateway.Json.Basic

/-!
# Described configurations

A configuration written out in full, and the JSON schema of configurations: which parts they have,
what the parts are for, and what holds when one is left out.
-/

namespace Gateway

/-! ## Writing -/

/-- The requirements of a field, all parts of them. -/
def FieldConfiguration.toJson (field : FieldConfiguration) : Json :=
  .object [
    ("selection_set", .ofText? field.selectionSet?),
    ("fragment", .ofText? field.fragment?)]

/-- How a merged type is resolved, all parts of it. -/
def TypeConfiguration.toJson (type : TypeConfiguration) : Json :=
  .object [
    ("selection_set", .ofText? type.selectionSet?),
    ("field_name", .ofText? type.fieldName?),
    ("key_arguments", .ofTable .string type.keyArguments),
    ("fields", .ofTable FieldConfiguration.toJson type.fields)]

/-- How a subschema takes part in merging. -/
def SubschemaConfiguration.toJson (subschema : SubschemaConfiguration) : Json :=
  .object [("merge", .ofTable TypeConfiguration.toJson subschema.merge)]

/-- A configuration, all parts of it. -/
def Configuration.toJson (configuration : Configuration) : Json :=
  .object [("subschemas", .ofTable SubschemaConfiguration.toJson configuration.subschemas)]

/-! ## The schema -/

/-- What a part of a record is. -/
structure ConfigurationPart where
  /-- The name of the part. -/
  name : String
  /-- What the part is for. -/
  description : String
  /-- What holds when the part is left out. -/
  absent : Json
  /-- The schema of the part. -/
  schema : Entries Json

namespace ConfigurationPart

/-- A text that can be left out. -/
def text (name description : String) : ConfigurationPart :=
  { name, description, absent := .null
    schema := [("type", .string "string"), ("nullable", .bool true)] }

/-- A table of values that follow a schema; it is empty when it is left out. -/
def table (name description : String) (value : Entries Json) : ConfigurationPart :=
  { name, description, absent := .object []
    schema := [("type", .string "object"), ("additionalProperties", .object value)] }

/-- The schema of a part with its description. -/
def toJson (part : ConfigurationPart) : Json :=
  .object <| ("description", .string part.description) :: ("default", part.absent) :: part.schema

end ConfigurationPart

/-- The schema of a record that has no other parts than the given ones. -/
def recordSchema (description : String) (parts : List ConfigurationPart) : Entries Json :=
  [("description", .string description),
    ("type", .string "object"),
    ("properties", .object (parts.map fun part => (part.name, part.toJson))),
    ("additionalProperties", .bool false)]

/-- The schema of the requirements of a field. -/
def FieldConfiguration.schema : Entries Json :=
  recordSchema "Requirements of one field of a merged type." [
    .text "selection_set"
      "Fields of the parent object the field needs, e.g. \x60\x7b weight \x7d\x60.",
    .text "fragment" <|
      "A fragment on the parent type added next to the field, e.g. "
        ++ "\x60fragment UserId on User \x7b id \x7d\x60."]

/-- The schema of how a merged type is resolved. -/
def TypeConfiguration.schema : Entries Json :=
  recordSchema "How one subschema resolves a merged type." [
    .text "selection_set" <|
      "Fields needed on the object before this subschema can resolve it, "
        ++ "e.g. \x60\x7b id \x7d\x60.",
    .text "field_name" "The root query field fetching the object.",
    .table "key_arguments"
      ("Arguments of the root query field, mapped to the response key of the object they are "
        ++ "read from.")
      [("type", .string "string")],
    .table "fields" "Per-field requirements, by field name." FieldConfiguration.schema]

/-- The schema of how a subschema takes part in merging. -/
def SubschemaConfiguration.schema : Entries Json :=
  recordSchema "How one subschema takes part in type merging." [
    .table "merge" "Merged types, by type name." TypeConfiguration.schema]

/-- The JSON schema of configurations. -/
def Configuration.schema : Json :=
  .object <|
    ("$schema", .string "http://json-schema.org/draft-07/schema#")
    :: ("title", .string "StitchingConfiguration")
    :: recordSchema "The merge configuration of every subschema, by subschema name." [
      .table "subschemas" "Subschema configurations." SubschemaConfiguration.schema]

end Gateway
