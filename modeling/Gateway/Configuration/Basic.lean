import Gateway.Stitching.Service
import Gateway.Yaml.Node

/-!
# Stitching configurations

How subschemas take part in merged types, written as a mapping. Every part can be left out; a part
that is not known is refused.
-/

namespace Gateway

/-- The requirements of one field. -/
structure FieldConfiguration where
  /-- The fields of the parent object that the field needs. -/
  selectionSet? : Option String := none
  /-- A fragment on the parent type to add next to the field. -/
  fragment? : Option String := none
  deriving DecidableEq

/-- How one subschema resolves a merged type. -/
structure TypeConfiguration where
  /-- The fields of an object that the subschema needs. -/
  selectionSet? : Option String := none
  /-- The root field that fetches an object. -/
  fieldName? : Option String := none
  /-- The arguments of the root field, with the keys of the object that they are read from. -/
  keyArguments : Entries String := []
  /-- The requirements of single fields. -/
  fields : Entries FieldConfiguration := []

/-- How one subschema takes part in type merging. -/
structure SubschemaConfiguration where
  /-- The merged types. -/
  merge : Entries TypeConfiguration := []

/-- How all subschemas take part in type merging. -/
structure Configuration where
  /-- The subschemas by name. -/
  subschemas : Entries SubschemaConfiguration := []

/-! ## Reading -/

namespace Yaml

/-- The entries of a mapping. -/
def entries? : Yaml → Option (List (String × Yaml))
  | .mapping entries => some entries
  | _ => none

/-- The entries of a mapping, sorted by key; of two with one key the later counts. -/
def table? {α : Type} (read : Yaml → Option α) (tree : Yaml) : Option (Entries α) := do
  let entries ← tree.entries?
  let values ← entries.mapM fun entry => (read entry.2).map fun value => (entry.1, value)
  return (Entries.ofPairs values).sorted

/-- The parts of a record: no other parts than the known ones, and none of them twice. A sequence
gives the first parts in the order in which they are known. -/
def parts? (known : List String) : Yaml → Option (Entries Yaml)
  | .mapping entries =>
    let keys := entries.map Prod.fst
    if keys.all known.contains ∧ keys.Nodup then some entries else none
  | .sequence items =>
    if items.length ≤ known.length then some (known.zip items) else none
  | .scalar .. => none

/-- Reads a part of a record, which can be left out. -/
def part? {α : Type} (parts : Entries Yaml) (name : String) (absent : α)
    (read : Yaml → Option α) : Option α :=
  match parts.get? name with
  | some tree => read tree
  | none => some absent

end Yaml

/-- Reads the requirements of a field. -/
def FieldConfiguration.ofYaml? (tree : Yaml) : Option FieldConfiguration := do
  let parts ← tree.parts? ["selection_set", "fragment"]
  return {
    selectionSet? := ← Yaml.part? parts "selection_set" none Yaml.optionalText?
    fragment? := ← Yaml.part? parts "fragment" none Yaml.optionalText? }

/-- Reads how a merged type is resolved. -/
def TypeConfiguration.ofYaml? (tree : Yaml) : Option TypeConfiguration := do
  let parts ← tree.parts? ["selection_set", "field_name", "key_arguments", "fields"]
  return {
    selectionSet? := ← Yaml.part? parts "selection_set" none Yaml.optionalText?
    fieldName? := ← Yaml.part? parts "field_name" none Yaml.optionalText?
    keyArguments := ← Yaml.part? parts "key_arguments" [] (Yaml.table? Yaml.asText?)
    fields := ← Yaml.part? parts "fields" [] (Yaml.table? FieldConfiguration.ofYaml?) }

/-- Reads how a subschema takes part in merging. -/
def SubschemaConfiguration.ofYaml? (tree : Yaml) : Option SubschemaConfiguration := do
  let parts ← tree.parts? ["merge"]
  return { merge := ← Yaml.part? parts "merge" [] (Yaml.table? TypeConfiguration.ofYaml?) }

/-- Reads a configuration. -/
def Configuration.ofYaml? (tree : Yaml) : Option Configuration := do
  let parts ← tree.parts? ["subschemas"]
  return {
    subschemas := ← Yaml.part? parts "subschemas" [] (Yaml.table? SubschemaConfiguration.ofYaml?) }

/-- What is reported in place of the positions of a text that is refused. -/
def yamlErrorText : String := "<yaml>"

/-- Reads the text of a configuration. -/
def Configuration.parse (text : String) : Except DelegationError Configuration :=
  match (Yaml.parse? text).bind Configuration.ofYaml? with
  | some configuration => .ok configuration
  | none => .error (.configuration yamlErrorText)

end Gateway
