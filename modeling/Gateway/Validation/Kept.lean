import Gateway.Schema.Builtin
import Gateway.Validation.Diagnostic

/-!
# Kept definitions

The part of a document that a schema can describe. What has no meaning for the schema, such as a
field that no type declares, is reported once and then left out, so that nothing below it is
reported again.
-/

namespace Gateway

namespace Schema

/-- The definition of a field that can be selected on a type, meta fields included. -/
def selectable? (schema : Schema) (type field : Name) : Option FieldDefinition :=
  match schema.field? type field with
  | some definition => some definition
  | none =>
    if field = typenameField then
      if schema.isComposite type then some Builtin.typenameDefinition else none
    else if schema.root? .query = some type then
      [Builtin.schemaField, Builtin.typeField].find? (·.name = field)
    else none

/-- How a finding describes a type without fields of its values, if it is one. -/
def leafDescription? (schema : Schema) (type : Name) : Option String :=
  match schema.body? type with
  | some .scalar => some "scalar"
  | some (.enum _) => some "enum"
  | _ => none

mutual

/-- The part of a selection that the schema can describe, and the findings about the rest. -/
def keepSelection (schema : Schema) (parent : Name) :
    Selection → List Selection × List Diagnostic
  | .field ⟨alias?, name, arguments, directives, selections⟩ =>
    match schema.selectable? parent name with
    | none => ([], [.undefinedField parent name])
    | some definition =>
      let type := definition.type.innerName
      match schema.leafDescription? type, selections with
      | some described, _ :: _ => ([], [.selectionsOnLeaf described type])
      | _, selections =>
        let (kept, findings) := keepSelections schema type selections
        ([.field ⟨alias?, name, arguments, directives, kept⟩], findings)
  | .spread fragment directives => ([.spread fragment directives], [])
  | .inline none directives selections =>
    let (kept, findings) := keepSelections schema parent selections
    ([.inline none directives kept], findings)
  | .inline (some condition) directives selections =>
    if schema.hasType condition then
      let (kept, findings) := keepSelections schema condition selections
      ([.inline (some condition) directives kept], findings)
    else ([], [.undefinedInlineCondition condition])

/-- The parts of selections that the schema can describe, and the findings about the rest. -/
def keepSelections (schema : Schema) (parent : Name) :
    List Selection → List Selection × List Diagnostic
  | [] => ([], [])
  | selection :: rest =>
    let (kept, findings) := keepSelection schema parent selection
    let (keptRest, findingsRest) := keepSelections schema parent rest
    (kept ++ keptRest, findings ++ findingsRest)

end

end Schema

/-- The definitions of a document that are kept, and the findings about the rest. -/
structure KeptDocument where
  /-- The operations. -/
  operations : List Operation := []
  /-- The fragments by name. -/
  fragments : Entries Fragment := []
  /-- Whether a second anonymous operation has been reported. -/
  severalAnonymous : Bool := false
  /-- The findings. -/
  findings : List Diagnostic := []

namespace KeptDocument

/-- Adds findings. -/
def report (kept : KeptDocument) (findings : List Diagnostic) : KeptDocument :=
  { kept with findings := kept.findings ++ findings }

/-- Adds an operation that can be told from those before it. -/
def keepOperation (kept : KeptDocument) (schema : Schema) (operation : Operation) :
    KeptDocument :=
  match schema.root? operation.kind with
  | none => kept.report [.undefinedRootOperation operation.kind]
  | some root =>
    let (selections, findings) := schema.keepSelections root operation.selections
    { kept.report findings with
      operations := kept.operations ++ [{ operation with selections }] }

/-- Adds an operation with a name; the names of operations are distinct. -/
def addNamed (kept : KeptDocument) (schema : Schema) (name : Name) (operation : Operation) :
    KeptDocument :=
  let kept :=
    if kept.operations.any (·.name?.isNone) then kept.report [.ambiguousAnonymousOperation]
    else kept
  if kept.operations.any (·.name? = some name) then kept.report [.operationDefinedTwice name]
  else kept.keepOperation schema operation

/-- Adds an operation without name; such an operation has to be alone. -/
def addAnonymous (kept : KeptDocument) (schema : Schema) (operation : Operation) :
    KeptDocument :=
  if kept.operations.any (·.name?.isNone) then
    let kept :=
      if kept.severalAnonymous then kept else kept.report [.ambiguousAnonymousOperation]
    { kept.report [.ambiguousAnonymousOperation] with severalAnonymous := true }
  else if kept.operations.isEmpty then kept.keepOperation schema operation
  else kept.report [.ambiguousAnonymousOperation]

/-- Adds an operation. -/
def addOperation (kept : KeptDocument) (schema : Schema) (operation : Operation) :
    KeptDocument :=
  match operation.name? with
  | some name => kept.addNamed schema name operation
  | none => kept.addAnonymous schema operation

/-- Adds a fragment. -/
def addFragment (kept : KeptDocument) (schema : Schema) (fragment : Fragment) : KeptDocument :=
  if kept.fragments.contains fragment.name then
    kept.report [.fragmentDefinedTwice fragment.name]
  else if schema.hasType fragment.condition then
    let (selections, findings) := schema.keepSelections fragment.condition fragment.selections
    { kept.report findings with
      fragments := kept.fragments.insert fragment.name { fragment with selections } }
  else kept.report [.undefinedFragmentCondition fragment.condition fragment.name]

/-- How a finding describes a kind of types. -/
def describeBody : TypeBody → String
  | .scalar => "a scalar type"
  | .object .. => "an object type"
  | .interface .. => "an interface type"
  | .union _ => "a union type"
  | .enum _ => "an enum type"
  | .input _ => "an input object type"

/-- How a finding describes a definition of a type system. -/
def describe : TypeSystemDefinition → String
  | .schema _ => "a schema definition"
  | .type type => describeBody type.body ++ " definition"
  | .directive _ => "a directive definition"
  | .schemaExtension _ => "a schema extension"
  | .typeExtension type => describeBody type.body ++ " extension"

/-- Adds a definition. -/
def addDefinition (schema : Schema) (kept : KeptDocument) : Definition → KeptDocument
  | .operation operation => kept.addOperation schema operation
  | .fragment fragment => kept.addFragment schema fragment
  | .typeSystem definition => kept.report [.typeSystemDefinition (describe definition)]

/-- The part of a document that a schema can describe. -/
def ofDocument (schema : Schema) (document : Document) : KeptDocument :=
  document.foldl (addDefinition schema) {}

end KeptDocument

end Gateway
