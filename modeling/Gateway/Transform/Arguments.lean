import Gateway.Input.Serialize
import Gateway.Request.Basic
import Gateway.Request.Bindings
import Gateway.Schema.Basic

/-!
# Supplied arguments

Arguments that are supplied with a delegation are sent as variables of their own, in place of
arguments of the same name, as far as the target declares them.
-/

namespace Gateway.Transform

/-- Binds the supplied arguments that a field declares. -/
def bindSupplied (schema : Schema) (supplied : Entries Json) (declared : List InputValue)
    (bindings : Bindings) : Bindings :=
  declared.foldl (fun bindings argument =>
    match supplied.get? argument.name with
    | some value =>
      bindings.bind argument.name argument.type (schema.serializeInput? argument.type value)
    | none => bindings) bindings

/-- The variables of an operation while arguments are bound in its root fields. -/
structure BoundVariables where
  /-- The definitions by name. -/
  definitions : Entries VariableDefinition
  /-- The values of variables. -/
  values : Entries Json

/-- Binds the supplied arguments of a selection at the root. -/
def bindInSelection (schema : Schema) (supplied : Entries Json) (root : Name)
    (vars : BoundVariables) : Selection → BoundVariables × Selection
  | .field node =>
    match schema.field? root node.name with
    | some definition =>
      let bindings := bindSupplied schema supplied definition.arguments
        { arguments := Bindings.argumentsByName node.arguments
          definitions := vars.definitions, values := vars.values }
      (⟨bindings.definitions, bindings.values⟩,
        .field { node with arguments := bindings.arguments.values })
    | none => (vars, .field node)
  | selection => (vars, selection)

/-- Binds the supplied arguments of selections at the root, in order. -/
def bindInSelections (schema : Schema) (supplied : Entries Json) (root : Name) :
    BoundVariables → List Selection → BoundVariables × List Selection
  | vars, [] => (vars, [])
  | vars, selection :: rest =>
    let (vars, selection) := bindInSelection schema supplied root vars selection
    let (vars, rest) := bindInSelections schema supplied root vars rest
    (vars, selection :: rest)

/-- Binds the supplied arguments in an operation; the values of variables are shared by all
operations. -/
def bindInOperation (schema : Schema) (supplied : Entries Json) (values : Entries Json)
    (operation : Operation) : Entries Json × Operation :=
  match schema.root? operation.kind with
  | none => (values, operation)
  | some root =>
    let vars : BoundVariables :=
      ⟨Bindings.definitionsByName operation.vars, values⟩
    let (vars, selections) :=
      bindInSelections schema supplied root vars operation.selections
    (vars.values,
      { operation with vars := vars.definitions.values, selections })

/-- Binds the supplied arguments in all operations of a document. -/
def bindInDocument (schema : Schema) (supplied : Entries Json) :
    Entries Json → Document → Entries Json × Document
  | values, [] => (values, [])
  | values, .operation operation :: rest =>
    let (values, operation) := bindInOperation schema supplied values operation
    let (values, rest) := bindInDocument schema supplied values rest
    (values, .operation operation :: rest)
  | values, definition :: rest =>
    let (values, rest) := bindInDocument schema supplied values rest
    (values, definition :: rest)

/-- Sends supplied arguments as variables. -/
def addArguments (schema : Schema) (supplied : Entries Json) (request : Request) : Request :=
  let (vars, document) :=
    bindInDocument schema supplied request.vars request.document
  { document, vars }

end Gateway.Transform
