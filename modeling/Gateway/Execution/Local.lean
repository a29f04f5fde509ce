import Gateway.Execution.Values
import Gateway.Request.Basic
import Gateway.Response
import Gateway.Validation.Document

/-!
# Local execution

A request is executed against a schema, starting from a root value. What stops it altogether is
reported in a response without data.
-/

namespace Gateway.Execution

/-- Why a request is not executed. -/
inductive Refusal
  | missingRoot
  | invalid (findings : List Diagnostic)
  | noOperation
  | severalOperations
  | subscription
  | badVariable (text : String)

namespace Refusal

/-- The errors that report a refusal. -/
def errors : Refusal → List GraphError
  | .missingRoot =>
    [(GraphError.ofMessage "local execution requires a root value").withCode "MISSING_ROOT_VALUE"]
  | .invalid findings => findings.map fun finding => GraphError.ofMessage finding.message
  | .noOperation => [GraphError.ofMessage "no operation to execute"]
  | .severalOperations =>
    [GraphError.ofMessage <|
      "Ambiguous request: multiple operations but no specified \x60operationName\x60"]
  | .subscription =>
    [(GraphError.ofMessage "subscriptions cannot be executed locally").withCode
      "SUBSCRIPTION_NOT_SUPPORTED"]
  | .badVariable text => [GraphError.ofMessage text]

end Refusal

/-- The root fields of an execution are resolved by its root value. -/
def rootResolver (scope : Scope) (root : RootValue) (field : Name) (arguments : Entries Json) :
    Except String Completer := do
  return complete scope (← root.answer field arguments)

/-- Executes an operation from its root type. -/
def executeOperation (scope : Scope) (root : RootValue) (rootType : Name)
    (operation : Operation) : Response :=
  let fields := scope.fieldsOf rootType operation.selections
  let (members?, errors) :=
    (executeFields scope rootType (rootResolver scope root) fields []).run []
  { data := some ((members?.map Json.object).getD .null), errors }

/-- The only operation of a document. -/
def onlyOperation (document : Document) : Except Refusal Operation :=
  match document.operations with
  | [operation] => .ok operation
  | [] => .error .noOperation
  | _ => .error .severalOperations

/-- Executes a request, or reports why it is not executed. -/
def execute? (schema : Schema) (root? : Option RootValue) (request : Request) :
    Except Refusal Response := do
  let some root := root? | throw .missingRoot
  let findings := schema.check request.document
  if !findings.isEmpty then throw (.invalid findings)
  let operation ← onlyOperation request.document
  if operation.kind = .subscription then throw .subscription
  let some rootType := schema.root? operation.kind | throw .noOperation
  match variableValues schema operation.vars request.vars with
  | .error text => throw (.badVariable text)
  | .ok vars =>
    let scope : Scope :=
      { schema, fragments := request.document.fragmentsByName, vars,
        includes := isIncludedLeniently }
    return executeOperation scope root rootType operation

/-- The response to a request that is executed locally. -/
def execute (schema : Schema) (root? : Option RootValue) (request : Request) : Response :=
  match execute? schema root? request with
  | .ok response => response
  | .error refusal => Response.ofErrors refusal.errors

end Gateway.Execution
