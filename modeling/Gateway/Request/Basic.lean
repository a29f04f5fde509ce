import Gateway.DelegationError
import Gateway.Language.Parser
import Gateway.Language.Printer

/-!
# Requests

A request is a document with values for the variables of its operation. Selection sets and fragments
of a configuration are read from documents of their own.
-/

namespace Gateway

/-- A document with the values of its variables. -/
structure Request where
  /-- The operations and fragments. -/
  document : Document
  /-- The values supplied for variables. -/
  vars : Entries Json := []
  deriving DecidableEq

/-- A request as it is sent. -/
def Request.toJson (request : Request) : Json :=
  .object [
    ("document", .string request.document.print), ("variables", .object request.vars)]

/-- What is reported in place of the positions of a syntax error. -/
def syntaxErrorText : String := "<syntax error>"

/-- Reads a request, without checking it against a schema. -/
def Request.parse (text : String) (vars : Entries Json) : Except DelegationError Request :=
  match Document.parse? text with
  | some document => .ok { document, vars }
  | none => .error (.invalidRequest syntaxErrorText)

/-- Reads a document of a configuration. -/
def parseConfigured (text : String) : Except DelegationError Document :=
  match Document.parse? text with
  | some document => .ok document
  | none => .error (.configuration syntaxErrorText)

/-- Reads a selection set: the selections of the first operation. -/
def parseSelectionSet (text : String) : Except DelegationError (List Selection) := do
  let document ← parseConfigured text
  match document.operations with
  | operation :: _ => return operation.selections
  | [] => throw (.configuration ("`" ++ text ++ "` is not a selection set"))

/-- Reads a fragment: the first one that is defined. -/
def parseFragment (text : String) : Except DelegationError Fragment := do
  let document ← parseConfigured text
  match document.fragments with
  | fragment :: _ => return fragment
  | [] => throw (.configuration ("`" ++ text ++ "` is not a fragment definition"))

end Gateway
