import Gateway.GraphError

/-!
# Responses

The answer to a request: data, errors and extensions, all optional. The encoding leaves out what is
empty, so data that are an explicit null read back as no data.
-/

namespace Gateway

/-- The answer to a request. -/
structure Response where
  /-- The data by response key; absent when the request failed as a whole. -/
  data : Option Json := none
  /-- The errors, with paths from the root of the data. -/
  errors : List GraphError := []
  /-- Further data. -/
  extensions : Entries Json := []
  deriving DecidableEq, Inhabited

namespace Response

/-- A response that only reports errors. -/
def ofErrors (errors : List GraphError) : Response :=
  { errors }

/-- The encoding of a response: what is empty or absent is left out. -/
def toJson (response : Response) : Json :=
  .object <|
    (match response.data with
      | none => []
      | some data => [("data", data)])
    ++ (if response.errors.isEmpty then []
        else [("errors", .array (response.errors.map GraphError.toJson))])
    ++ (if response.extensions.isEmpty then [] else [("extensions", .object response.extensions)])

/-- Reads data, where null means none. -/
def readData : Json → Option (Option Json)
  | .null => some none
  | json => some (some json)

/-- Reads a list of errors. -/
def readErrors : Json → Option (List GraphError)
  | .array items => items.mapM GraphError.ofJson?
  | _ => none

/-- Assembles a response from its optional parts. -/
def ofParts? (data errors extensions : Option Json) : Option Response := do
  return {
    data := ← readPart data none readData
    errors := ← readPart errors [] readErrors
    extensions := ← readPart extensions [] GraphError.readObject }

/-- Reads a response: every part is optional, and a list holds the parts in order. -/
def ofJson? : Json → Option Response
  | .object members =>
    ofParts? (Entries.get? members "data") (Entries.get? members "errors")
      (Entries.get? members "extensions")
  | .array items => if items.length ≤ 3 then ofParts? items[0]? items[1]? items[2]? else none
  | _ => none

end Response

end Gateway
