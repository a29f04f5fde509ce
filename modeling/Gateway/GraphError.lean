import Gateway.Path
import Gateway.Json.Printer

/-!
# Errors of a response

An error has a message, positions in the document, the path of the value that it concerns and free
extensions. While a result is reconstructed the path is relative to the value that holds the error.
-/

namespace Gateway

/-- A position in a document. -/
structure Location where
  /-- The line, from one. -/
  line : UInt32
  /-- The column, from one. -/
  column : UInt32
  deriving DecidableEq, Repr

/-- An error reported for a value of a response. -/
structure GraphError where
  /-- What went wrong. -/
  message : String := ""
  /-- The positions in the document, if known. -/
  locations : List Location := []
  /-- The value that failed; absent when the error is not about one value. -/
  path : Option Path := none
  /-- Further data, such as a code. -/
  extensions : Entries Json := []
  deriving DecidableEq, Inhabited

namespace GraphError

/-- An error that has only a message. -/
def ofMessage (message : String) : GraphError :=
  { message }

/-- Adds a code to the extensions, unless they hold one already. -/
def withCode (error : GraphError) (code : String) : GraphError :=
  if error.extensions.contains "code" then error
  else { error with extensions := error.extensions.insert "code" (.string code) }

/-- The code in the extensions, when it is a text or a number. -/
def code? (error : GraphError) : Option String :=
  match error.extensions.get? "code" with
  | some (.string text) => some text
  | some (.int n) => some (Json.int n).render
  | some (.float x) => some (Json.float x).render
  | _ => none

/-- The error with another path. -/
def withPath (error : GraphError) (path : Option Path) : GraphError :=
  { error with path }

/-- The child of the current value that the error is about; none if it is about the value itself. -/
def firstSegment? (error : GraphError) : Option Segment :=
  error.path.bind List.head?

/-- The error as seen from the child that it is about. -/
def relativeToChild (error : GraphError) : GraphError :=
  error.withPath (error.path.map Path.relative)

/-- The error as seen from a value that holds this one at a position. -/
def under (error : GraphError) (position : Path) : GraphError :=
  error.withPath (some (position ++ error.path.getD []))

end GraphError

/-- The messages of several errors, one a line. -/
def joinMessages (errors : List GraphError) : String :=
  "\n".intercalate (errors.map GraphError.message)

/-! ## Encoding -/

namespace Location

/-- The encoding of a location. -/
def toJson (location : Location) : Json :=
  .object [("line", .int location.line.toNat), ("column", .int location.column.toNat)]

/-- Reads a 32-bit natural number. -/
def word? : Json → Option UInt32
  | .int n => if 0 ≤ n ∧ n < Int.pow 2 32 then some (UInt32.ofNat n.toNat) else none
  | _ => none

/-- Reads a location; both members are needed, and a list holds them in order. -/
def ofJson? : Json → Option Location
  | .object members => do
    let line ← Entries.get? members "line"
    let column ← Entries.get? members "column"
    return ⟨← word? line, ← word? column⟩
  | .array [line, column] => do return ⟨← word? line, ← word? column⟩
  | _ => none

end Location

namespace GraphError

/-- The encoding of an error: what is empty or absent is left out. -/
def toJson (error : GraphError) : Json :=
  .object <|
    [("message", .string error.message)]
    ++ (if error.locations.isEmpty then []
        else [("locations", .array (error.locations.map Location.toJson))])
    ++ (match error.path with
        | none => []
        | some path => [("path", path.toJson)])
    ++ (if error.extensions.isEmpty then [] else [("extensions", .object error.extensions)])

/-- Reads a message. -/
def readMessage : Json → Option String
  | .string text => some text
  | _ => none

/-- Reads a list of locations. -/
def readLocations : Json → Option (List Location)
  | .array items => items.mapM Location.ofJson?
  | _ => none

/-- Reads a path that may be null. -/
def readPath : Json → Option (Option Path)
  | .null => some none
  | json => (Path.ofJson? json).map some

/-- Reads an object. -/
def readObject : Json → Option (Entries Json)
  | .object members => some members
  | _ => none

end GraphError

/-- Reads an optional part with a default for its absence. -/
def readPart {α : Type} (part : Option Json) (absent : α) (read : Json → Option α) : Option α :=
  match part with
  | none => some absent
  | some json => read json

/-- Assembles an error from its optional parts. -/
def GraphError.ofParts? (message locations path extensions : Option Json) : Option GraphError := do
  return {
    message := ← readPart message "" readMessage
    locations := ← readPart locations [] readLocations
    path := ← readPart path none readPath
    extensions := ← readPart extensions [] readObject }

/-- Reads an error: every part is optional, and a list holds the parts in order. -/
def GraphError.ofJson? : Json → Option GraphError
  | .object members =>
    ofParts? (Entries.get? members "message") (Entries.get? members "locations")
      (Entries.get? members "path") (Entries.get? members "extensions")
  | .array items =>
    if items.length ≤ 4 then ofParts? items[0]? items[1]? items[2]? items[3]? else none
  | _ => none

end Gateway
