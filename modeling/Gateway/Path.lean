import Gateway.Json.Basic

/-!
# Response paths

A path leads from a value into its parts, through object keys and list indices. The empty path
designates the value itself.
-/

namespace Gateway

/-- One step of a path. -/
inductive Segment
  | index (position : Nat)
  | key (name : String)
  deriving DecidableEq, Repr, Inhabited

namespace Segment

/-- The text of a segment: the index in decimal, or the key itself. -/
def text : Segment → String
  | .index position => toString position
  | .key name => name

/-- The key of a segment that addresses a field of an object. -/
def asKey? : Segment → Option String
  | .key name => some name
  | .index _ => none

/-- An index is written as a number, a key as a string. -/
def toJson : Segment → Json
  | .index position => .int position
  | .key name => .string name

/-- Reads a segment: a natural number or a string. -/
def ofJson? : Json → Option Segment
  | .int n => if 0 ≤ n then some (.index n.toNat) else none
  | .string name => some (.key name)
  | _ => none

end Segment

/-- The segments of a path, outermost first. -/
abbrev Path := List Segment

namespace Path

/-- Each segment after a slash. -/
def text (path : Path) : String :=
  String.join (path.map fun segment => "/" ++ segment.text)

/-- The path that continues with one more segment. -/
def join (path : Path) (segment : Segment) : Path :=
  path ++ [segment]

/-- The path relative to the child that the first segment designates. -/
def relative (path : Path) : Path :=
  path.drop 1

/-- The list of the segments. -/
def toJson (path : Path) : Json :=
  .array (path.map Segment.toJson)

/-- Reads a list of segments. -/
def ofJson? : Json → Option Path
  | .array items => items.mapM Segment.ofJson?
  | _ => none

end Path

end Gateway
