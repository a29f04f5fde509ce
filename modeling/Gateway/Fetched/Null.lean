import Gateway.Fetched.Value

/-!
# Positions without data

The value of a position that holds no data is made of the errors reported for it. An error about the
position itself leaves no value; errors about its children build an object, or a list when all
children are list items.
-/

namespace Gateway

/-- Adds an error to the group of a child, a new one at the end if there is none. -/
def addToGroup (child : Segment) (error : GraphError) :
    List (Segment × List GraphError) → List (Segment × List GraphError)
  | [] => [(child, [error])]
  | (other, errors) :: rest =>
    if other = child then (other, errors ++ [error]) :: rest
    else (other, errors) :: addToGroup child error rest

/-- The errors about children by child, relative to it; errors about the value itself are left
out. -/
def errorsByChild (errors : List GraphError) : List (Segment × List GraphError) :=
  errors.foldl (fun groups error =>
    match error.firstSegment? with
    | some child => addToGroup child error.relativeToChild groups
    | none => groups) []

/-- The errors about one child, relative to it. -/
def errorsOfChild (child : Segment) (errors : List GraphError) : List GraphError :=
  (errors.filter fun error => error.firstSegment? = some child).map GraphError.relativeToChild

/-- The errors about the value itself. -/
def ownErrors (errors : List GraphError) : List GraphError :=
  errors.filter fun error => error.firstSegment?.isNone

/-- The length of the longest path. -/
def longestPath (errors : List GraphError) : Nat :=
  (errors.map fun error => (error.path.getD []).length).foldr max 0

namespace FetchedValue

/-- Whether a child is a field. -/
def isKey : Segment → Bool
  | .key _ => true
  | .index _ => false

/-- The groups of list items by index. -/
def itemGroups (groups : List (Segment × List GraphError)) : List (Nat × List GraphError) :=
  (groups.filterMap fun
    | (.index position, errors) => some (position, errors)
    | (.key _, _) => none).mergeSort fun a b => decide (a.1 ≤ b.1)

/-- The value of a position without data whose errors have paths up to the given length. -/
def ofErrorsWithin (owner : String) : Nat → List GraphError → FetchedValue
  | _, [] => .null
  | 0, errors => .error (FetchedError.ofErrors errors)
  | fuel + 1, errors =>
    if !(ownErrors errors).isEmpty then .error (FetchedError.ofErrors errors)
    else
      let groups := errorsByChild errors
      if groups.any fun group => isKey group.1 then
        .object {
          fields := Entries.ofPairs <| groups.map fun group =>
            (group.1.text, ofErrorsWithin owner fuel group.2)
          errors, owner }
      else
        .list ((itemGroups groups).map fun group => ofErrorsWithin owner fuel group.2)

/-- The value of a position without data. -/
def ofErrors (owner : String) (errors : List GraphError) : FetchedValue :=
  ofErrorsWithin owner (longestPath errors) errors

end FetchedValue

end Gateway
