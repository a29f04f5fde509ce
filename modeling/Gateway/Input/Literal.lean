import Gateway.Json.Parser
import Gateway.Language.Syntax

/-!
# Literals as JSON values

The JSON value of a literal under given values of variables. An integer that does not fit in a
signed 64-bit word becomes the nearest double; numbers without a finite double have no value.
-/

namespace Gateway

/-- The double as a JSON value, when it is finite. -/
def Json.ofDouble? (x : Double) : Option Json :=
  if x.isFinite then some (.float x) else none

/-- The JSON value of an integer. -/
def Json.ofInt64? (n : Int) : Option Json :=
  if Json.fitsInt64 n then some (.int n)
  else Json.ofDouble? (Double.ofDecimal (decide (n < 0)) n.natAbs 0)

namespace Literal

/-- The JSON value of the text of an integer. -/
def intValue? (text : String) : Option Json :=
  text.toInt?.bind Json.ofInt64?

/-- The JSON value of the text of a number with a fraction or an exponent. -/
def floatValue? (text : String) : Option Json :=
  match Json.readNumber text.toList with
  | some (.float x, []) => Json.ofDouble? x
  | some (.int n, []) => Json.ofDouble? (Double.ofDecimal (decide (n < 0)) n.natAbs 0)
  | _ => none

mutual

/-- The JSON value of a literal, or nothing for a variable without value. Such a variable is null as
an item of a list and left out as a field of an object. -/
def toJson? (vars : Entries Json) : Literal → Option Json
  | .null => some .null
  | .boolean value => some (.bool value)
  | .enum name => some (.string name)
  | .string text => some (.string text)
  | .int text => intValue? text
  | .float text => floatValue? text
  | .var name => vars.get? name
  | .list items => some (.array (toJsonItems vars items))
  | .object fields => some (.object (toJsonFields vars [] fields))

/-- The JSON values of the items of a list. -/
def toJsonItems (vars : Entries Json) : List Literal → List Json
  | [] => []
  | item :: rest => (toJson? vars item).getD .null :: toJsonItems vars rest

/-- The JSON values of the fields of an object, behind those that are done. -/
def toJsonFields (vars : Entries Json) (done : Entries Json) :
    List (Name × Literal) → Entries Json
  | [] => done
  | (name, item) :: rest =>
    match toJson? vars item with
    | some json => toJsonFields vars (done.insert name json) rest
    | none => toJsonFields vars done rest

end

end Literal

end Gateway
