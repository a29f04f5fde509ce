import Gateway.Json.Basic
import Gateway.Decimal.Shortest

/-!
# Compact JSON text

Values are written without spaces, members in their own order. Doubles are written with the fewest
digits that read back, positionally while the decimal exponent is from -5 to 15.
-/

namespace Gateway.Json

/-- The four lower-case hexadecimal digits of a code unit. -/
def hex4 (n : Nat) : String :=
  let digits := Nat.toDigits 16 n
  String.ofList (List.replicate (4 - digits.length) '0' ++ digits)

/-- A character inside a string: quotes, backslashes and control characters are escaped. -/
def escape (c : Char) : String :=
  match c with
  | '"' => "\\\""
  | '\\' => "\\\\"
  | '\n' => "\\n"
  | '\r' => "\\r"
  | '\t' => "\\t"
  | '\x08' => "\\b"
  | '\x0c' => "\\f"
  | c => if c.toNat < 0x20 then "\\u" ++ hex4 c.toNat else String.singleton c

/-- A text in double quotes. -/
def quote (text : String) : String :=
  "\"" ++ String.join (text.toList.map escape) ++ "\""

/-- Where positional notation of doubles ends. -/
structure FloatFormat where
  /-- The least decimal exponent written positionally. -/
  minPositional : Int
  /-- The greatest decimal exponent written positionally. -/
  maxPositional : Int

/-- JSON doubles are positional from `0.00001` to below `1e+16`. -/
def floatFormat : FloatFormat := ⟨-5, 15⟩

/-- The text of a decimal: positional with a fraction part, or with a signed exponent. -/
def decimalText (format : FloatFormat) (d : Decimal) : String :=
  let digits := toString d.digits
  let exponent : Int := d.exponent + digits.length - 1
  if d.digits = 0 then "0.0"
  else if format.minPositional ≤ exponent ∧ exponent ≤ format.maxPositional then
    if d.exponent ≥ 0 then digits ++ "".pushn '0' d.exponent.toNat ++ ".0"
    else if exponent ≥ 0 then
      let whole := exponent.toNat + 1
      String.ofList (digits.toList.take whole) ++ "." ++ String.ofList (digits.toList.drop whole)
    else "0." ++ "".pushn '0' (-exponent - 1).toNat ++ digits
  else
    let mantissa := match digits.toList with
      | [] => ""
      | [c] => String.singleton c
      | c :: rest => String.singleton c ++ "." ++ String.ofList rest
    let sign := if exponent < 0 then "-" else "+"
    mantissa ++ "e" ++ sign ++ toString exponent.natAbs

/-- The text of a double; numbers that are not finite have no JSON text of their own. -/
def floatText (x : Double) : String :=
  if x.isFinite then
    (if x.isNegative then "-" else "") ++ decimalText floatFormat x.shortest
  else "null"

mutual

/-- The compact text of a value. -/
def render : Json → String
  | .null => "null"
  | .bool true => "true"
  | .bool false => "false"
  | .int n => toString n
  | .float x => floatText x
  | .string text => quote text
  | .array items => "[" ++ ",".intercalate (renderItems items) ++ "]"
  | .object members => "\x7b" ++ ",".intercalate (renderMembers members) ++ "\x7d"

/-- The texts of the items. -/
def renderItems : List Json → List String
  | [] => []
  | item :: rest => render item :: renderItems rest

/-- The texts of the members. -/
def renderMembers : List (String × Json) → List String
  | [] => []
  | (key, item) :: rest => (quote key ++ ":" ++ render item) :: renderMembers rest

end

end Gateway.Json
