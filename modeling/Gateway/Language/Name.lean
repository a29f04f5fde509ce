/-!
# Names

Names of types, fields, arguments, variables and fragments: letters, digits and underscores, not
starting with a digit.
-/

namespace Gateway

/-- The text of a name. -/
abbrev Name := String

namespace Name

/-- Whether a name may start with the character. -/
def isStart (c : Char) : Bool :=
  c = '_' || c.isAlpha

/-- Whether a name may go on with the character. -/
def isContinue (c : Char) : Bool :=
  isStart c || c.isDigit

/-- Whether a text is a name. -/
def isValid (text : String) : Bool :=
  match text.toList with
  | [] => false
  | c :: rest => isStart c && rest.all isContinue

end Name

end Gateway
