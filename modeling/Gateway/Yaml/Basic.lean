import Gateway.Entries

/-!
# YAML trees

The part of YAML that configurations are written in: scalars, sequences, and mappings whose keys are
scalars.
-/

namespace Gateway

/-- What the writing of a scalar says about whether it can be a null. -/
inductive ScalarForm
  /-- Written without quotes and without a tag: the text decides. -/
  | plain
  /-- Written with quotes or with some tag: always a text. -/
  | text
  /-- Written without quotes behind the tag of nulls: nothing but a null. -/
  | null
  deriving DecidableEq, Inhabited

/-- A YAML tree. -/
inductive Yaml
  /-- A text with the form in which it is written. -/
  | scalar (text : String) (form : ScalarForm)
  /-- The items of a sequence. -/
  | sequence (items : List Yaml)
  /-- The entries of a mapping, in order; keys can be repeated. -/
  | mapping (entries : List (String × Yaml))
  deriving Inhabited

namespace Yaml

/-- What stands where nothing is written. -/
def empty : Yaml := .scalar "~" .plain

/-- Whether a text is a spelling of null. -/
def isNullText (text : String) : Bool :=
  text = "~" || text = "null"

/-- The text of a scalar, however it is written. -/
def asText? : Yaml → Option String
  | .scalar text _ => some text
  | _ => none

/-- The text of a scalar, or nothing if it is a null. -/
def optionalText? : Yaml → Option (Option String)
  | .scalar text .text => some (some text)
  | .scalar text .plain => some (if isNullText text then none else some text)
  | .scalar text .null => if isNullText text then some none else none
  | _ => none

end Yaml

end Gateway
