import Gateway.Language.Printer

/-!
# Diagnostics

What can be wrong with a document for a schema, and the wording of each finding.
-/

namespace Gateway

/-- A finding about a document. -/
inductive Diagnostic
  | emptyDocument
  | emptySelectionSet
  | emptySchemaDefinition
  | typeSystemDefinition (described : String)
  | ambiguousAnonymousOperation
  | operationDefinedTwice (name : Name)
  | fragmentDefinedTwice (name : Name)
  | undefinedRootOperation (kind : OperationKind)
  | undefinedFragmentCondition (type fragment : Name)
  | undefinedInlineCondition (type : Name)
  | selectionsOnLeaf (described type : Name)
  | undefinedField (type field : Name)
  | undefinedType (type : Name)
  | undefinedFragment (fragment : Name)
  | undefinedDirective (directive : Name)
  | undefinedVariable (name : Name)
  | undefinedArgument (argument coordinate : Name)
  | undefinedEnumValue (value type : Name)
  | undefinedInputField (field type : Name)
  | missingArgument (coordinate : String)
  | missingInputField (type field : Name)
  | missingSelections
  | repeatedArgument (argument : Name)
  | repeatedVariable (name : Name)
  | repeatedDirective (directive : Name)
  | unusedVariable (name : Name)
  | unusedFragment (fragment : Name)
  | recursiveFragment (fragment : Name)
  | deepFragment (fragment : Name)
  | deepSelections
  | variableOfOutputType (name : Name)
  | variableNotAllowed (name : Name) (type : TypeRef) (argument : Name) (expected : TypeRef)
  | wrongValue (expected : TypeRef) (value : Literal)
  | integerOutOfRange
  | floatOutOfRange
  | misplacedDirective (directive location : Name)
  | conditionNotComposite (fragment : Option Name)
  | fragmentNotApplicable (fragment : Option Name) (condition type : Name)
  | severalRootFields (operation : Option Name)
  | introspectionRootField (operation : Option Name)
  | conditionalRootField (operation : Option Name)
  | differentFields (key : Name)
  | differentTypes (key : Name)
  | differentArguments (field : Name)
  | deferLabelVariable
  | deferLabelRepeated (label : String)
  | deferOnRoot (kind : OperationKind)
  | deferInSubscription
  deriving DecidableEq, Repr

/-- How a finding describes the value of a literal. -/
def Literal.described : Literal → String
  | .null => "null"
  | .enum _ => "an enum"
  | .var _ => "a variable"
  | .string _ => "a string"
  | .float _ => "a float"
  | .int _ => "an integer"
  | .boolean _ => "a boolean"
  | .list _ => "a list"
  | .object _ => "an input object"

namespace Diagnostic

/-- A text between backquotes. -/
def quoted (text : String) : String := "`" ++ text ++ "`"

/-- How a finding names a fragment. -/
def fragmentLabel : Option Name → String
  | some name => "fragment " ++ quoted name
  | none => "inline fragment"

/-- How a finding names a subscription. -/
def subscriptionLabel : Option Name → String
  | some name => "subscription " ++ quoted name
  | none => "anonymous subscription"

/-- The wording of a finding. -/
def message : Diagnostic → String
  | emptyDocument => "syntax error: Unexpected <EOF>."
  | emptySelectionSet => "syntax error: expected at least one Selection in Selection Set"
  | emptySchemaDefinition => "syntax error: expected Root Operation Type Definition"
  | typeSystemDefinition described => "an executable document must not contain " ++ described
  | ambiguousAnonymousOperation =>
    "anonymous operation cannot be selected when the document contains other operations"
  | operationDefinedTwice name =>
    "the operation " ++ quoted name ++ " is defined multiple times in the document"
  | fragmentDefinedTwice name =>
    "the fragment " ++ quoted name ++ " is defined multiple times in the document"
  | undefinedRootOperation kind =>
    quoted kind.keyword ++ " root operation type is not defined"
  | undefinedFragmentCondition type fragment =>
    "type condition " ++ quoted type ++ " of fragment " ++ quoted fragment
      ++ " is not a type defined in the schema"
  | undefinedInlineCondition type =>
    "type condition " ++ quoted type
      ++ " of inline fragment is not a type defined in the schema"
  | selectionsOnLeaf described type =>
    "field selection of " ++ described ++ " type " ++ quoted type
      ++ " must not have subselections"
  | undefinedField type field =>
    "type " ++ quoted type ++ " does not have a field " ++ quoted field
  | undefinedType type => "cannot find type " ++ quoted type ++ " in this document"
  | undefinedFragment fragment =>
    "cannot find fragment " ++ quoted fragment ++ " in this document"
  | undefinedDirective directive =>
    "cannot find directive " ++ quoted ("@" ++ directive) ++ " in this document"
  | undefinedVariable name => "variable " ++ quoted ("$" ++ name) ++ " is not defined"
  | undefinedArgument argument coordinate =>
    "the argument " ++ quoted argument ++ " is not supported by " ++ quoted coordinate
  | undefinedEnumValue value type =>
    "value " ++ quoted value ++ " does not exist on " ++ quoted type
  | undefinedInputField field type =>
    "field " ++ quoted field ++ " does not exist on " ++ quoted type
  | missingArgument coordinate =>
    "the required argument " ++ quoted coordinate ++ " is not provided"
  | missingInputField type field =>
    "the required field " ++ quoted (type ++ "." ++ field) ++ " is not provided"
  | missingSelections => "interface, union and object types must have a subselection set"
  | repeatedArgument argument =>
    "the argument " ++ quoted argument ++ " is provided multiple times"
  | repeatedVariable name =>
    "the variable " ++ quoted ("$" ++ name) ++ " is declared multiple times"
  | repeatedDirective directive =>
    "non-repeatable directive " ++ directive ++ " can only be used once per location"
  | unusedVariable name => "unused variable: " ++ quoted ("$" ++ name)
  | unusedFragment fragment =>
    "fragment " ++ quoted fragment ++ " must be used in an operation"
  | recursiveFragment fragment => quoted fragment ++ " fragment cannot reference itself"
  | deepFragment fragment => quoted fragment ++ " contains too much nesting"
  | deepSelections => "too much recursion"
  | variableOfOutputType name =>
    quoted ("$" ++ name) ++ " variable must be of an input type"
  | variableNotAllowed name type argument expected =>
    "variable " ++ quoted ("$" ++ name) ++ " of type " ++ quoted type.print
      ++ " cannot be used for argument " ++ quoted argument ++ " of type "
      ++ quoted expected.print
  | wrongValue expected value =>
    "expected value of type " ++ expected.print ++ ", found " ++ value.described
  | integerOutOfRange => "int cannot represent non 32-bit signed integer value"
  | floatOutOfRange => "float cannot represent non-finite 64-bit floating point value"
  | misplacedDirective directive location =>
    directive ++ " directive is not supported for " ++ location ++ " location"
  | conditionNotComposite fragment =>
    fragmentLabel fragment ++ " must have a composite type in its type condition"
  | fragmentNotApplicable fragment condition type =>
    fragmentLabel fragment ++ " with type condition " ++ quoted condition
      ++ " cannot be applied to " ++ quoted type
  | severalRootFields operation =>
    subscriptionLabel operation ++ " can only have one root field"
  | introspectionRootField operation =>
    subscriptionLabel operation ++ " can not have an introspection field as a root field"
  | conditionalRootField operation =>
    subscriptionLabel operation ++ " can not specify @skip or @include on root fields"
  | differentFields key =>
    "cannot select different fields into the same alias " ++ quoted key
  | differentTypes key =>
    "operation must not select different types using the same name " ++ quoted key
  | differentArguments field =>
    "operation must not provide conflicting field arguments for the same name " ++ quoted field
  | deferLabelVariable =>
    quoted "@defer" ++ " label argument must be a static String, not a variable"
  | deferLabelRepeated label =>
    quoted "@defer" ++ " label " ++ quoted label ++ " is not unique within the document"
  | deferOnRoot kind =>
    quoted "@defer" ++ " is not allowed on root selections of " ++ kind.keyword ++ " operations"
  | deferInSubscription =>
    quoted "@defer" ++ " in a subscription operation must be disabled with an " ++ quoted "if"
      ++ " argument"

end Diagnostic

end Gateway
