import Gateway.Language.Syntax
import Gateway.Json.Printer

/-!
# Printing documents

Documents are printed with one selection a line, indented by two spaces, and a blank line between
definitions. Values, arguments and variables stay on one line, with strings in quotes. In a type
system the default values of input fields and of arguments on lines of their own are laid out on
several lines, and descriptions are block strings where a block string can hold them.
-/

namespace Gateway

/-- The four upper-case hexadecimal digits of a code unit. -/
def upperHex4 (n : Nat) : String :=
  (Json.hex4 n).toUpper

/-- A character inside a string: quotes, backslashes and control characters other than the tab are
escaped. -/
def escapeCharacter (c : Char) : String :=
  match c with
  | '"' => "\\\""
  | '\\' => "\\\\"
  | '\n' => "\\n"
  | '\r' => "\\r"
  | '\t' => "\t"
  | '\x08' => "\\b"
  | '\x0c' => "\\f"
  | c => if c.toNat < 0x20 then "\\u" ++ upperHex4 c.toNat else String.singleton c

/-- A string in double quotes. -/
def quoteString (text : String) : String :=
  "\"" ++ String.join (text.toList.map escapeCharacter) ++ "\""

/-- Texts in braces. -/
def braced (text : String) : String :=
  "\x7b" ++ text ++ "\x7d"

/-- The text of a type. -/
def TypeRef.print : TypeRef → String
  | .named name => name
  | .nonNullNamed name => name ++ "!"
  | .list item => "[" ++ item.print ++ "]"
  | .nonNullList item => "[" ++ item.print ++ "]!"

namespace Literal

mutual

/-- The text of a value. -/
def print : Literal → String
  | .null => "null"
  | .enum name => name
  | .var name => "$" ++ name
  | .string text => quoteString text
  | .float text => text
  | .int text => text
  | .boolean true => "true"
  | .boolean false => "false"
  | .list items => "[" ++ ", ".intercalate (printItems items) ++ "]"
  | .object fields => braced (", ".intercalate (printFields fields))

/-- The texts of items. -/
def printItems : List Literal → List String
  | [] => []
  | item :: rest => print item :: printItems rest

/-- The texts of fields. -/
def printFields : List (Name × Literal) → List String
  | [] => []
  | (name, item) :: rest => (name ++ ": " ++ print item) :: printFields rest

end

end Literal

/-! ## Block strings -/

/-- The start of a line at a depth. -/
def indentation (depth : Nat) : String :=
  "".pushn ' ' (2 * depth)

/-- Whether a block string can hold a text unchanged: all characters can stand in it, the first and
the last line are not blank, and some line is not indented. -/
def isBlockText (text : String) : Bool :=
  let isPlain (c : Char) : Bool := decide (0x20 ≤ c.toNat) || c = '\t' || c = '\n'
  let isBlank (line : List Char) : Bool := line.all fun c => c = ' ' || c = '\t'
  let lines := splitLines text.toList
  text.toList.all isPlain
    && !lines.head?.any isBlank && !lines.getLast?.any isBlank
    && lines.any fun line => !(line.take 1).all fun c => c = ' ' || c = '\t'
where
  /-- The lines of a text. -/
  splitLines : List Char → List (List Char)
    | [] => [[]]
    | c :: rest =>
      if c = '\n' then [] :: splitLines rest
      else
        match splitLines rest with
        | [] => [[c]]
        | line :: lines => (c :: line) :: lines

/-- The most bytes of a block string on one line. -/
def maxBlockLine : Nat := 70

/-- A block string whose closing quotes are at the depth. A short text without line breaks stands
between the quotes on one line, unless it ends with a quote or a backslash. -/
def blockString (depth : Nat) (text : String) : String :=
  let quotes := "\"\"\""
  let isShort := !text.contains '\n' && text.utf8ByteSize ≤ maxBlockLine
    && !text.endsWith "\"" && !text.endsWith "\\"
  let escaped := text.replace quotes ("\\" ++ quotes)
  if isShort then quotes ++ escaped ++ quotes
  else
    let lines := (escaped.splitOn "\n").map fun line =>
      if line.isEmpty then "\n" else "\n" ++ indentation depth ++ line
    quotes ++ String.join lines ++ "\n" ++ indentation depth ++ quotes

/-- Texts between marks on lines of their own, each ended by a comma, where the closing mark is at
the depth. -/
def commaLines (depth : Nat) (opening closing : String) (texts : List String) : String :=
  if texts.isEmpty then opening ++ closing
  else
    let lines := texts.map fun text => indentation (depth + 1) ++ text ++ ",\n"
    opening ++ "\n" ++ String.join lines ++ indentation depth ++ closing

namespace Literal

mutual

/-- The text of a value laid out on lines, where the last line is at the depth. -/
def printLines (depth : Nat) : Literal → String
  | .string text =>
    if text.contains '\n' && isBlockText text then blockString depth text else quoteString text
  | .list items => commaLines depth "[" "]" (printLinesOfItems (depth + 1) items)
  | .object fields => commaLines depth "\x7b" "\x7d" (printLinesOfFields (depth + 1) fields)
  | value => value.print

/-- The texts of items laid out on lines. -/
def printLinesOfItems (depth : Nat) : List Literal → List String
  | [] => []
  | item :: rest => printLines depth item :: printLinesOfItems depth rest

/-- The texts of fields laid out on lines. -/
def printLinesOfFields (depth : Nat) : List (Name × Literal) → List String
  | [] => []
  | (name, item) :: rest =>
    (name ++ ": " ++ printLines depth item) :: printLinesOfFields depth rest

end

end Literal

/-! ## Operations and fragments -/

/-- The text of an argument. -/
def Argument.print (argument : Argument) : String :=
  argument.name ++ ": " ++ argument.value.print

/-- Texts in parentheses, or nothing when there are none. -/
def parenthesized (texts : List String) : String :=
  if texts.isEmpty then "" else "(" ++ ", ".intercalate texts ++ ")"

/-- The text of a directive. -/
def Directive.print (directive : Directive) : String :=
  "@" ++ directive.name ++ parenthesized (directive.arguments.map Argument.print)

/-- The texts of directives, each behind a space. -/
def printDirectives (directives : List Directive) : String :=
  String.join (directives.map fun directive => " " ++ directive.print)

/-- The text of a default value. -/
def printDefault : Option Literal → String
  | none => ""
  | some value => " = " ++ value.print

/-- The text of a variable definition. -/
def VariableDefinition.print (definition : VariableDefinition) : String :=
  "$" ++ definition.name ++ ": " ++ definition.type.print ++ printDefault definition.default?
    ++ printDirectives definition.directives

/-- Lines between braces, where the closing brace is at the depth; the braces alone when there are
no lines. -/
def block (depth : Nat) (lines : List String) : String :=
  if lines.isEmpty then "\x7b\x7d"
  else
    let inner := String.join (lines.map fun line => indentation (depth + 1) ++ line ++ "\n")
    "\x7b\n" ++ inner ++ indentation depth ++ "\x7d"

namespace Selection

mutual

/-- The text of a selection whose first line is at the depth. -/
def print (depth : Nat) : Selection → String
  | .field ⟨alias?, name, arguments, directives, selections⟩ =>
    let label := match alias? with
      | none => ""
      | some key => key ++ ": "
    let nested := match selections with
      | [] => ""
      | _ => " " ++ block depth (printAll (depth + 1) selections)
    label ++ name ++ parenthesized (arguments.map Argument.print) ++ printDirectives directives
      ++ nested
  | .spread fragment directives => "..." ++ fragment ++ printDirectives directives
  | .inline condition directives selections =>
    let condition := match condition with
      | none => ""
      | some name => " on " ++ name
    "..." ++ condition ++ printDirectives directives ++ " "
      ++ block depth (printAll (depth + 1) selections)

/-- The texts of selections at the depth. -/
def printAll (depth : Nat) : List Selection → List String
  | [] => []
  | selection :: rest => print depth selection :: printAll depth rest

end

end Selection

/-- The text of a selection set with its braces. -/
def printSelections (selections : List Selection) : String :=
  block 0 (Selection.printAll 1 selections)

/-- The text of an operation. The keyword is left out only at the start of a document, before an
anonymous query without variables and directives. -/
def Operation.print (operation : Operation) (isFirst : Bool) : String :=
  let isShort := isFirst && operation.kind = .query && operation.name?.isNone
    && operation.vars.isEmpty && operation.directives.isEmpty
  let head :=
    if isShort then ""
    else
      let name := match operation.name? with
        | none => ""
        | some name => " " ++ name
      operation.kind.keyword ++ name
        ++ parenthesized (operation.vars.map VariableDefinition.print)
        ++ printDirectives operation.directives ++ " "
  head ++ printSelections operation.selections

/-- The text of a fragment definition. -/
def Fragment.print (fragment : Fragment) : String :=
  "fragment " ++ fragment.name ++ " on " ++ fragment.condition
    ++ printDirectives fragment.directives ++ " " ++ printSelections fragment.selections

/-! ## Type systems -/

/-- The text of a description on lines of its own. -/
def printDescription (depth : Nat) : Option String → String
  | none => ""
  | some text =>
    (if isBlockText text then blockString depth text else quoteString text) ++ "\n"
      ++ indentation depth

/-- The text of an argument or an input field whose first line is at the depth. -/
def InputValue.print (depth : Nat) (value : InputValue) : String :=
  let initial := match value.default? with
    | none => ""
    | some literal => " = " ++ literal.printLines depth
  printDescription depth value.description? ++ value.name ++ ": " ++ value.type.print
    ++ initial ++ printDirectives value.directives

/-- The text of an argument on one line, without description and directives. -/
def InputValue.printInline (value : InputValue) : String :=
  value.name ++ ": " ++ value.type.print ++ printDefault value.default?

/-- The text of declared arguments behind a name at the depth: if some have a description or
directives, all stand on lines of their own, and otherwise on one line. -/
def printArguments (depth : Nat) (arguments : List InputValue) : String :=
  if arguments.any fun argument => argument.description?.isSome || !argument.directives.isEmpty then
    commaLines depth "(" ")" (arguments.map (InputValue.print (depth + 1)))
  else parenthesized (arguments.map InputValue.printInline)

/-- The text of a field definition. -/
def FieldDefinition.print (field : FieldDefinition) : String :=
  printDescription 1 field.description? ++ field.name ++ printArguments 1 field.arguments ++ ": "
    ++ field.type.print ++ printDirectives field.directives

/-- The text of the interfaces that a type implements. -/
def printInterfaces (interfaces : List Name) : String :=
  if interfaces.isEmpty then "" else " implements " ++ " & ".intercalate interfaces

/-- A block behind a space, or nothing when there are no lines. -/
def optionalBlock (lines : List String) : String :=
  if lines.isEmpty then "" else " " ++ block 0 lines

/-- The text of a type definition. -/
def TypeDefinition.print (type : TypeDefinition) : String :=
  let directives := printDirectives type.directives
  match type.body with
  | .scalar => "scalar " ++ type.name ++ directives
  | .object interfaces fields =>
    "type " ++ type.name ++ printInterfaces interfaces ++ directives
      ++ optionalBlock (fields.map FieldDefinition.print)
  | .interface interfaces fields =>
    "interface " ++ type.name ++ printInterfaces interfaces ++ directives
      ++ optionalBlock (fields.map FieldDefinition.print)
  | .union members =>
    "union " ++ type.name ++ directives
      ++ if members.isEmpty then "" else " = " ++ " | ".intercalate members
  | .enum values =>
    "enum " ++ type.name ++ directives ++ optionalBlock (values.map fun value =>
      printDescription 1 value.description? ++ value.name ++ printDirectives value.directives)
  | .input fields =>
    "input " ++ type.name ++ directives ++ optionalBlock (fields.map (InputValue.print 1))

/-- The text of a directive definition. -/
def DirectiveDefinition.print (directive : DirectiveDefinition) : String :=
  "directive @" ++ directive.name ++ printArguments 0 directive.arguments
    ++ (if directive.repeatable then " repeatable" else "") ++ " on "
    ++ " | ".intercalate directive.locations

/-- The lines of root types. -/
def SchemaDefinition.rootLines (schema : SchemaDefinition) : List String :=
  schema.roots.map fun root => root.1.keyword ++ ": " ++ root.2

/-- The text of a schema definition, which has braces even without root types. -/
def SchemaDefinition.print (schema : SchemaDefinition) : String :=
  "schema" ++ printDirectives schema.directives ++ " " ++ block 0 schema.rootLines

/-- The text of a schema extension. -/
def SchemaDefinition.printExtension (schema : SchemaDefinition) : String :=
  "extend schema" ++ printDirectives schema.directives ++ optionalBlock schema.rootLines

/-- The text of a definition of a type system. -/
def TypeSystemDefinition.print : TypeSystemDefinition → String
  | .schema definition => printDescription 0 definition.description? ++ definition.print
  | .type definition => printDescription 0 definition.description? ++ definition.print
  | .directive definition => printDescription 0 definition.description? ++ definition.print
  | .schemaExtension extension => extension.printExtension
  | .typeExtension extension => "extend " ++ extension.print

/-! ## Documents -/

/-- The text of a definition. -/
def Definition.print (isFirst : Bool) : Definition → String
  | .operation definition => definition.print isFirst
  | .fragment definition => definition.print
  | .typeSystem definition => definition.print

/-- The text of a document, ending with a line end unless it is empty. -/
def Document.print : Document → String
  | [] => ""
  | first :: rest =>
    "\n".intercalate ((first.print true ++ "\n") :: rest.map fun definition =>
      definition.print false ++ "\n")

/-- The text of a selection set printed as a document of its own. -/
def selectionSetKey (selections : List Selection) : String :=
  Document.print [.operation { selections }]

end Gateway
