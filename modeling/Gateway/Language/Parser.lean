import Gateway.Language.Syntax
import Gateway.Language.Token

/-!
# Reading documents

A reader for the grammar of documents over tokens. A reader takes the tokens that are left and gives
what it read with the rest. Selection sets, lists and input objects can be nested only so deep.

The grammar is forgiving in a few places: an argument or a field of an input object without a value
and a root type without a name are left out, and so are names that a list of interfaces or members
lacks.
-/

namespace Gateway

/-- Reads something from the start of the tokens. -/
abbrev Reader := StateT (List Lexeme) Option

namespace Reader

variable {α : Type}

/-- The first token, which stays. -/
def peek? : Reader (Option Token) := fun tokens => some (tokens.head?.map Lexeme.token, tokens)

/-- Whether a comma stands in front of the first token. -/
def isSeparated : Reader Bool := fun tokens => some (tokens.head?.any Lexeme.isSeparated, tokens)

/-- Fails if a comma stands in front of the first token. -/
def adjacent : Reader Unit := do
  if ← isSeparated then failure

/-- Takes the first token. -/
def next : Reader Token
  | first :: rest => some (first.token, rest)
  | [] => none

/-- Takes the given token if it comes first. -/
def accept (token : Token) : Reader Bool
  | first :: rest =>
    if first.token = token then some (true, rest) else some (false, first :: rest)
  | [] => some (false, [])

/-- Takes the given token, which has to come first. -/
def expect (token : Token) : Reader Unit := do
  if ← accept token then return () else failure

/-- Takes the given mark, which has to come first. -/
def mark (c : Char) : Reader Unit :=
  expect (.punctuator c)

/-- Takes the given mark if it comes first. -/
def acceptMark (c : Char) : Reader Bool :=
  accept (.punctuator c)

/-- Takes the given keyword, which has to come first. -/
def keyword (text : String) : Reader Unit :=
  expect (.name text)

/-- Takes a name. -/
def name : Reader Name := do
  match ← next with
  | .name text => return text
  | _ => failure

/-- Takes a name if one comes first. -/
def name? : Reader (Option Name) := do
  match ← peek? with
  | some (.name text) => do
    let _ ← next
    return some text
  | _ => return none

/-- Whether the first token is the given one. -/
def looksAt (token : Token) : Reader Bool := do
  return (← peek?) == some token

/-- Reads items until the closing mark, which is taken; the fuel bounds their number. -/
def itemsUntil (close : Char) (item : Reader α) : Nat → Reader (List α)
  | 0 => failure
  | fuel + 1 => do
    if ← acceptMark close then return []
    let first ← item
    return first :: (← itemsUntil close item fuel)

/-- The number of tokens left. -/
def remaining : Reader Nat := fun tokens => some (tokens.length, tokens)

/-- Reads any number of items up to the closing mark. -/
def manyUntil (close : Char) (item : Reader α) : Reader (List α) := do
  itemsUntil close item ((← remaining) + 1)

/-- Reads one or more items up to the closing mark. -/
def someUntil (close : Char) (item : Reader α) : Reader (List α) := do
  let items ← manyUntil close item
  if items.isEmpty then failure else return items

/-- Reads one or more items between marks if the opening mark comes first. -/
def optionalBetween (opening close : Char) (item : Reader α) : Reader (List α) := do
  if ← acceptMark opening then someUntil close item else return []

/-- Reads further items while the given mark comes first. -/
def moreBehind (c : Char) (item : Reader α) : Nat → Reader (List α)
  | 0 => return []
  | fuel + 1 => do
    if ← acceptMark c then
      let first ← item
      return first :: (← moreBehind c item fuel)
    else return []

/-- Reads items separated by a mark, which may also come first. -/
def separatedBy (c : Char) (item : Reader α) : Reader (List α) := do
  let _ ← acceptMark c
  let first ← item
  return first :: (← moreBehind c item (← remaining))

/-! ## Values and types -/

/-- How deep selection sets, lists, input objects and list types can be nested, taken together. -/
def maxDepth : Nat := 500

/-- Reads a type; gets a reader for the items of a list. -/
def typeWith (item : Reader TypeRef) : Reader TypeRef := do
  let type ← match ← next with
    | .name text => pure (.named text)
    | .punctuator '[' => do
      let item ← item
      mark ']'
      pure (.list item)
    | _ => failure
  if ← acceptMark '!' then return type.nonNull else return type

/-- Reads a type in which lists are nested at most so deep. -/
def typeWithin : Nat → Reader TypeRef
  | 0 => typeWith failure
  | depth + 1 => typeWith (typeWithin depth)

/-- Reads a type. -/
def type : Reader TypeRef :=
  typeWithin maxDepth

/-- Reads a name and, behind a colon, a value for it. -/
def named (value : Reader Literal) : Reader (Option (Name × Literal)) := do
  let name ← name
  if ← acceptMark ':' then return some (name, ← value) else return none

/-- Reads a value, without variables when it is constant; gets a reader for the values inside. -/
def valueWith (constant : Bool) (inner : Reader Literal) : Reader Literal := do
  match ← next with
  | .name "null" => return .null
  | .name "true" => return .boolean true
  | .name "false" => return .boolean false
  | .name text => return .enum text
  | .int text => return .int text
  | .float text => return .float text
  | .string text => return .string text
  | .punctuator '$' => if constant then failure else return .var (← name)
  | .punctuator '[' => return .list (← manyUntil ']' inner)
  | .punctuator '\x7b' => return .object ((← manyUntil '\x7d' (named inner)).filterMap id)
  | _ => failure

/-- Reads a value in which lists and input objects are nested at most so deep. -/
def valueWithin (constant : Bool) : Nat → Reader Literal
  | 0 => valueWith constant failure
  | depth + 1 => valueWith constant (valueWithin constant depth)

/-- Reads a constant value. -/
def constant : Reader Literal :=
  valueWithin true maxDepth

/-- Reads arguments in parentheses, if there are any; gets a reader for their values. -/
def arguments (value : Reader Literal) : Reader (List Argument) := do
  let given ← optionalBetween '(' ')' (named value)
  return given.filterMap fun entry => entry.map fun (name, value) => ⟨name, value⟩

/-- Reads directives, at most as many as the fuel. -/
def directivesUpTo (value : Reader Literal) : Nat → Reader (List Directive)
  | 0 => return []
  | fuel + 1 => do
    if ← acceptMark '@' then
      let name ← name
      let arguments ← arguments value
      return ⟨name, arguments⟩ :: (← directivesUpTo value fuel)
    else return []

/-- Reads directives; gets a reader for the values of their arguments. -/
def directivesOf (value : Reader Literal) : Reader (List Directive) := do
  directivesUpTo value (← remaining)

/-- Reads directives whose arguments are constant. -/
def directives : Reader (List Directive) :=
  directivesOf constant

/-! ## Operations and fragments -/

/-- Reads a selection; gets readers for values and for the selection set of the selection. Behind
the dots of a fragment and in front of the colon of an alias no comma can stand. -/
def selectionWith (value : Reader Literal) (inner : Reader (List Selection)) :
    Reader Selection := do
  match ← next with
  | .spread => do
    adjacent
    match ← peek? with
    | some (.name "on") => do
      keyword "on"
      let condition ← name
      let directives ← directivesOf value
      return .inline (some condition) directives (← inner)
    | some (.name fragment) => do
      let _ ← next
      return .spread fragment (← directivesOf value)
    | _ => do
      let directives ← directivesOf value
      return .inline none directives (← inner)
  | .name first => do
    let isAlias ← if ← isSeparated then pure false else acceptMark ':'
    let (alias?, name) ← if isAlias then do pure (some first, ← name) else pure (none, first)
    let arguments ← arguments value
    let directives ← directivesOf value
    let selections ← if ← looksAt (.punctuator '\x7b') then inner else pure []
    return .field ⟨alias?, name, arguments, directives, selections⟩
  | _ => failure

/-- Reads a selection set with its braces, at most so deep. -/
def selectionsWithin : Nat → Reader (List Selection)
  | 0 => failure
  | depth + 1 => do
    mark '\x7b'
    someUntil '\x7d' (selectionWith (valueWithin false depth) (selectionsWithin depth))

/-- Reads a selection set. -/
def selections : Reader (List Selection) :=
  selectionsWithin maxDepth

/-- Reads directives of an operation or a fragment. -/
def executableDirectives : Reader (List Directive) :=
  directivesOf (valueWithin false maxDepth)

/-- Reads the default value behind an equals sign, if there is one. -/
def defaultValue : Reader (Option Literal) := do
  if ← acceptMark '=' then return some (← constant) else return none

/-- Reads a variable definition. -/
def variableDefinition : Reader VariableDefinition := do
  mark '$'
  let name ← name
  mark ':'
  let type ← type
  let default? ← defaultValue
  return { name, type, default?, directives := ← directives }

/-- Reads an operation behind its keyword. -/
def operation (kind : OperationKind) : Reader Operation := do
  let name? ← name?
  let vars ← optionalBetween '(' ')' variableDefinition
  let directives ← executableDirectives
  return { kind, name?, vars, directives, selections := ← selections }

/-- Reads a fragment definition behind its keyword. -/
def fragment : Reader Fragment := do
  let name ← name
  if name = "on" then failure
  keyword "on"
  let condition ← Reader.name
  let directives ← executableDirectives
  return { name, condition, directives, selections := ← selections }

/-! ## Type systems -/

/-- Reads a description, if there is one. -/
def description : Reader (Option String) := do
  match ← peek? with
  | some (.string text) => do
    let _ ← next
    return some text
  | _ => return none

/-- Reads the definition of an argument or an input field. -/
def inputValue : Reader InputValue := do
  let description? ← description
  let name ← name
  mark ':'
  let type ← type
  let default? ← defaultValue
  return { description?, name, type, default?, directives := ← directives }

/-- Reads a field definition. -/
def fieldDefinition : Reader FieldDefinition := do
  let description? ← description
  let name ← name
  let arguments ← optionalBetween '(' ')' inputValue
  mark ':'
  let type ← type
  return { description?, name, arguments, type, directives := ← directives }

/-- Reads the definition of an enum value. -/
def enumValue : Reader EnumValue := do
  let description? ← description
  let name ← name
  if name = "true" ∨ name = "false" ∨ name = "null" then failure
  return { description?, name, directives := ← directives }

/-- Reads the interfaces behind their keyword, if there are any; no other name can stand there. -/
def interfaces : Reader (List Name) := do
  match ← peek? with
  | some (.name "implements") => do
    keyword "implements"
    return (← separatedBy '&' name?).filterMap id
  | some (.name _) => failure
  | _ => return []

/-- Reads a type definition behind its keyword. -/
def typeDefinition (description? : Option String) (kind : String) :
    Reader TypeDefinition := do
  let name ← name
  match kind with
  | "scalar" => return { description?, name, directives := ← directives, body := .scalar }
  | "type" => do
    let interfaces ← interfaces
    let directives ← directives
    let fields ← optionalBetween '\x7b' '\x7d' fieldDefinition
    return { description?, name, directives, body := .object interfaces fields }
  | "interface" => do
    let interfaces ← interfaces
    let directives ← directives
    let fields ← optionalBetween '\x7b' '\x7d' fieldDefinition
    return { description?, name, directives, body := .interface interfaces fields }
  | "union" => do
    let directives ← directives
    let members ← if ← acceptMark '=' then separatedBy '|' name? else pure []
    return { description?, name, directives, body := .union (members.filterMap id) }
  | "enum" => do
    let directives ← directives
    let values ← optionalBetween '\x7b' '\x7d' enumValue
    return { description?, name, directives, body := .enum values }
  | "input" => do
    let directives ← directives
    let fields ← optionalBetween '\x7b' '\x7d' inputValue
    return { description?, name, directives, body := .input fields }
  | _ => failure

/-- Reads a type extension behind the keyword of the type; it consists of more than a name. -/
def typeExtension (kind : String) : Reader TypeDefinition := do
  let before ← remaining
  let extension ← typeDefinition none kind
  if before ≤ (← remaining) + 1 then failure else return extension

/-- Reads the kind of operations by its keyword. -/
def operationKind : Reader OperationKind := do
  match ← name with
  | "query" => return .query
  | "mutation" => return .mutation
  | "subscription" => return .subscription
  | _ => failure

/-- Reads a root type and the kind of operations that it serves. -/
def rootType : Reader (Option (OperationKind × Name)) := do
  let kind ← operationKind
  mark ':'
  return (← name?).map fun name => (kind, name)

/-- Reads a schema definition behind its keyword. -/
def schemaDefinition (description? : Option String) : Reader SchemaDefinition := do
  let directives ← directives
  let roots ← optionalBetween '\x7b' '\x7d' rootType
  return { description?, directives, roots := roots.filterMap id }

/-- Reads a schema extension behind its keyword; it has directives or root types. -/
def schemaExtension : Reader SchemaDefinition := do
  let directives ← directives
  let roots ← if ← acceptMark '\x7b' then manyUntil '\x7d' rootType else pure []
  if directives.isEmpty ∧ roots.isEmpty then failure
  return { directives, roots := roots.filterMap id }

/-- The places where directives can be given. -/
def directiveLocations : List Name :=
  ["QUERY", "MUTATION", "SUBSCRIPTION", "FIELD", "FRAGMENT_DEFINITION", "FRAGMENT_SPREAD",
    "INLINE_FRAGMENT", "VARIABLE_DEFINITION", "SCHEMA", "SCALAR", "OBJECT", "FIELD_DEFINITION",
    "ARGUMENT_DEFINITION", "INTERFACE", "UNION", "ENUM", "ENUM_VALUE", "INPUT_OBJECT",
    "INPUT_FIELD_DEFINITION"]

/-- Reads a place where a directive can be given. -/
def directiveLocation : Reader Name := do
  let name ← name
  if directiveLocations.contains name then return name else failure

/-- Reads a directive definition behind its keyword. -/
def directiveDefinition (description? : Option String) : Reader DirectiveDefinition := do
  mark '@'
  let name ← name
  let arguments ← optionalBetween '(' ')' inputValue
  let repeatable ← accept (.name "repeatable")
  keyword "on"
  let locations ← separatedBy '|' directiveLocation
  return { description?, name, arguments, repeatable, locations }

/-- Reads a definition of a type system behind its first keyword. -/
def typeSystem (description? : Option String) (first : Name) : Reader TypeSystemDefinition := do
  match first with
  | "schema" => return .schema (← schemaDefinition description?)
  | "directive" => return .directive (← directiveDefinition description?)
  | "extend" => do
    if description?.isSome then failure
    adjacent
    match ← name with
    | "schema" => return .schemaExtension (← schemaExtension)
    | kind => return .typeExtension (← typeExtension kind)
  | kind => return .type (← typeDefinition description? kind)

/-- Reads a definition that starts with a text: the description of a definition of a type system. In
front of the word for fragments the text takes the place of that word, which is then the name. -/
def described : Reader Definition := do
  let description? ← description
  adjacent
  match ← name with
  | "fragment" => do
    keyword "on"
    let condition ← name
    let directives ← executableDirectives
    return .fragment { name := "fragment", condition, directives, selections := ← selections }
  | first => return .typeSystem (← typeSystem description? first)

/-- Reads a definition. -/
def definition : Reader Definition := do
  match ← peek? with
  | some (.punctuator '\x7b') => return .operation { selections := ← selections }
  | some (.string _) => described
  | _ =>
    match ← name with
    | "query" => return .operation (← operation .query)
    | "mutation" => return .operation (← operation .mutation)
    | "subscription" => return .operation (← operation .subscription)
    | "fragment" => return .fragment (← fragment)
    | first => return .typeSystem (← typeSystem none first)

/-- Reads definitions up to the end, at most as many as the fuel. -/
def definitions : Nat → Reader (List Definition)
  | 0 => failure
  | fuel + 1 => do
    match ← peek? with
    | none => return []
    | some _ => do
      let first ← definition
      return first :: (← definitions fuel)

end Reader

/-- Reads a document with at least one definition. -/
def Document.parse? (text : String) : Option Document := do
  let tokens ← Token.scan text
  let (definitions, _) ← (Reader.definitions (tokens.length + 1)).run tokens
  if definitions.isEmpty then none else some definitions

/-- Reads a type. -/
def TypeRef.parse? (text : String) : Option TypeRef := do
  let tokens ← Token.scan text
  let (type, rest) ← Reader.type.run tokens
  if rest.isEmpty then some type else none

end Gateway
