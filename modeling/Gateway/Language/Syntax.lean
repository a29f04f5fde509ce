import Gateway.Language.Name

/-!
# Documents

The syntax of executable documents and of type systems, as it is read and printed. Lists keep the
order of the text; numbers keep their spelling.
-/

namespace Gateway

/-- A type, where only a named type or a list can be non-null. -/
inductive TypeRef
  | named (name : Name)
  | nonNullNamed (name : Name)
  | list (item : TypeRef)
  | nonNullList (item : TypeRef)
  deriving DecidableEq, Repr, Inhabited

namespace TypeRef

/-- The name inside all lists. -/
def innerName : TypeRef → Name
  | .named name => name
  | .nonNullNamed name => name
  | .list item => item.innerName
  | .nonNullList item => item.innerName

/-- Whether null is no value of the type. -/
def isNonNull : TypeRef → Bool
  | .nonNullNamed _ => true
  | .nonNullList _ => true
  | _ => false

/-- The item type of a list type. -/
def item? : TypeRef → Option TypeRef
  | .list item => some item
  | .nonNullList item => some item
  | _ => none

/-- Whether the type is a list type. -/
def isList (type : TypeRef) : Bool :=
  type.item?.isSome

/-- The type that also has the value null. -/
def nullable : TypeRef → TypeRef
  | .nonNullNamed name => .named name
  | .nonNullList item => .list item
  | type => type

/-- The type without the value null. -/
def nonNull : TypeRef → TypeRef
  | .named name => .nonNullNamed name
  | .list item => .nonNullList item
  | type => type

/-- Whether every value of one type is a value of the other: only nullability may differ. -/
def isAssignable : TypeRef → TypeRef → Bool
  | .nonNullNamed a, .nonNullNamed b => a == b
  | .nonNullNamed a, .named b => a == b
  | .named a, .named b => a == b
  | .nonNullList a, .nonNullList b => a.isAssignable b
  | .nonNullList a, .list b => a.isAssignable b
  | .list a, .list b => a.isAssignable b
  | _, _ => false

end TypeRef

/-- A value in a document. -/
inductive Literal
  | null
  | enum (name : Name)
  | var (name : Name)
  | string (text : String)
  | float (text : String)
  | int (text : String)
  | boolean (value : Bool)
  | list (items : List Literal)
  | object (fields : List (Name × Literal))
  deriving Repr, Inhabited

namespace Literal

mutual

/-- Whether two values are written the same. -/
def same : Literal → Literal → Bool
  | .null, .null => true
  | .enum a, .enum b => a == b
  | .var a, .var b => a == b
  | .string a, .string b => a == b
  | .float a, .float b => a == b
  | .int a, .int b => a == b
  | .boolean a, .boolean b => a == b
  | .list a, .list b => sameItems a b
  | .object a, .object b => sameFields a b
  | _, _ => false

/-- Whether two lists of values are written the same. -/
def sameItems : List Literal → List Literal → Bool
  | [], [] => true
  | a :: as, b :: bs => same a b && sameItems as bs
  | _, _ => false

/-- Whether two lists of fields are written the same. -/
def sameFields : List (Name × Literal) → List (Name × Literal) → Bool
  | [], [] => true
  | (k, a) :: as, (l, b) :: bs => k == l && same a b && sameFields as bs
  | _, _ => false

end

mutual

/-- Structural comparison decides equality. -/
theorem same_iff_eq : ∀ a b : Literal, same a b = true ↔ a = b
  | .null, b => by cases b <;> simp [same]
  | .enum _, b => by cases b <;> simp [same]
  | .var _, b => by cases b <;> simp [same]
  | .string _, b => by cases b <;> simp [same]
  | .float _, b => by cases b <;> simp [same]
  | .int _, b => by cases b <;> simp [same]
  | .boolean _, b => by cases b <;> simp [same]
  | .list as, b => by cases b <;> simp [same, sameItems_iff_eq as]
  | .object as, b => by cases b <;> simp [same, sameFields_iff_eq as]

/-- Structural comparison decides equality of lists of values. -/
theorem sameItems_iff_eq : ∀ as bs : List Literal, sameItems as bs = true ↔ as = bs
  | [], bs => by cases bs <;> simp [sameItems]
  | a :: as, bs => by cases bs <;> simp [sameItems, same_iff_eq a, sameItems_iff_eq as]

/-- Structural comparison decides equality of lists of fields. -/
theorem sameFields_iff_eq :
    ∀ as bs : List (Name × Literal), sameFields as bs = true ↔ as = bs
  | [], bs => by cases bs <;> simp [sameFields]
  | (k, a) :: as, bs => by
    cases bs <;> simp [sameFields, same_iff_eq a, sameFields_iff_eq as, Prod.ext_iff]

end

/-- Equality of literals can be decided. -/
instance : DecidableEq Literal := fun a b => decidable_of_iff _ (same_iff_eq a b)

/-- Whether the value is null. -/
def isNull : Literal → Bool
  | .null => true
  | _ => false

mutual

/-- The variables in a value, in order. -/
def vars : Literal → List Name
  | .var name => [name]
  | .list items => variablesOfItems items
  | .object fields => variablesOfFields fields
  | _ => []

/-- The variables in a list of values, in order. -/
def variablesOfItems : List Literal → List Name
  | [] => []
  | item :: rest => vars item ++ variablesOfItems rest

/-- The variables in a list of fields, in order. -/
def variablesOfFields : List (Name × Literal) → List Name
  | [] => []
  | (_, item) :: rest => vars item ++ variablesOfFields rest

end

end Literal

/-- A value given for an argument. -/
structure Argument where
  /-- The argument. -/
  name : Name
  /-- The value given. -/
  value : Literal
  deriving DecidableEq, Repr, Inhabited

/-- A directive with its arguments. -/
structure Directive where
  /-- The directive. -/
  name : Name
  /-- The arguments given. -/
  arguments : List Argument
  deriving DecidableEq, Repr, Inhabited

/-- The variables in a list of arguments, in order. -/
def argumentVariables (arguments : List Argument) : List Name :=
  arguments.flatMap fun argument => argument.value.vars

/-- The variables in a list of directives, in order. -/
def directiveVariables (directives : List Directive) : List Name :=
  directives.flatMap fun directive => argumentVariables directive.arguments

/-- A field whose sub-selections have the given type. -/
structure FieldOf (σ : Type) where
  /-- The response key, when it is not the name. -/
  alias? : Option Name := none
  /-- The field. -/
  name : Name
  /-- The arguments given. -/
  arguments : List Argument := []
  /-- The directives given. -/
  directives : List Directive := []
  /-- What is selected from the value of the field. -/
  selections : List σ := []
  deriving DecidableEq, Repr, Inhabited

/-- A selection in a selection set. -/
inductive Selection
  | field (node : FieldOf Selection)
  | spread (fragment : Name) (directives : List Directive)
  | inline (condition : Option Name) (directives : List Directive) (selections : List Selection)
  deriving Repr, Inhabited

/-- A selected field. -/
abbrev Field := FieldOf Selection

namespace Selection

mutual

/-- Whether two selections are written the same. -/
def same : Selection → Selection → Bool
  | .field ⟨alias₁, name₁, arguments₁, directives₁, selections₁⟩,
    .field ⟨alias₂, name₂, arguments₂, directives₂, selections₂⟩ =>
    alias₁ == alias₂ && name₁ == name₂ && arguments₁ == arguments₂ && directives₁ == directives₂
      && sameAll selections₁ selections₂
  | .spread fragment₁ directives₁, .spread fragment₂ directives₂ =>
    fragment₁ == fragment₂ && directives₁ == directives₂
  | .inline condition₁ directives₁ selections₁, .inline condition₂ directives₂ selections₂ =>
    condition₁ == condition₂ && directives₁ == directives₂ && sameAll selections₁ selections₂
  | _, _ => false

/-- Whether two lists of selections are written the same. -/
def sameAll : List Selection → List Selection → Bool
  | [], [] => true
  | a :: as, b :: bs => same a b && sameAll as bs
  | _, _ => false

end

mutual

/-- Structural comparison decides equality. -/
theorem same_eq_true : ∀ a b : Selection, same a b = true ↔ a = b
  | .field ⟨_, _, _, _, selections⟩, b => by
    cases b with
    | field f => cases f; simp [same, sameAll_eq_true selections, and_assoc]
    | spread => simp [same]
    | inline => simp [same]
  | .spread _ _, b => by cases b <;> simp [same]
  | .inline _ _ selections, b => by
    cases b <;> simp [same, sameAll_eq_true selections, and_assoc]

/-- Structural comparison decides equality of lists of selections. -/
theorem sameAll_eq_true : ∀ as bs : List Selection, sameAll as bs = true ↔ as = bs
  | [], bs => by cases bs <;> simp [sameAll]
  | a :: as, bs => by cases bs <;> simp [sameAll, same_eq_true a, sameAll_eq_true as]

end

/-- Equality of selections can be decided. -/
instance : DecidableEq Selection := fun a b => decidable_of_iff _ (same_eq_true a b)

/-- The field of a selection that is one. -/
def asField? : Selection → Option Field
  | .field node => some node
  | _ => none

/-- The directives of a selection. -/
def directives : Selection → List Directive
  | .field node => node.directives
  | .spread _ directives => directives
  | .inline _ directives _ => directives

end Selection

/-- The key of a field in a response: its alias, or else its name. -/
def FieldOf.responseKey {σ : Type} (field : FieldOf σ) : Name :=
  field.alias?.getD field.name

/-- The fields among the selections, in order. -/
def directFields (selections : List Selection) : List Field :=
  selections.filterMap Selection.asField?

/-- The meta field that names the concrete type of an object. -/
def typenameField : Name := "__typename"

/-- The selection of the meta field without alias. -/
def selectTypename : Selection :=
  .field { name := typenameField }

/-- Whether the selections directly hold the meta field without alias. -/
def selectsTypename (selections : List Selection) : Bool :=
  (directFields selections).any fun field => field.name = typenameField && field.alias?.isNone

/-- The kinds of operations. -/
inductive OperationKind
  | query
  | mutation
  | subscription
  deriving DecidableEq, Repr, Inhabited

/-- The keyword of a kind of operations. -/
def OperationKind.keyword : OperationKind → String
  | .query => "query"
  | .mutation => "mutation"
  | .subscription => "subscription"

/-- A variable that an operation declares. -/
structure VariableDefinition where
  /-- The variable. -/
  name : Name
  /-- Its type. -/
  type : TypeRef
  /-- Its value when none is supplied. -/
  default? : Option Literal := none
  /-- The directives given. -/
  directives : List Directive := []
  deriving DecidableEq, Repr, Inhabited

/-- An operation. -/
structure Operation where
  /-- Whether it queries, mutates or subscribes. -/
  kind : OperationKind := .query
  /-- The name, unless it is anonymous. -/
  name? : Option Name := none
  /-- The variables it declares. -/
  vars : List VariableDefinition := []
  /-- The directives given. -/
  directives : List Directive := []
  /-- What is selected from the root. -/
  selections : List Selection := []
  deriving DecidableEq, Repr, Inhabited

/-- A fragment definition. -/
structure Fragment where
  /-- The name under which the fragment is spread. -/
  name : Name
  /-- The type to which the selections apply. -/
  condition : Name
  /-- The directives given. -/
  directives : List Directive := []
  /-- What is selected. -/
  selections : List Selection
  deriving DecidableEq, Repr, Inhabited

/-! ## Type systems -/

/-- An argument or an input field that a type system declares. -/
structure InputValue where
  /-- A text for readers. -/
  description? : Option String := none
  /-- The argument or field. -/
  name : Name
  /-- Its type. -/
  type : TypeRef
  /-- Its value when none is supplied. -/
  default? : Option Literal := none
  /-- The directives given. -/
  directives : List Directive := []
  deriving DecidableEq, Repr, Inhabited

/-- Whether a value has to be given. -/
def InputValue.isRequired (value : InputValue) : Bool :=
  value.type.isNonNull && value.default?.isNone

/-- A field that a type declares. -/
structure FieldDefinition where
  /-- A text for readers. -/
  description? : Option String := none
  /-- The field. -/
  name : Name
  /-- The arguments it takes. -/
  arguments : List InputValue := []
  /-- The type of its value. -/
  type : TypeRef
  /-- The directives given. -/
  directives : List Directive := []
  deriving DecidableEq, Repr, Inhabited

/-- A value of an enum. -/
structure EnumValue where
  /-- A text for readers. -/
  description? : Option String := none
  /-- The value. -/
  name : Name
  /-- The directives given. -/
  directives : List Directive := []
  deriving DecidableEq, Repr, Inhabited

/-- What a type is made of, by kind of type. -/
inductive TypeBody
  | scalar
  | object (interfaces : List Name) (fields : List FieldDefinition)
  | interface (interfaces : List Name) (fields : List FieldDefinition)
  | union (members : List Name)
  | enum (values : List EnumValue)
  | input (fields : List InputValue)
  deriving DecidableEq, Repr, Inhabited

/-- A type that a type system declares. -/
structure TypeDefinition where
  /-- A text for readers. -/
  description? : Option String := none
  /-- The type. -/
  name : Name
  /-- The directives given. -/
  directives : List Directive := []
  /-- What it is made of. -/
  body : TypeBody
  deriving DecidableEq, Repr, Inhabited

/-- A directive that a type system declares. -/
structure DirectiveDefinition where
  /-- A text for readers. -/
  description? : Option String := none
  /-- The directive. -/
  name : Name
  /-- The arguments it takes. -/
  arguments : List InputValue := []
  /-- Whether it may be given several times at one place. -/
  repeatable : Bool := false
  /-- The places where it may be given. -/
  locations : List Name
  deriving DecidableEq, Repr, Inhabited

/-- The root types by kind of operation. -/
structure SchemaDefinition where
  /-- A text for readers. -/
  description? : Option String := none
  /-- The directives given. -/
  directives : List Directive := []
  /-- The root types. -/
  roots : List (OperationKind × Name)
  deriving DecidableEq, Repr, Inhabited

/-- A definition or extension of a type system. -/
inductive TypeSystemDefinition
  | schema (definition : SchemaDefinition)
  | type (definition : TypeDefinition)
  | directive (definition : DirectiveDefinition)
  | schemaExtension (extension : SchemaDefinition)
  | typeExtension (extension : TypeDefinition)
  deriving DecidableEq, Repr, Inhabited

/-! ## Documents -/

/-- A definition of a document. -/
inductive Definition
  | operation (definition : Operation)
  | fragment (definition : Fragment)
  | typeSystem (definition : TypeSystemDefinition)
  deriving DecidableEq, Repr, Inhabited

/-- The definitions of a document, in order. -/
abbrev Document := List Definition

namespace Document

/-- The operations, in order. -/
def operations (document : Document) : List Operation :=
  document.filterMap fun
    | .operation definition => some definition
    | _ => none

/-- The fragments, in order. -/
def fragments (document : Document) : List Fragment :=
  document.filterMap fun
    | .fragment definition => some definition
    | _ => none

end Document

end Gateway
