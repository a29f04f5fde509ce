import Gateway.Schema.Possible
import Gateway.Validation.Incremental
import Gateway.Validation.Values

/-!
# Valid documents

The findings about a document: each operation is walked from its root type, with every fragment that
it reaches, and the fields under one response key are compared. A document without findings can be
executed.
-/

namespace Gateway

/-! ## Walking through an operation -/

/-- What an operation is checked against. -/
structure OperationScope where
  /-- The schema and the variables of the operation. -/
  values : ValueScope
  /-- The document that holds the operation. -/
  document : KeptDocument

/-- How far the walk through an operation has come. -/
structure Walk where
  /-- The fragments that have been entered. -/
  visited : List Name := []
  /-- The findings so far. -/
  findings : List Diagnostic := []

namespace Walk

/-- Adds findings. -/
def report (walk : Walk) (findings : List Diagnostic) : Walk :=
  { walk with findings := walk.findings ++ findings }

/-- Notes that a fragment has been entered. -/
def visit (walk : Walk) (fragment : Name) : Walk :=
  { walk with visited := fragment :: walk.visited }

end Walk

namespace OperationScope

/-- The schema of the scope. -/
def schema (scope : OperationScope) : Schema :=
  scope.values.schema

/-- The findings about a fragment whose condition stands inside selections on a type: some object
has to be of both types. -/
def applicability (scope : OperationScope) (fragment : Option Name) (condition type : Name) :
    List Diagnostic :=
  let schema := scope.schema
  if condition = type then []
  else if (schema.possibleTypes type).any (schema.possibleTypes condition).contains then []
  else [.fragmentNotApplicable fragment condition type]

mutual

/-- Walks through a selection on a type, entering fragments in the given way. -/
def walkSelection (scope : OperationScope) (type : Name) (enter : Fragment → Walk → Walk) :
    Selection → Walk → Walk
  | .field ⟨_, name, arguments, directives, selections⟩, walk =>
    match scope.schema.selectable? type name with
    | none => walk.report (scope.values.checkDirectives "FIELD" directives)
    | some definition =>
      let inner := definition.type.innerName
      let coordinate := type ++ "." ++ name
      let lacksSelections := selections.isEmpty && scope.schema.isComposite inner
      walkSelections scope inner enter selections <| walk.report <|
        ValueScope.missingArguments coordinate definition.arguments arguments
        ++ (if lacksSelections then [.missingSelections] else [])
        ++ scope.values.givenArguments coordinate definition.arguments arguments
        ++ scope.values.checkDirectives "FIELD" directives
  | .inline none directives selections, walk =>
    walkSelections scope type enter selections
      (walk.report (scope.values.checkDirectives "INLINE_FRAGMENT" directives))
  | .inline (some condition) directives selections, walk =>
    let walk := walk.report (scope.values.checkDirectives "INLINE_FRAGMENT" directives)
    if scope.schema.isComposite condition then
      walkSelections scope condition enter selections
        (walk.report (scope.applicability none condition type))
    else walk.report [.conditionNotComposite none]
  | .spread fragment directives, walk =>
    let walk := walk.report (scope.values.checkDirectives "FRAGMENT_SPREAD" directives)
    match scope.document.fragments.get? fragment with
    | none => walk.report [.undefinedFragment fragment]
    | some definition =>
      let walk := walk.report (scope.applicability (some fragment) definition.condition type)
      if walk.visited.contains fragment then walk else enter definition (walk.visit fragment)

/-- Walks through selections on a type in order. -/
def walkSelections (scope : OperationScope) (type : Name) (enter : Fragment → Walk → Walk) :
    List Selection → Walk → Walk
  | [], walk => walk
  | selection :: rest, walk =>
    walkSelections scope type enter rest (walkSelection scope type enter selection walk)

end

/-- Checks a fragment and walks through its selections, unless its condition cannot hold or it leads
back to itself. -/
def enterFragment (scope : OperationScope)
    (walkInner : Name → List Selection → Walk → Walk) (fragment : Fragment) (walk : Walk) :
    Walk :=
  let walk := walk.report (scope.values.checkDirectives "FRAGMENT_DEFINITION" fragment.directives)
  let obstacles :=
    (if scope.schema.isComposite fragment.condition then []
      else [Diagnostic.conditionNotComposite (some fragment.name)])
    ++ (scope.document.nestingFinding? fragment.name).toList
  if obstacles.isEmpty then walkInner fragment.condition fragment.selections walk
  else walk.report obstacles

/-- Walks through selections, entering fragments nested at most as deep as the fuel. -/
def walkWithin (scope : OperationScope) : Nat → Name → List Selection → Walk → Walk
  | 0, type => walkSelections scope type fun _ walk => walk
  | fuel + 1, type => walkSelections scope type (scope.enterFragment (scope.walkWithin fuel))

/-- The findings of the walk from the root type; each fragment is entered once. -/
def walk (scope : OperationScope) (root : Name) (selections : List Selection) :
    List Diagnostic :=
  (scope.walkWithin scope.document.fragments.length root selections {}).findings

end OperationScope

namespace KeptDocument

/-- The findings about a subscription, which has one unconditional root field. -/
def subscriptionFindings (kept : KeptDocument) (root : Name) (operation : Operation) :
    List Diagnostic :=
  let expansion := kept.expansion [(root, operation.selections)]
  let fields := expansion.fields.map SelectedField.node
  (if fields.length > 1 then [.severalRootFields operation.name?] else [])
  ++ (fields.filterMap fun field =>
    if ["__typename", "__schema", "__type"].contains field.name then
      some (.introspectionRootField operation.name?)
    else none)
  ++ expansion.read.filterMap fun selection =>
    if selection.directives.any fun directive => ["skip", "include"].contains directive.name then
      some (.conditionalRootField operation.name?)
    else none

/-- The findings about one operation. -/
def operationFindings (kept : KeptDocument) (schema : Schema) (operation : Operation) :
    List Diagnostic :=
  let values : ValueScope := { schema, vars := operation.vars }
  values.checkDirectives operation.kind.keyword.toUpper operation.directives
  ++ values.checkDefinitions
  ++ kept.unusedVariables operation
  ++ match schema.root? operation.kind with
    | none => []
    | some root =>
      (OperationScope.walk { values, document := kept } root operation.selections)
      ++ (if operation.kind = .subscription then kept.subscriptionFindings root operation else [])
      ++ kept.deferFindings root operation

/-- The findings about all that is kept. -/
def findAll (kept : KeptDocument) (schema : Schema) : List Diagnostic :=
  kept.findings
  ++ kept.operations.flatMap (kept.operationFindings schema)
  ++ kept.unusedFragments
  ++ kept.labelFindings
  ++ kept.overlapFindings schema

end KeptDocument

/-- The findings about the text of a document: it has definitions, what they select, and the root
types of schemas. -/
def Document.textFindings (document : Document) : List Diagnostic :=
  if document.isEmpty then [.emptyDocument]
  else document.filterMap fun
    | .operation ⟨_, _, _, _, []⟩ => some .emptySelectionSet
    | .fragment ⟨_, _, _, []⟩ => some .emptySelectionSet
    | .typeSystem (.schema ⟨_, _, []⟩) => some .emptySchemaDefinition
    | _ => none

/-- The findings about a document for a schema. -/
def Schema.check (schema : Schema) (document : Document) : List Diagnostic :=
  document.textFindings ++ (KeptDocument.ofDocument schema document).findAll schema

/-- Whether a document can be executed for a schema. -/
def Schema.accepts (schema : Schema) (document : Document) : Bool :=
  (schema.check document).isEmpty

end Gateway
