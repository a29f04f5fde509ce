import Gateway.Validation.Overlap
import Gateway.Validation.Spreads
import Gateway.Validation.Values

/-!
# Deferred selections

The rules for selections whose results can come later: they have labels of their own, and stand
neither at the root of an operation that has to be answered at once, nor in a subscription unless
they are switched off.
-/

namespace Gateway

/-- The directive of selections that can come later. -/
def deferDirective : Name := "defer"

/-- The value of an argument of a directive. -/
def Directive.value? (directive : Directive) (argument : Name) : Option Literal :=
  (directive.arguments.find? (·.name = argument)).map Argument.value

/-- Whether a directive can be switched off. -/
def Directive.isDisabled (directive : Directive) : Bool :=
  match directive.value? "if" with
  | some (.boolean value) => !value
  | some (.var _) => true
  | _ => false

namespace Selection

/-- The directives that defer a selection. -/
def defers (selection : Selection) : List Directive :=
  selection.directives.filter (·.name = deferDirective)

mutual

/-- The directives that defer a selection or selections inside of it. -/
def innerDefers : Selection → List Directive
  | .field node =>
    match node with
    | ⟨_, _, _, directives, selections⟩ =>
      directives.filter (·.name = deferDirective) ++ innerDefersOfAll selections
  | .spread _ directives => directives.filter (·.name = deferDirective)
  | .inline _ directives selections =>
    directives.filter (·.name = deferDirective) ++ innerDefersOfAll selections

/-- The directives that defer selections or selections inside of them. -/
def innerDefersOfAll : List Selection → List Directive
  | [] => []
  | selection :: rest => innerDefers selection ++ innerDefersOfAll rest

end

end Selection

namespace KeptDocument

/-- The findings about the deferred selections of an operation on a root type. -/
def deferFindings (kept : KeptDocument) (root : Name) (operation : Operation) :
    List Diagnostic :=
  if operation.kind = .query then []
  else
    let atRoot := (kept.expansion [(root, operation.selections)]).read.flatMap Selection.defers
    let reached := kept.fragmentsNamed ((kept.reachedFrom? operation).getD [])
    let all := Selection.innerDefersOfAll operation.selections
      ++ reached.flatMap fun fragment => Selection.innerDefersOfAll fragment.selections
    atRoot.map (fun _ => .deferOnRoot operation.kind)
    ++ if operation.kind = .subscription then
        (all.filter fun directive => !directive.isDisabled).map fun _ => .deferInSubscription
      else []

/-- The findings about the labels of deferred selections in the whole document. -/
def labelFindings (kept : KeptDocument) : List Diagnostic :=
  let all := kept.operations.flatMap (Selection.innerDefersOfAll ∘ Operation.selections)
    ++ kept.fragments.values.flatMap (Selection.innerDefersOfAll ∘ Fragment.selections)
  let values := all.filterMap (Directive.value? · "label")
  let labels := values.filterMap fun
    | .string label => some label
    | _ => none
  (values.filterMap fun
    | .var _ => some .deferLabelVariable
    | _ => none)
  ++ (ValueScope.repeated labels).map .deferLabelRepeated

end KeptDocument

end Gateway
