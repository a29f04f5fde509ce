import Gateway.Proofs.Language.Nesting
import Gateway.Proofs.Request.Arguments
import Gateway.Schema.Builtin

/-!
# Conditions of selections

What is collected depends on the values of variables only through the conditions under which
selections are skipped or included (`Scope.subFields_withVars`). A gateway operation takes a
variable for true when true is supplied for it, and the request for a field carries the same value.
It forwards the definition of the variable as well, so a variable that is left to a default of true
is true for whoever executes the request, and false for the gateway
(`FieldInfo.request_conditions`).
-/

namespace Gateway

/-! ## Variables as conditions -/

/-- A variable is true. -/
def IsTrue (values : Entries Json) (name : Name) : Prop :=
  values.get? name = some (.bool true)

/-- A variable is a condition under which directives skip or include. -/
def IsCondition (directives : List Directive) (name : Name) : Prop :=
  conditionOf? "skip" directives = some (.var name) ∨
    conditionOf? "include" directives = some (.var name)

/-- A variable decides about selections: it is a condition of one of them, at any depth. -/
def DecidesIn (selections : List Selection) (name : Name) : Prop :=
  ∃ selection, Occurs selection selections ∧ IsCondition selection.directives name

/-- A variable decides what is selected under a field, or in a fragment. -/
def FieldInfo.Decides (info : FieldInfo) (name : Name) : Prop :=
  (∃ node ∈ info.nodes, DecidesIn node.selections name) ∨
    ∃ entry ∈ info.operation.fragments, DecidesIn entry.2.selections name

/-- A condition holds for the one values as for the others when its variable is true for both or for
neither. -/
theorem Literal.truth?_getD_congr {vars vars' : Entries Json} {condition : Literal}
    (h : ∀ name, condition = .var name → (IsTrue vars name ↔ IsTrue vars' name)) :
    (condition.truth? vars).getD false = (condition.truth? vars').getD false := by
  have htrue : ∀ (values : Entries Json) name,
      ((Literal.var name).truth? values).getD false = true ↔ IsTrue values name := by
    intro values name
    unfold IsTrue
    rw [Literal.truth?]
    cases Entries.get? values name with
    | none => simp
    | some value => cases value <;> simp [Json.asBool?]
  cases condition with
  | var name => rw [Bool.eq_iff_iff, htrue, htrue, h name rfl]
  | _ => rfl

/-- Directives include for the one values as for the others when each of their conditions is true
for both or for neither. -/
theorem isIncluded_congr {vars vars' : Entries Json} {directives : List Directive}
    (h : ∀ name, IsCondition directives name → (IsTrue vars name ↔ IsTrue vars' name)) :
    isIncluded directives vars = isIncluded directives vars' := by
  have hcondition : ∀ directive, (∀ name, conditionOf? directive directives = some (.var name) →
      IsCondition directives name) →
      (conditionOf? directive directives).map (fun condition =>
        (condition.truth? vars).getD false) =
      (conditionOf? directive directives).map fun condition =>
        (condition.truth? vars').getD false := by
    intro directive hdirective
    refine Option.map_congr fun condition hgiven => Literal.truth?_getD_congr fun name hname => ?_
    exact h name (hdirective name (hname ▸ hgiven))
  unfold isIncluded
  dsimp only
  rw [hcondition "skip" fun _ => .inl, hcondition "include" fun _ => .inr]

/-! ## Collecting under conditions -/

namespace Scope

/-- The scope with other values of variables. -/
def withVars (scope : Scope) (vars : Entries Json) : Scope :=
  { scope with vars }

/-- These are its values. -/
@[simp]
theorem vars_withVars (scope : Scope) (vars : Entries Json) : (scope.withVars vars).vars = vars :=
  rfl

/-- It includes in the same way. -/
@[simp]
theorem includes_withVars (scope : Scope) (vars : Entries Json) :
    (scope.withVars vars).includes = scope.includes := rfl

/-- It has the same fragments. -/
@[simp]
theorem fragments_withVars (scope : Scope) (vars : Entries Json) :
    (scope.withVars vars).fragments = scope.fragments := rfl

/-- Fragments apply to the same types. -/
@[simp]
theorem applies_withVars (scope : Scope) (vars : Entries Json) :
    (scope.withVars vars).applies = scope.applies := rfl

/-- The selections are included for the one values as for the others. -/
def IncludesAlike (scope : Scope) (vars : Entries Json) (selections : List Selection) : Prop :=
  ∀ selection, Occurs selection selections →
    scope.includes selection.directives vars = scope.includes selection.directives scope.vars

variable {scope : Scope} {vars : Entries Json} {type : Name}

/-- Each of the selections is. -/
theorem IncludesAlike.of_mem {selections : List Selection} (h : scope.IncludesAlike vars selections)
    {selection : Selection} (hmem : selection ∈ selections) :
    scope.IncludesAlike vars [selection] := fun inner hinner =>
  h inner (hinner.mono (List.cons_subset.mpr ⟨hmem, List.nil_subset _⟩))

section Follow

variable {follow follow' : Fragment → Collected → Collected}

/-- When the same is collected from each of the selections, the same is collected from all. -/
theorem collectSelections_congr {scope' : Scope} {selections : List Selection}
    (h : ∀ selection ∈ selections, ∀ collected,
      scope'.collectSelection type follow selection collected =
        scope.collectSelection type follow' selection collected) (collected : Collected) :
    scope'.collectSelections type follow selections collected =
      scope.collectSelections type follow' selections collected := by
  induction selections generalizing collected with
  | nil => rfl
  | cons first rest ih =>
    obtain ⟨hfirst, hrest⟩ := List.forall_mem_cons.mp h
    rw [collectSelections, collectSelections, hfirst, ih hrest]

/-- The same is collected from a selection that is included alike. -/
theorem collectSelection_withVars
    (hfollow : ∀ name fragment, scope.fragments.get? name = some fragment →
      follow fragment = follow' fragment) (selection : Selection) :
    scope.IncludesAlike vars [selection] → ∀ collected,
      (scope.withVars vars).collectSelection type follow selection collected =
        scope.collectSelection type follow' selection collected := by
  induction selection using Selection.nestedInduction with
  | field node _ =>
    intro halike collected
    obtain ⟨alias?, name, arguments, directives, selections⟩ := node
    have hsame : scope.includes directives vars = scope.includes directives scope.vars :=
      halike _ (.here List.mem_cons_self)
    rw [collectSelection, collectSelection, includes_withVars, vars_withVars, hsame]
  | spread name directives =>
    intro halike collected
    have hsame : scope.includes directives vars = scope.includes directives scope.vars :=
      halike _ (.here List.mem_cons_self)
    rw [collectSelection, collectSelection, includes_withVars, vars_withVars, fragments_withVars,
      applies_withVars, hsame]
    cases hfragment : scope.fragments.get? name with
    | none => rfl
    | some fragment => simp only [hfollow name fragment hfragment]
  | inline condition directives selections ih =>
    intro halike collected
    have hsame : scope.includes directives vars = scope.includes directives scope.vars :=
      halike _ (.here List.mem_cons_self)
    have hinner : scope.IncludesAlike vars selections := fun inner hinner =>
      halike inner (.inline List.mem_cons_self hinner)
    rw [collectSelection, collectSelection, includes_withVars, vars_withVars, applies_withVars,
      hsame, collectSelections_congr fun selection hmem => ih selection hmem (hinner.of_mem hmem)]

end Follow

/-- The same is collected from selections that are included alike, when those in fragments are. -/
theorem collectWithin_withVars
    (hfragments : ∀ name fragment, scope.fragments.get? name = some fragment →
      scope.IncludesAlike vars fragment.selections) (fuel : Nat) {selections : List Selection}
    (hselections : scope.IncludesAlike vars selections) (collected : Collected) :
    (scope.withVars vars).collectWithin type fuel selections collected =
      scope.collectWithin type fuel selections collected := by
  -- By induction on the fuel, of which less is left in the fragments that are followed.
  induction fuel generalizing selections collected with
  | zero =>
    rw [collectWithin, collectWithin]
    exact collectSelections_congr (fun selection hmem =>
      collectSelection_withVars (fun _ _ _ => rfl) selection (hselections.of_mem hmem)) collected
  | succ fuel ih =>
    rw [collectWithin, collectWithin]
    refine collectSelections_congr (fun selection hmem =>
      collectSelection_withVars (fun name fragment hfragment => ?_) selection
        (hselections.of_mem hmem)) collected
    funext collected
    exact ih (hfragments name fragment hfragment) collected

/-- The same is selected under nodes whose selections are included alike, when those in fragments
are. -/
theorem subFields_withVars
    (hfragments : ∀ name fragment, scope.fragments.get? name = some fragment →
      scope.IncludesAlike vars fragment.selections) {nodes : List Field}
    (hnodes : ∀ node ∈ nodes, scope.IncludesAlike vars node.selections) (type : Name) :
    (scope.withVars vars).subFields type nodes = scope.subFields type nodes := by
  unfold subFields
  refine congrArg Collected.fields (List.foldl_ext _ _ _ fun collected node hnode => ?_)
  exact collectWithin_withVars hfragments _ (hnodes node hnode) collected

end Scope

/-- What is collected under a field depends only on which of the variables that decide about it are
true. -/
theorem FieldInfo.subFields_eq_withVars {info : FieldInfo} {vars : Entries Json}
    (h : ∀ name, info.Decides name → (IsTrue info.operation.vars name ↔ IsTrue vars name))
    (type : Name) :
    info.subFields type = (info.operation.scope.withVars vars).subFields type info.nodes := by
  have halike : ∀ selections, (∀ name, DecidesIn selections name → info.Decides name) →
      info.operation.scope.IncludesAlike vars selections :=
    fun selections hdecides selection hoccurs => (isIncluded_congr fun name hname =>
      h name (hdecides name ⟨selection, hoccurs, hname⟩)).symm
  refine (Scope.subFields_withVars ?_ ?_ type).symm
  · intro name fragment hfragment
    exact halike _ fun _ hname => .inr ⟨_, Entries.mem_of_get? hfragment, hname⟩
  · intro node hnode
    exact halike _ fun _ hname => .inl ⟨node, hnode, hname⟩

/-! ## Variables of a request -/

/-- The values that the variables of a request have: those supplied, and the defaults of the
others. -/
def Request.variableValues (request : Request) : Entries Json :=
  match request.document.operations.head? with
  | some operation =>
    effectiveValues (Bindings.definitionsByName operation.vars) request.vars
  | none => []

namespace GatewayOperation

/-- The definition of a variable. -/
def definitionOf? (operation : GatewayOperation) (name : Name) : Option VariableDefinition :=
  (Bindings.definitionsByName operation.operation.vars).get? name

/-- A variable can be a condition: it is defined, with a type that is no input object. -/
def CanDecide (operation : GatewayOperation) (name : Name) : Prop :=
  ∃ definition, operation.definitionOf? name = some definition ∧
    operation.schema.inputFields? definition.type.innerName = none

/-- A variable is left to a default of true: no value is supplied for it. -/
def LeftToTrue (operation : GatewayOperation) (name : Name) : Prop :=
  operation.vars.get? name = none ∧
    ∃ definition, operation.definitionOf? name = some definition ∧
      definition.default? = some (.boolean true)

end GatewayOperation

/-- No number is true. -/
theorem Json.ofDouble?_ne_true (x : Double) : ofDouble? x ≠ some (.bool true) := by
  unfold ofDouble?
  split <;> simp

/-- Only the literal true has the value true. -/
theorem Literal.toJson?_eq_true_iff {literal : Literal} :
    literal.toJson? [] = some (.bool true) ↔ literal = .boolean true := by
  cases literal with
  | boolean value => simp [toJson?]
  | int text =>
    refine iff_of_false (fun h => ?_) (by simp)
    obtain ⟨n, -, hn⟩ := Option.bind_eq_some_iff.mp h
    unfold Json.ofInt64? at hn
    split at hn
    · simp at hn
    · exact Json.ofDouble?_ne_true _ hn
  | float text =>
    refine iff_of_false (fun h => ?_) (by simp)
    rw [toJson?, floatValue?] at h
    split at h
    · exact Json.ofDouble?_ne_true _ h
    · exact Json.ofDouble?_ne_true _ h
    · cases h
  | var name => simp [toJson?, Entries.get?]
  | _ => simp [toJson?]

section Serialized

variable {schema : Schema} {type : TypeRef}

/-- Where no input object is expected, a value is sent as true when it is true. -/
theorem Schema.serializeInput?_eq_true_iff (h : schema.inputFields? type.innerName = none)
    {value : Json} :
    schema.serializeInput? type value = some (.bool true) ↔ value = .bool true := by
  cases value with
  | array items =>
    rw [serializeInput?, h]
    cases type.item? <;> simp
  | _ => simp [serializeInput?, h]

/-- Every value can be sent there. -/
theorem Schema.serializeInput?_ne_none (h : schema.inputFields? type.innerName = none)
    (value : Json) : schema.serializeInput? type value ≠ none := by
  cases value with
  | array items =>
    rw [serializeInput?, h]
    cases type.item? <;> simp
  | _ => simp [serializeInput?, h]

end Serialized

namespace RequestSource

variable {source : RequestSource}

/-- What is forwarded is in the request. -/
theorem extends_bindings (source : RequestSource) : source.forwarded.Extends source.bindings := by
  unfold bindings
  cases source.schema? with
  | none => exact .refl _
  | some schema => exact extends_foldl schema source.wellNamed_forwarded _

/-- The variables of a request are those that are bound for it. -/
theorem request_variableValues {name : Name} (h : source.rootName? = some name) :
    ∃ request, source.request = .ok request ∧ request.vars = source.bindings.values ∧
      request.variableValues =
        effectiveValues source.bindings.definitions source.bindings.values := by
  refine ⟨_, by unfold request; rw [h], rfl, ?_⟩
  have hdefinitions : Bindings.definitionsByName source.bindings.definitions.values =
      source.bindings.definitions := source.wellNamed_bindings.definitions.ofPairs_values
  unfold Request.variableValues
  simp only [Document.operations, List.filterMap_cons, List.head?_cons, hdefinitions]

end RequestSource

/-! ## Conditions of the gateway and of a request -/

namespace FieldInfo

variable {info : FieldInfo} (overrides : RequestOverrides) {name : Name}

/-- The value of a variable that can be a condition is sent for it. -/
theorem get?_values_bindings {definition : VariableDefinition}
    (hdefinition : info.operation.definitionOf? name = some definition)
    (hplain : info.operation.schema.inputFields? definition.type.innerName = none) :
    (info.requestSource overrides).bindings.values.get? name =
      (info.operation.vars.get? name).bind
        (info.operation.schema.serializeInput? definition.type) := by
  have hdefined : name ∈ (info.requestSource overrides).forwarded.definitions.keys :=
    Entries.exists_get?_iff.mp ⟨definition, hdefinition⟩
  have hserialized : (info.requestSource overrides).serializedValues.get? name =
      (info.operation.vars.get? name).bind
        (info.operation.schema.serializeInput? definition.type) :=
    RequestSource.get?_serializedValues rfl hdefinition fun value _ =>
      Schema.serializeInput?_ne_none hplain value
  exact ((RequestSource.extends_bindings _).values name hdefined).trans hserialized

/-- The request for a field carries true for a variable when true is supplied for it. -/
theorem isTrue_values_bindings_iff (h : info.operation.CanDecide name) :
    IsTrue (info.requestSource overrides).bindings.values name ↔
      IsTrue info.operation.vars name := by
  obtain ⟨definition, hdefinition, hplain⟩ := h
  unfold IsTrue
  rw [get?_values_bindings overrides hdefinition hplain, Option.bind_eq_some_iff]
  simp only [Schema.serializeInput?_eq_true_iff hplain, exists_eq_right]

/-- With the defaults of the request, a variable is true when true is supplied for it, or when it is
left to a default of true. -/
theorem isTrue_effectiveValues_bindings_iff (h : info.operation.CanDecide name) :
    IsTrue (effectiveValues (info.requestSource overrides).bindings.definitions
        (info.requestSource overrides).bindings.values) name ↔
      IsTrue info.operation.vars name ∨ info.operation.LeftToTrue name := by
  have hsupplied := isTrue_values_bindings_iff overrides h
  obtain ⟨definition, hdefinition, hplain⟩ := h
  have hforwarded : (info.requestSource overrides).bindings.definitions.get? name =
      some definition := (RequestSource.extends_bindings _).definitions name definition hdefinition
  have hvalue := get?_values_bindings overrides hdefinition hplain
  unfold IsTrue GatewayOperation.LeftToTrue at *
  rw [get?_effectiveValues (RequestSource.wellNamed_bindings _).definitions.distinct, hforwarded,
    Option.bind_some, ← hsupplied, hdefinition]
  cases hgiven : info.operation.vars.get? name with
  | none =>
    rw [hgiven, Option.bind_none] at hvalue
    rw [hvalue, Option.none_or, Option.bind_eq_some_iff]
    simp [Literal.toJson?_eq_true_iff]
  | some value =>
    obtain ⟨json, hjson⟩ :=
      Option.ne_none_iff_exists'.mp (Schema.serializeInput?_ne_none hplain value)
    rw [hgiven, Option.bind_some, hjson] at hvalue
    rw [hvalue, Option.some_or]
    simp

/-- The gateway takes a variable for true exactly when the request for a field carries true for it,
and agrees with whoever executes the request unless the variable is left to a default of true. So
what it collects under a field of the operation is what the values that are carried select without
the defaults; with them it is the same where no variable that decides about it is left to a default
of true. -/
theorem request_conditions (info : FieldInfo) (overrides : RequestOverrides) :
    ∃ request, info.request overrides = .ok request ∧
      (∀ name, info.operation.CanDecide name →
        (IsTrue info.operation.vars name ↔ IsTrue request.vars name) ∧
        ((IsTrue info.operation.vars name ↔ IsTrue request.variableValues name) ↔
          ¬ info.operation.LeftToTrue name)) ∧
      ∀ inner : FieldInfo, inner.operation = info.operation →
        (∀ name, inner.Decides name → info.operation.CanDecide name) → ∀ type,
          inner.subFields type =
              (inner.operation.scope.withVars request.vars).subFields type inner.nodes ∧
            ((∀ name, inner.Decides name → ¬ info.operation.LeftToTrue name) →
              inner.subFields type = (inner.operation.scope.withVars
                request.variableValues).subFields type inner.nodes) := by
  obtain ⟨request, hrequest, hvars, hvalues⟩ :=
    (info.requestSource overrides).request_variableValues rfl
  have hcarried : ∀ name, info.operation.CanDecide name →
      (IsTrue info.operation.vars name ↔ IsTrue request.vars name) := by
    intro name hname
    rw [hvars]
    exact (isTrue_values_bindings_iff overrides hname).symm
  have hagrees : ∀ name, info.operation.CanDecide name →
      ((IsTrue info.operation.vars name ↔ IsTrue request.variableValues name) ↔
        ¬ info.operation.LeftToTrue name) := by
    intro name hname
    rw [hvalues, isTrue_effectiveValues_bindings_iff overrides hname]
    have hunsupplied : info.operation.LeftToTrue name → ¬ IsTrue info.operation.vars name := by
      rintro ⟨hnone, -⟩ htrue
      cases hnone.symm.trans htrue
    tauto
  refine ⟨request, hrequest, fun name hname => ⟨hcarried name hname, hagrees name hname⟩, ?_⟩
  intro inner hinner hdecide type
  exact ⟨subFields_eq_withVars (fun name hname => hinner ▸ hcarried name (hdecide name hname)) type,
    fun hleft => subFields_eq_withVars (fun name hname =>
      hinner ▸ (hagrees name (hdecide name hname)).mpr (hleft name hname)) type⟩

/-- A gateway operation that includes the name of a user by a variable, which it leaves to a default
of true. -/
def profileInfo : FieldInfo where
  operation := {
    schema := {
      types := [
        Builtin.scalar "Boolean", Builtin.scalar "String",
        Builtin.object "Query" [Builtin.field "me" (.named "User")],
        Builtin.object "User" [
          Builtin.field "id" (.named "String"), Builtin.field "name" (.named "String")]]
      directives := []
      roots := [(.query, "Query")] }
    operation := {
      vars := [{ name := "full", type := .named "Boolean", default? := some (.boolean true) }] }
    fragments := []
    vars := [] }
  parentType := "Query"
  fieldName := "me"
  nodes := [{
    name := "me"
    selections := [
      .field { name := "id" },
      .field { name := "name", directives := [⟨"include", [⟨"if", .var "full"⟩]⟩] }] }]
  returnType := .named "User"
  path := []

/-- Only this variable decides what is selected under the field. -/
theorem profileInfo_decides {name : Name} (h : profileInfo.Decides name) : name = "full" := by
  rcases h with ⟨node, hnode, selection, hoccurs, hcondition⟩ | ⟨_, hentry, -⟩
  · obtain rfl := List.mem_singleton.mp hnode
    obtain ⟨first, hfirst, hoccurs⟩ := occurs_iff_exists.mp hoccurs
    simp only [List.mem_cons, List.not_mem_nil, or_false] at hfirst
    rcases hfirst with rfl | rfl
    · obtain rfl := (occurs_field_iff.mp hoccurs).resolve_right not_occurs_nil
      rcases hcondition with h | h <;> cases h
    · obtain rfl := (occurs_field_iff.mp hoccurs).resolve_right not_occurs_nil
      rcases hcondition with h | h
      · cases h
      · exact (Literal.var.inj (Option.some.inj h)).symm
  · cases hentry

/-- The request carries true for the variable, and the gateway leaves the name out. -/
theorem request_conditions_profile :
    profileInfo.operation.CanDecide "full" ∧ profileInfo.operation.LeftToTrue "full" ∧
      ∃ request, profileInfo.request {} = .ok request ∧ ¬ IsTrue request.vars "full" ∧
        IsTrue request.variableValues "full" ∧
        profileInfo.subFields "User" = (profileInfo.operation.scope.withVars
          request.vars).subFields "User" profileInfo.nodes ∧
        (profileInfo.subFields "User").keys = ["id"] ∧
        ((profileInfo.operation.scope.withVars request.variableValues).subFields "User"
          profileInfo.nodes).keys = ["id", "name"] := by
  have hdecide : profileInfo.operation.CanDecide "full" :=
    ⟨{ name := "full", type := .named "Boolean", default? := some (.boolean true) }, rfl, rfl⟩
  have hleft : profileInfo.operation.LeftToTrue "full" := ⟨rfl, _, rfl, rfl⟩
  obtain ⟨request, hrequest, hconditions, hcollected⟩ := request_conditions profileInfo {}
  obtain ⟨hcarried, hagrees⟩ := hconditions "full" hdecide
  have hgateway : ¬ IsTrue profileInfo.operation.vars "full" := by
    intro h
    cases h
  have hdefault : IsTrue request.variableValues "full" := by
    by_contra hnot
    exact hagrees.mp (iff_of_false hgateway hnot) hleft
  have hsupplied := (hcollected profileInfo rfl (fun name hname =>
    profileInfo_decides hname ▸ hdecide) "User").1
  refine ⟨hdecide, hleft, request, hrequest, mt hcarried.mpr hgateway, hdefault, hsupplied,
    by decide, ?_⟩
  cases hrequest
  decide

end FieldInfo

end Gateway
