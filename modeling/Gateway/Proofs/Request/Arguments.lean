import Gateway.Proofs.Input.Substituted
import Gateway.Proofs.Request.Bound
import Gateway.Request.Build

/-!
# Arguments of the request for a gateway field

The request for a gateway field gives its root field the values that the gateway field gets for its
arguments, up to how values are serialized (`FieldInfo.request_gives`). A declared default is sent
for an argument that is not given (`RequestSource.readsOwn_foldl`). An argument for which a variable
without a value is given counts as given there (`FieldInfo.IsUnbound`): in place of the default that
it has in the gateway the request gives nothing.
-/

namespace Gateway

/-! ## Values in a gateway operation -/

namespace FieldInfo

variable (info : FieldInfo) (overrides : RequestOverrides)

/-- The values of the variables of the gateway operation. -/
def variableValues : Entries Json :=
  effectiveValues (Bindings.definitionsByName info.operation.operation.vars) info.operation.vars

/-- The literal that the first node gives for an argument. -/
def given? (argument : Name) : Option Literal :=
  (overrides.nodes?.getD info.nodes).head?.bind fun node =>
    ((Bindings.argumentsByName node.arguments).get? argument).map Argument.value

/-- The value of a declared argument: the one given, or the default when none is given, or only a
variable without a value. -/
def argumentValue? (argument : InputValue) : Option Json :=
  let absent := argument.default?.bind (Literal.toJson? [])
  match info.given? overrides argument.name with
  | none => absent
  | some (.var name) => (info.variableValues.get? name).or absent
  | some literal => literal.toJson? info.variableValues

/-- A variable without a value is given for the argument. -/
def IsUnbound (argument : Name) : Prop :=
  ∃ name, info.given? overrides argument = some (.var name) ∧ info.variableValues.get? name = none

/-- The arguments of the field can be coerced: they are declared once, the values supplied for
variables have the types of these, and so do the literals that are given. -/
structure Coercible (field : FieldDefinition) : Prop where
  /-- No argument is declared twice. -/
  distinct : (field.arguments.map InputValue.name).Nodup
  /-- The value supplied for a variable can be serialized for its type. -/
  supplied : ∀ name definition value,
    (Bindings.definitionsByName info.operation.operation.vars).get? name = some definition →
    info.operation.vars.get? name = some value →
    info.operation.schema.serializeInput? definition.type value ≠ none
  /-- A literal that is given fits the argument. -/
  fits : ∀ argument ∈ field.arguments, ∀ literal,
    info.given? overrides argument.name = some literal →
    literal.Fits info.operation.schema
      (Bindings.definitionsByName info.operation.operation.vars) argument.type

end FieldInfo

/-! ## Values in a request -/

/-- The value that the first root field of a request gives for an argument. -/
def Request.argumentValue? (request : Request) (argument : Name) : Option Json := do
  let operation ← request.document.operations.head?
  let field ← (directFields operation.selections).head?
  Bindings.valueOf?
    { arguments := Bindings.argumentsByName field.arguments
      definitions := Bindings.definitionsByName operation.vars
      values := request.vars } argument

namespace RequestSource

variable {schema : Schema} {source : RequestSource}

/-- The arguments that are given, and the variables that are forwarded. -/
def forwarded (source : RequestSource) : Bindings where
  arguments := source.arguments
  definitions := Bindings.definitionsByName source.definitions
  values := source.serializedValues

/-- No variable is forwarded with two values. -/
theorem nodup_keys_serializedValues (source : RequestSource) :
    source.serializedValues.keys.Nodup := by
  unfold serializedValues
  cases source.schema? with
  | none => exact List.nodup_nil
  | some schema => exact Entries.nodup_keys_ofPairs _

/-- Everything that is forwarded stands under its name. -/
theorem wellNamed_forwarded (source : RequestSource) : source.forwarded.WellNamed where
  arguments := by
    unfold forwarded arguments
    dsimp only
    split
    · exact Entries.named_ofPairs ..
    · exact ⟨List.nodup_nil, fun _ hentry => absurd hentry List.not_mem_nil⟩
  definitions := Entries.named_ofPairs ..
  values := source.nodup_keys_serializedValues

/-! ### Forwarded variables -/

/-- The value that is forwarded for a variable, when it can be serialized. -/
def serializedVariable (schema : Schema) (values : Entries Json)
    (definition : VariableDefinition) : Option (Name × Json) :=
  (values.get? definition.name).bind fun value =>
    (schema.serializeInput? definition.type value).map (Prod.mk definition.name)

/-- The values of the variables are serialized one by one. -/
theorem serializedValues_eq (h : source.schema? = some schema) :
    source.serializedValues = Entries.ofPairs
      (source.definitions.filterMap (serializedVariable schema source.values)) := by
  unfold serializedValues
  rw [h]
  refine congrArg Entries.ofPairs (List.filterMap_congr fun definition _ => ?_)
  refine Option.bind_congr fun value _ => ?_
  exact Option.map_eq_bind.symm

/-- What is forwarded for a variable stands under its name. -/
theorem serializedVariable_eq_some {values : Entries Json} {definition : VariableDefinition}
    {entry : Name × Json} (h : serializedVariable schema values definition = some entry) :
    entry.1 = definition.name ∧ ∃ value, values.get? definition.name = some value ∧
      schema.serializeInput? definition.type value = some entry.2 := by
  obtain ⟨value, hvalue, hserialized⟩ := Option.bind_eq_some_iff.mp h
  obtain ⟨json, hjson, rfl⟩ := Option.map_eq_some_iff.mp hserialized
  exact ⟨rfl, value, hvalue, hjson⟩

/-- The serialized value of a variable is forwarded, if it has one. -/
theorem get?_serializedValues (hschema : source.schema? = some schema) {name : Name}
    {definition : VariableDefinition}
    (hdefinition : (Bindings.definitionsByName source.definitions).get? name = some definition)
    (hsupplied : ∀ value, source.values.get? name = some value →
      schema.serializeInput? definition.type value ≠ none) :
    source.serializedValues.get? name =
      (source.values.get? name).bind (schema.serializeInput? definition.type) := by
  rw [serializedValues_eq hschema]
  cases hvalue : source.values.get? name with
  | none =>
    rw [Option.bind_none, Entries.get?_eq_none_iff, Entries.mem_keys_ofPairs_iff]
    intro hkey
    obtain ⟨entry, hentry, hname⟩ := List.mem_map.mp hkey
    obtain ⟨other, -, hother⟩ := List.mem_filterMap.mp hentry
    obtain ⟨hkey, value, hfound, -⟩ := serializedVariable_eq_some hother
    rw [← hkey, hname, hvalue] at hfound
    cases hfound
  | some value =>
    obtain ⟨json, hjson⟩ := Option.ne_none_iff_exists'.mp (hsupplied value hvalue)
    rw [Option.bind_some, hjson]
    -- The definition that counts is the last of its name, and so is what is forwarded for it.
    obtain ⟨before, last, after, hall, hname, rfl, hlast⟩ :=
      Entries.exists_last_of_get?_ofPairs hdefinition
    have hentry : serializedVariable schema source.values last = some (name, json) := by
      unfold serializedVariable
      rw [hname, hvalue, Option.bind_some, hjson, Option.map_some]
    refine Entries.get?_ofPairs_eq_some_iff.mpr
      ⟨before.filterMap (serializedVariable schema source.values),
        after.filterMap (serializedVariable schema source.values), ?_, fun hkey => ?_⟩
    · rw [hall, List.filterMap_append, List.filterMap_cons, hentry]
    · obtain ⟨entry, hmem, hsame⟩ := List.mem_map.mp hkey
      obtain ⟨other, hother, hforwarded⟩ := List.mem_filterMap.mp hmem
      exact hlast other hother ((serializedVariable_eq_some hforwarded).1.symm.trans hsame)

/-! ### Defaults -/

variable {bindings : Bindings} {argument : InputValue} {declared : List InputValue}

/-- A declared argument is left as it is, or it is not given and its default is bound. -/
theorem bindDefault_cases (schema : Schema) (bindings : Bindings) (argument : InputValue) :
    bindDefault schema bindings argument = bindings ∨
    ∃ default, argument.default? = some default ∧ bindings.arguments.get? argument.name = none ∧
      bindDefault schema bindings argument = bindings.bind argument.name argument.type
        (defaultValue? schema argument default) := by
  unfold bindDefault
  cases hdefault : argument.default? with
  | none => exact .inl rfl
  | some default =>
    dsimp only
    by_cases hgiven : bindings.arguments.contains argument.name
    · rw [if_pos hgiven]
      exact .inl rfl
    · rw [if_neg hgiven]
      exact .inr ⟨default, rfl, Option.not_isSome_iff_eq_none.mp hgiven, rfl⟩

/-- What is given is left. -/
theorem extends_bindDefault (schema : Schema) (h : bindings.WellNamed) (argument : InputValue) :
    bindings.Extends (bindDefault schema bindings argument) := by
  rcases bindDefault_cases schema bindings argument with heq | ⟨_, _, hnew, heq⟩
  · rw [heq]
    exact .refl bindings
  · rw [heq]
    exact Bindings.extends_bind h.values hnew _ _

/-- Everything stays under its name. -/
theorem wellNamed_bindDefault (schema : Schema) (h : bindings.WellNamed) (argument : InputValue) :
    (bindDefault schema bindings argument).WellNamed := by
  rcases bindDefault_cases schema bindings argument with heq | ⟨_, _, _, heq⟩
  · rw [heq]
    exact h
  · rw [heq]
    exact h.bind _ _ _

/-- Only an argument with a default is bound. -/
theorem get?_arguments_bindDefault {name : Name}
    (h : argument.name = name → argument.default? = none) :
    (bindDefault schema bindings argument).arguments.get? name = bindings.arguments.get? name := by
  rcases bindDefault_cases schema bindings argument with heq | ⟨default, hdefault, _, heq⟩
  · rw [heq]
  · rw [heq]
    unfold Bindings.bind
    rw [Entries.get?_insert, if_neg]
    rintro rfl
    rw [h rfl] at hdefault
    cases hdefault

/-- The default of an argument that is not given is bound. -/
theorem readsOwn_bindDefault (h : bindings.WellNamed) {default : Literal}
    (hdefault : argument.default? = some default)
    (hnew : bindings.arguments.get? argument.name = none) :
    (bindDefault schema bindings argument).ReadsOwn argument.name
      (defaultValue? schema argument default) := by
  have hgiven : ¬bindings.arguments.contains argument.name :=
    Option.not_isSome_iff_eq_none.mpr hnew
  unfold bindDefault
  rw [hdefault]
  dsimp only
  rw [if_neg hgiven]
  exact Bindings.readsOwn_bind h.values ..

/-- What is given is left by all declared arguments. -/
theorem extends_foldl (schema : Schema) (h : bindings.WellNamed) (declared : List InputValue) :
    bindings.Extends (declared.foldl (bindDefault schema) bindings) := by
  induction declared generalizing bindings with
  | nil => exact .refl bindings
  | cons first rest ih =>
    exact (extends_bindDefault schema h first).trans (ih (wellNamed_bindDefault schema h first))

/-- Everything stays under its name. -/
theorem wellNamed_foldl (schema : Schema) (h : bindings.WellNamed) (declared : List InputValue) :
    (declared.foldl (bindDefault schema) bindings).WellNamed :=
  List.foldlRecOn declared _ h fun _ hnamed argument _ =>
    wellNamed_bindDefault schema hnamed argument

/-- Only arguments with a default are bound. -/
theorem get?_arguments_foldl {name : Name}
    (h : ∀ argument ∈ declared, argument.name = name → argument.default? = none) :
    (declared.foldl (bindDefault schema) bindings).arguments.get? name =
      bindings.arguments.get? name := by
  induction declared generalizing bindings with
  | nil => rfl
  | cons first rest ih =>
    obtain ⟨hfirst, hrest⟩ := List.forall_mem_cons.mp h
    rw [List.foldl_cons, ih hrest, get?_arguments_bindDefault hfirst]

/-- The default of an argument that is not given is sent. -/
theorem readsOwn_foldl (hnamed : bindings.WellNamed)
    (hdistinct : (declared.map InputValue.name).Nodup) (hdeclared : argument ∈ declared)
    {default : Literal} (hdefault : argument.default? = some default)
    (hnew : bindings.arguments.get? argument.name = none) :
    (declared.foldl (bindDefault schema) bindings).ReadsOwn argument.name
      (defaultValue? schema argument default) := by
  obtain ⟨before, after, rfl⟩ := List.append_of_mem hdeclared
  rw [List.map_append, List.map_cons, List.nodup_append] at hdistinct
  -- No other argument of the name is declared before, so this one is still not given there.
  have hstill : (before.foldl (bindDefault schema) bindings).arguments.get? argument.name =
      none := by
    rw [get?_arguments_foldl fun other hother hname => ?_, hnew]
    exact absurd hname (hdistinct.2.2 _ (List.mem_map_of_mem hother) _ List.mem_cons_self)
  have hbefore := wellNamed_foldl schema hnamed before
  rw [List.foldl_append, List.foldl_cons]
  exact (readsOwn_bindDefault hbefore hdefault hstill).extend
    (extends_foldl schema (wellNamed_bindDefault schema hbefore argument) after)

/-- An argument that is not given has its default, as far as it has one that can be serialized. -/
theorem valueOf?_foldl (hnamed : bindings.WellNamed)
    (hdistinct : (declared.map InputValue.name).Nodup) (hdeclared : argument ∈ declared)
    (hnew : bindings.arguments.get? argument.name = none) :
    (declared.foldl (bindDefault schema) bindings).valueOf? argument.name =
      (argument.default?.bind (Literal.toJson? [])).bind
        (schema.serializeInput? argument.type) := by
  cases hdefault : argument.default? with
  | some default =>
    exact (readsOwn_foldl hnamed hdistinct hdeclared hdefault hnew).valueOf?_eq
      (wellNamed_foldl schema hnamed declared)
  | none =>
    have hnever : ∀ other ∈ declared, other.name = argument.name → other.default? = none := by
      intro other hother hname
      rw [List.inj_on_of_nodup_map hdistinct hother hdeclared hname, hdefault]
    unfold Bindings.valueOf?
    rw [get?_arguments_foldl hnever, hnew]
    rfl

end RequestSource

/-! ## The request -/

namespace RequestSource

variable {source : RequestSource}

/-- The arguments and variables that are sent stand under their names. -/
theorem wellNamed_bindings (source : RequestSource) : source.bindings.WellNamed := by
  unfold bindings
  dsimp only
  cases source.schema? with
  | none => exact source.wellNamed_forwarded
  | some schema => exact wellNamed_foldl schema source.wellNamed_forwarded _

/-- A request for a root field gives it the arguments that are bound for it. -/
theorem request_argumentValue? {name : Name} (h : source.rootName? = some name) :
    ∃ request, source.request = .ok request ∧
      ∀ argument, request.argumentValue? argument = source.bindings.valueOf? argument := by
  refine ⟨_, by unfold request; rw [h], fun argument => ?_⟩
  have hnamed := source.wellNamed_bindings
  have harguments : Bindings.argumentsByName source.bindings.arguments.values =
      source.bindings.arguments := hnamed.arguments.ofPairs_values
  have hdefinitions : Bindings.definitionsByName source.bindings.definitions.values =
      source.bindings.definitions := hnamed.definitions.ofPairs_values
  unfold Request.argumentValue?
  simp only [Document.operations, List.filterMap_cons, List.head?_cons, Option.bind_eq_bind,
    Option.bind_some, directFields, List.filterMap_nil, Selection.asField?, harguments,
    hdefinitions]

end RequestSource

/-! ## The values of the field and those of the request -/

namespace FieldInfo

variable {info : FieldInfo} {overrides : RequestOverrides} {field : FieldDefinition}

/-- The defaults of the field are bound to what is forwarded. -/
theorem bindings_requestSource
    (hfield : info.operation.schema.field? info.parentType info.fieldName = some field) :
    (info.requestSource overrides).bindings =
      field.arguments.foldl (RequestSource.bindDefault info.operation.schema)
        (info.requestSource overrides).forwarded := by
  unfold RequestSource.bindings RequestSource.declaredArguments requestSource
  dsimp only
  rw [hfield]
  rfl

/-- The literals that are given are forwarded, unless other selections replace the nodes. -/
theorem given?_eq (hown : overrides.selections? = none) (argument : Name) :
    info.given? overrides argument =
      ((info.requestSource overrides).forwarded.arguments.get? argument).map Argument.value := by
  unfold given? RequestSource.forwarded RequestSource.arguments requestSource
  dsimp only
  rw [hown]
  cases overrides.nodes?.getD info.nodes <;> rfl

/-- A variable of the gateway operation has the same value in the request, once serialized. -/
theorem Coercible.variable_alike (h : info.Coercible overrides field) {bindings : Bindings}
    (hnamed : bindings.WellNamed)
    (hextends : (info.requestSource overrides).forwarded.Extends bindings) {name : Name}
    {definition : VariableDefinition}
    (hdefinition : (Bindings.definitionsByName info.operation.operation.vars).get? name =
      some definition) :
    Literal.BothAlike info.operation.schema definition.type
      ((effectiveValues bindings.definitions bindings.values).get? name)
      (info.variableValues.get? name) := by
  have hdefined : bindings.definitions.get? name = some definition :=
    hextends.definitions name definition hdefinition
  have hforwarded : (info.requestSource overrides).serializedValues.get? name =
      (info.operation.vars.get? name).bind
        (info.operation.schema.serializeInput? definition.type) :=
    RequestSource.get?_serializedValues rfl hdefinition fun value hvalue =>
      h.supplied name definition value hdefinition hvalue
  have hvalue : bindings.values.get? name =
      (info.operation.vars.get? name).bind
        (info.operation.schema.serializeInput? definition.type) :=
    (hextends.values name (Entries.exists_get?_iff.mp ⟨definition, hdefinition⟩)).trans hforwarded
  have hdistinct : (Bindings.definitionsByName info.operation.operation.vars).keys.Nodup :=
    Entries.nodup_keys_ofPairs _
  unfold variableValues
  rw [get?_effectiveValues hnamed.definitions.distinct, hdefined, hvalue,
    get?_effectiveValues hdistinct, hdefinition]
  cases hsupplied : info.operation.vars.get? name with
  | none => exact .refl _
  | some value =>
    obtain ⟨json, hjson⟩ := Option.ne_none_iff_exists'.mp
      (h.supplied name definition value hdefinition hsupplied)
    rw [Option.bind_some, Option.bind_some, Option.bind_some, hjson, Option.some_or,
      Option.some_or]
    exact .some ((Schema.serializeInput?_serialized _ _ _ hjson).trans hjson.symm)

/-- The literal given for an argument has the same value in the request, once serialized. -/
theorem Coercible.literal_alike (h : info.Coercible overrides field) {bindings : Bindings}
    (hnamed : bindings.WellNamed)
    (hextends : (info.requestSource overrides).forwarded.Extends bindings)
    {argument : InputValue} (hargument : argument ∈ field.arguments) {given : Argument}
    (hforwarded : (info.requestSource overrides).forwarded.arguments.get? argument.name =
      some given)
    (hgiven : info.given? overrides argument.name = some given.value) :
    Literal.BothAlike info.operation.schema argument.type (bindings.valueOf? argument.name)
      (given.value.toJson? info.variableValues) := by
  unfold Bindings.valueOf?
  rw [hextends.arguments argument.name given hforwarded]
  exact (h.fits argument hargument given.value hgiven).toJson?_alike
    fun name definition hdefinition => h.variable_alike hnamed hextends hdefinition

/-- The value of an argument is that of the literal given, unless that is a variable without a
value, in place of which a default stands. -/
theorem argumentValue?_of_given {argument : InputValue} {literal : Literal}
    (hgiven : info.given? overrides argument.name = some literal)
    (hdefault : info.IsUnbound overrides argument.name → argument.default? = none) :
    info.argumentValue? overrides argument = literal.toJson? info.variableValues := by
  unfold argumentValue?
  rw [hgiven]
  cases literal with
  | var name =>
    dsimp only
    rw [Literal.toJson?]
    cases hvalue : info.variableValues.get? name with
    | none => rw [hdefault ⟨name, hgiven, hvalue⟩, Option.bind_none, Option.none_or]
    | some value => rw [Option.some_or]
  | _ => rfl

/-- For every declared argument the request gives the root field the value that the field gets,
once serialized. Only where a variable without a value is given for an argument with a default does
it give nothing in place of this default. -/
theorem request_gives
    (hfield : info.operation.schema.field? info.parentType info.fieldName = some field)
    (hown : overrides.selections? = none) (h : info.Coercible overrides field) :
    ∃ request, info.request overrides = .ok request ∧ ∀ argument ∈ field.arguments,
      (info.IsUnbound overrides argument.name → request.argumentValue? argument.name = none) ∧
      ((info.IsUnbound overrides argument.name → argument.default? = none) →
        (request.argumentValue? argument.name).bind
            (info.operation.schema.serializeInput? argument.type) =
          (info.argumentValue? overrides argument).bind
            (info.operation.schema.serializeInput? argument.type)) := by
  obtain ⟨request, hrequest, hvalues⟩ :=
    (info.requestSource overrides).request_argumentValue? rfl
  refine ⟨request, hrequest, fun argument hargument => ?_⟩
  have hgiven := info.given?_eq hown argument.name
  rw [hvalues, bindings_requestSource hfield]
  cases hforwarded :
      (info.requestSource overrides).forwarded.arguments.get? argument.name with
  | none =>
    rw [hforwarded, Option.map_none] at hgiven
    constructor
    · rintro ⟨name, hname, -⟩
      rw [hgiven] at hname
      cases hname
    · intro _
      have habsent : info.argumentValue? overrides argument =
          argument.default?.bind (Literal.toJson? []) := by
        unfold argumentValue?
        rw [hgiven]
      rw [habsent, RequestSource.valueOf?_foldl (RequestSource.wellNamed_forwarded _) h.distinct
        hargument hforwarded, Schema.bind_serializeInput?]
  | some given =>
    rw [hforwarded, Option.map_some] at hgiven
    have hsource := RequestSource.wellNamed_forwarded (info.requestSource overrides)
    have hnamed := RequestSource.wellNamed_foldl info.operation.schema hsource field.arguments
    have hextends := RequestSource.extends_foldl info.operation.schema hsource field.arguments
    have halike := h.literal_alike hnamed hextends hargument hforwarded hgiven
    constructor
    · rintro ⟨name, hname, hnone⟩
      rw [Option.some.inj (hgiven.symm.trans hname), Literal.toJson?, hnone] at halike
      exact Option.isNone_iff_eq_none.mp (by simpa using halike.isSome_eq)
    · intro hdefault
      rw [argumentValue?_of_given hgiven hdefault]
      exact halike.bind_eq

/-- A field with a flag and an order that have defaults, and a filter. -/
def usersField : FieldDefinition where
  name := "users"
  arguments := [
    { name := "active", type := .named "Boolean", default? := some (.boolean true) },
    { name := "order", type := .named "String", default? := some (.string "id") },
    { name := "filter", type := .named "Filter" }]
  type := .list (.named "User")

/-- A gateway operation that gives variables for the flag and the filter; only that of the filter
has a value. -/
def usersInfo : FieldInfo where
  operation := {
    schema := {
      types := [
        { name := "Query", body := .object [] [usersField] },
        { name := "Boolean", body := .scalar }, { name := "String", body := .scalar },
        { name := "Filter", body := .input [{ name := "name", type := .named "String" }] }]
      directives := []
      roots := [(.query, "Query")] }
    operation := {
      vars := [
        { name := "a", type := .named "Boolean" }, { name := "f", type := .named "Filter" }] }
    fragments := []
    vars := [("f", .object [("name", .string "ann"), ("unknown", .bool true)])] }
  parentType := "Query"
  fieldName := "users"
  nodes := [{ name := "users", arguments := [⟨"active", .var "a"⟩, ⟨"filter", .var "f"⟩] }]
  returnType := .list (.named "User")
  path := []

/-- The arguments of the field can be coerced. -/
theorem usersInfo_coercible : usersInfo.Coercible {} usersField where
  distinct := by decide
  supplied name definition value hdefinition hvalue := by
    have hmem : (name, value) ∈ usersInfo.operation.vars := Entries.mem_of_get? hvalue
    obtain ⟨rfl, rfl⟩ := Prod.mk.inj (List.mem_singleton.mp hmem)
    obtain rfl := Option.some.inj hdefinition
    decide +kernel
  fits argument hargument literal hgiven := by
    unfold usersField at hargument
    simp only [List.mem_cons, List.not_mem_nil, or_false] at hargument
    obtain rfl | rfl | rfl := hargument
    · obtain rfl := Option.some.inj hgiven
      exact .var rfl rfl
    · cases hgiven
    · obtain rfl := Option.some.inj hgiven
      exact .var rfl rfl

/-- The default of the flag is not sent; that of the order is, and so is what the filter
declares. -/
theorem request_gives_users :
    usersInfo.argumentValue? {} usersField.arguments[0] = some (.bool true) ∧
    ∃ request, usersInfo.request {} = .ok request ∧
      request.argumentValue? "active" = none ∧
      (request.argumentValue? "order").bind
          (usersInfo.operation.schema.serializeInput? (.named "String")) = some (.string "id") ∧
      (request.argumentValue? "filter").bind
          (usersInfo.operation.schema.serializeInput? (.named "Filter")) =
        some (.object [("name", .string "ann")]) := by
  obtain ⟨request, hrequest, hgives⟩ := request_gives rfl rfl usersInfo_coercible
  obtain ⟨hactive, hrest⟩ := List.forall_mem_cons.mp hgives
  obtain ⟨horder, hrest⟩ := List.forall_mem_cons.mp hrest
  obtain ⟨hfilter, -⟩ := List.forall_mem_cons.mp hrest
  refine ⟨rfl, request, hrequest, hactive.1 ⟨"a", rfl, rfl⟩, horder.2 ?_,
    hfilter.2 fun _ => rfl⟩
  rintro ⟨name, hname, -⟩
  cases hname

end FieldInfo

end Gateway
