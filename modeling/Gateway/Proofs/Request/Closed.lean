import Gateway.Proofs.Language.Places
import Gateway.Proofs.Request.Arguments
import Gateway.Proofs.Request.Sent
import Gateway.Schema.Builtin

/-!
# Requests define their variables

A request for a gateway field takes its parts from the gateway operation: the definitions and values
of variables, the arguments of a node, selections and fragments. Defaults of arguments that are not
given are sent besides (`RequestSource.exists_sent_bindings`). So a request defines every variable
that it uses, when the operation does (`FieldInfo.request_closed`).
-/

namespace Gateway

/-- What is defined are the names of the definitions. -/
theorem Bindings.mem_keys_definitionsByName {definitions : List VariableDefinition} {name : Name} :
    name ∈ (definitionsByName definitions).keys ↔
      name ∈ definitions.map VariableDefinition.name := by
  rw [definitionsByName, Entries.mem_keys_ofPairs_iff, Entries.keys, List.map_map]
  rfl

/-! ## Used variables -/

/-- What occurs in a selection occurs where the selection does. -/
theorem Occurs.trans {selection outer : Selection} {selections : List Selection}
    (h : Occurs selection [outer]) (houter : Occurs outer selections) :
    Occurs selection selections := by
  induction houter with
  | here mem => exact h.mono (List.cons_subset.mpr ⟨mem, List.nil_subset _⟩)
  | field mem _ ih => exact .field mem ih
  | inline mem _ ih => exact .inline mem ih

/-- A variable is used in selections, or in one of the fragments. Where else a variable could stand,
in defaults and in directives of definitions, are constants. -/
def UsedIn (selections : List Selection) (fragments : List Fragment) (name : Name) : Prop :=
  SelectionsUse name selections ∨
    ∃ fragment ∈ fragments,
      name ∈ directiveVariables fragment.directives ∨ SelectionsUse name fragment.selections

/-- A variable is used anywhere in a document. -/
def Document.Uses (document : Document) (name : Name) : Prop :=
  ∃ operation ∈ document.operations, name ∈ directiveVariables operation.directives ∨
    UsedIn operation.selections document.fragments name

namespace GatewayOperation

/-- A selection is taken from the operation, or from one of its fragments. -/
def Contains (operation : GatewayOperation) (selection : Selection) : Prop :=
  Occurs selection operation.operation.selections ∨
    ∃ fragment ∈ operation.fragments.values, Occurs selection fragment.selections

/-- The operation uses a variable, in its selections or fragments. -/
def Uses (operation : GatewayOperation) (name : Name) : Prop :=
  UsedIn operation.operation.selections operation.fragments.values name

variable {operation : GatewayOperation} {selection inner : Selection} {name : Name}

/-- With a selection the operation contains what occurs in it. -/
theorem Contains.of_occurs (h : operation.Contains selection) (hinner : Occurs inner [selection]) :
    operation.Contains inner := by
  rcases h with hoccurs | ⟨fragment, hmem, hoccurs⟩
  · exact .inl (hinner.trans hoccurs)
  · exact .inr ⟨fragment, hmem, hinner.trans hoccurs⟩

/-- The operation uses the variables of its selections. -/
theorem Contains.uses (h : operation.Contains selection) (hname : name ∈ selection.ownVariables) :
    operation.Uses name := by
  rcases h with hoccurs | ⟨fragment, hmem, hoccurs⟩
  · exact .inl ⟨selection, hoccurs, hname⟩
  · exact .inr ⟨fragment, hmem, .inr ⟨selection, hoccurs, hname⟩⟩

end GatewayOperation

/-! ## Defaults that are sent -/

namespace RequestSource

/-- The value that is sent for the default of an argument, if it has one. -/
def ownDefault? (schema : Schema) (argument : InputValue) : Option Json :=
  argument.default?.bind (defaultValue? schema argument)

/-- Defaults are sent for arguments that are declared with one and not given, for each once. -/
theorem exists_sent_foldl (schema : Schema) (declared : List InputValue) (bindings : Bindings) :
    ∃ sent : List SentArgument,
      bindings.Sends (ownDefault? schema) (declared.foldl (bindDefault schema) bindings) sent ∧
      (sent.map (·.argument.name)).Nodup ∧
      ∀ one ∈ sent, one.argument ∈ declared ∧ one.argument.default?.isSome ∧
        bindings.arguments.get? one.argument.name = none := by
  induction declared generalizing bindings with
  | nil => exact ⟨[], .nil, List.nodup_nil, fun _ hmem => absurd hmem List.not_mem_nil⟩
  | cons argument rest ih =>
    obtain ⟨sent, hsends, hdistinct, hsent⟩ := ih (bindDefault schema bindings argument)
    rw [List.foldl_cons]
    rcases bindDefault_cases schema bindings argument with heq | ⟨default, hdefault, hnew, heq⟩
    · rw [heq] at hsends hsent ⊢
      exact ⟨sent, hsends, hdistinct, fun one hmem =>
        ⟨List.mem_cons_of_mem _ (hsent one hmem).1, (hsent one hmem).2⟩⟩
    · have hvalue : defaultValue? schema argument default = ownDefault? schema argument := by
        rw [ownDefault?, hdefault, Option.bind_some]
      rw [hvalue] at heq
      -- What is sent afterwards is not given then, so it is not this argument.
      have hafter : ∀ one ∈ sent, one.argument.name ≠ argument.name ∧
          bindings.arguments.get? one.argument.name = none := by
        intro one hone
        have hnone := (hsent one hone).2.2
        rw [heq] at hnone
        unfold Bindings.bind at hnone
        rw [Entries.get?_insert] at hnone
        split at hnone
        next => cases hnone
        next hne => exact ⟨hne, hnone⟩
      rw [heq] at hsends ⊢
      refine ⟨_, (bindings.sends_bind (ownDefault? schema) argument).append hsends, ?_, ?_⟩
      · refine List.nodup_cons.mpr ⟨fun hmem => ?_, hdistinct⟩
        obtain ⟨one, hone, hname⟩ := List.mem_map.mp hmem
        exact (hafter one hone).1 hname
      · refine List.forall_mem_cons.mpr ⟨⟨List.mem_cons_self, ?_, hnew⟩, fun one hone => ?_⟩
        · rw [hdefault]
          rfl
        · exact ⟨List.mem_cons_of_mem _ (hsent one hone).1, (hsent one hone).2.1,
            (hafter one hone).2⟩

variable {source : RequestSource} {schema : Schema}

/-- Behind the arguments that are given, the request gives those for which it sends a default. -/
theorem exists_sent_bindings (source : RequestSource) (h : source.schema? = some schema) :
    ∃ sent : List SentArgument,
      source.bindings.arguments.values =
        source.arguments.values ++ sent.map SentArgument.given ∧
      source.forwarded.boundVariables.Adds (ownDefault? schema) source.bindings.boundVariables
        sent ∧
      ∀ one ∈ sent, one.argument ∈ source.declaredArguments ∧ one.argument.default?.isSome ∧
        one.argument.name ∉ source.arguments.keys := by
  obtain ⟨sent, ⟨harguments, hadds⟩, hdistinct, hsent⟩ :=
    exists_sent_foldl schema source.declaredArguments source.forwarded
  have hbindings : source.bindings =
      source.declaredArguments.foldl (bindDefault schema) source.forwarded := by
    unfold bindings
    rw [h]
    rfl
  have hnew : ∀ one ∈ sent, one.argument.name ∉ source.arguments.keys := fun one hone =>
    Entries.get?_eq_none_iff.mp (hsent one hone).2.2
  have hpairs : ((sent.map SentArgument.given).map fun argument =>
      (argument.name, argument)).map Prod.fst = sent.map (·.argument.name) := by
    rw [List.map_map, List.map_map]
    rfl
  have hnodup : (source.arguments.keys ++ sent.map (·.argument.name)).Nodup := by
    refine List.nodup_append.mpr ⟨source.wellNamed_forwarded.arguments.distinct, hdistinct, ?_⟩
    rintro name hname other hother rfl
    obtain ⟨one, hone, rfl⟩ := List.mem_map.mp hother
    exact hnew one hone hname
  have hbehind : source.bindings.arguments = source.arguments ++
      (sent.map SentArgument.given).map fun argument => (argument.name, argument) := by
    rw [hbindings, harguments]
    exact Entries.insertAll_of_nodup (hpairs ▸ hnodup)
  refine ⟨sent, ?_, hbindings ▸ hadds,
    fun one hone => ⟨(hsent one hone).1, (hsent one hone).2.1, hnew one hone⟩⟩
  rw [hbehind, Entries.values, List.map_append, List.map_map]
  exact congrArg _ (List.map_id _)

/-- Values are forwarded for declared variables. -/
theorem keys_serializedValues_subset (source : RequestSource) :
    source.serializedValues.keys ⊆ source.definitions.map VariableDefinition.name := by
  intro name hname
  cases hschema : source.schema? with
  | none =>
    unfold serializedValues at hname
    rw [hschema] at hname
    exact absurd hname List.not_mem_nil
  | some schema =>
    rw [serializedValues_eq hschema, Entries.mem_keys_ofPairs_iff] at hname
    obtain ⟨entry, hentry, rfl⟩ := List.mem_map.mp hname
    obtain ⟨definition, hmem, hforwarded⟩ := List.mem_filterMap.mp hentry
    rw [(serializedVariable_eq_some hforwarded).1]
    exact List.mem_map_of_mem hmem

section Added

variable {value? : InputValue → Option Json} {sent : List SentArgument}
  (hadds : source.forwarded.boundVariables.Adds value? source.bindings.boundVariables sent)
include hadds

/-- A definition of the request is one of the gateway operation, or it is added. -/
theorem mem_definitions_bindings {definition : VariableDefinition}
    (h : definition ∈ source.bindings.definitions.values) :
    definition ∈ source.definitions ∨ definition ∈ sent.map SentArgument.definition := by
  have hvalues : source.bindings.definitions.values =
      (Bindings.definitionsByName source.definitions).values ++
        sent.map SentArgument.definition := by
    refine (congrArg Entries.values hadds.definitions).trans ?_
    rw [Entries.values, List.map_append, List.map_map]
    rfl
  rw [hvalues, List.mem_append] at h
  exact h.imp_left Entries.mem_of_mem_values_ofPairs

/-- The request defines the variables of the gateway operation, and those that are added. -/
theorem mem_names_bindings_iff {name : Name} :
    name ∈ source.bindings.definitions.values.map VariableDefinition.name ↔
      name ∈ source.definitions.map VariableDefinition.name ∨
        name ∈ sent.map SentArgument.reads := by
  rw [source.wellNamed_bindings.definitions.map_values, ← Bindings.mem_keys_definitionsByName,
    ← List.mem_append]
  exact iff_of_eq (congrArg (name ∈ ·) hadds.keys_eq)

/-- What has a value is defined. -/
theorem mem_names_of_mem_keys_values {name : Name} (h : name ∈ source.bindings.values.keys) :
    name ∈ source.bindings.definitions.values.map VariableDefinition.name := by
  refine (mem_names_bindings_iff hadds).mpr (or_iff_not_imp_right.mpr fun hkept => ?_)
  obtain ⟨value, hvalue⟩ := Entries.exists_get?_iff.mpr h
  refine source.keys_serializedValues_subset (Entries.exists_get?_iff.mp ⟨value, ?_⟩)
  exact (hadds.get?_of_not_mem source.nodup_keys_serializedValues hkept).symm.trans hvalue

end Added

/-- The field that is sent, without alias and directives. -/
def rootField (source : RequestSource) (name : Name) : Field where
  name := name
  arguments := source.bindings.arguments.values
  selections := source.selections

/-- The operation that is sent. -/
def sentOperation (source : RequestSource) (name : Name) : Operation where
  kind := source.kind
  vars := source.bindings.definitions.values
  selections := [.field (source.rootField name)]

/-- A request consists of its operation and the fragments of the gateway operation. -/
theorem request_eq {name : Name} (h : source.rootName? = some name) :
    source.request = .ok {
      document := .ofParts [source.sentOperation name] source.fragments.values
      vars := source.bindings.values } := by
  unfold request
  rw [h]
  rfl

/-- The arguments that are given are those of a node. -/
theorem exists_node_of_mem_arguments {argument : Argument}
    (h : argument ∈ source.arguments.values) :
    ∃ node ∈ source.nodes, argument ∈ node.arguments := by
  unfold arguments at h
  split at h
  next node _ _ hnodes =>
    exact ⟨node, hnodes ▸ List.mem_cons_self, Entries.mem_of_mem_values_ofPairs h⟩
  next => exact absurd h List.not_mem_nil

end RequestSource

/-! ## The request -/

namespace FieldInfo

variable (info : FieldInfo) (overrides : RequestOverrides)

/-- What a request selects, and the nodes whose arguments it gives, are taken from the gateway
operation. -/
structure TakesParts : Prop where
  /-- The nodes are. -/
  nodes : ∀ node ∈ overrides.nodes?.getD info.nodes, info.operation.Contains (.field node)
  /-- So is what is selected in place of their selections. -/
  selections : ∀ selections, overrides.selections? = some selections →
    ∀ selection ∈ selections, info.operation.Contains selection

variable {info overrides}

/-- What the request selects is contained in the operation. -/
theorem TakesParts.contains (h : info.TakesParts overrides) :
    ∀ selection ∈ (info.requestSource overrides).selections,
      info.operation.Contains selection := by
  unfold RequestSource.selections requestSource
  dsimp only
  cases hown : overrides.selections? with
  | some selections => exact h.selections selections hown
  | none =>
    intro selection hmem
    obtain ⟨node, hnode, hmem⟩ := List.mem_flatMap.mp hmem
    exact (h.nodes node hnode).of_occurs (occurs_field_iff.mpr (.inr (.here hmem)))

/-- A variable that is used in the document of a request is used in the gateway operation, or read
by an argument for which a default is sent. -/
theorem TakesParts.uses_or_mem (h : info.TakesParts overrides) {sent : List SentArgument}
    (harguments : (info.requestSource overrides).bindings.arguments.values =
      (info.requestSource overrides).arguments.values ++ sent.map SentArgument.given)
    {target name : Name}
    (huses : Document.Uses (.ofParts [(info.requestSource overrides).sentOperation target]
      info.operation.fragments.values) name) :
    info.operation.Uses name ∨ name ∈ sent.map SentArgument.reads := by
  obtain ⟨operation, hoperation, huses⟩ := huses
  rw [Document.operations_ofParts] at hoperation
  rw [Document.fragments_ofParts] at huses
  obtain rfl := List.mem_singleton.mp hoperation
  rcases huses with hdirective | ⟨selection, hoccurs, hname⟩ | hfragment
  · exact absurd hdirective List.not_mem_nil
  · -- Only the field at the root is new. What it gives comes from a node, or is a default; all that
    -- it selects stands in the gateway operation.
    rcases occurs_field_iff.mp hoccurs with rfl | hoccurs
    · rcases List.mem_append.mp hname with hargument | hdirective
      · obtain ⟨argument, hmem, hname⟩ := List.mem_flatMap.mp hargument
        rw [RequestSource.rootField, harguments] at hmem
        rcases List.mem_append.mp hmem with hmem | hmem
        · obtain ⟨node, hnode, hmem⟩ := RequestSource.exists_node_of_mem_arguments hmem
          exact .inl ((h.nodes node hnode).uses
            (List.mem_append_left _ (List.mem_flatMap.mpr ⟨argument, hmem, hname⟩)))
        · obtain ⟨one, hone, rfl⟩ := List.mem_map.mp hmem
          rw [SentArgument.given, Literal.vars, List.mem_singleton] at hname
          exact .inr (hname ▸ List.mem_map_of_mem hone)
      · exact absurd hdirective List.not_mem_nil
    · obtain ⟨first, hfirst, hoccurs⟩ := occurs_iff_exists.mp hoccurs
      exact .inl (((h.contains first hfirst).of_occurs hoccurs).uses hname)
  · exact .inl (.inr hfragment)

/-- The request for a gateway field whose operation defines every variable that it uses: it has one
operation, which selects one field without alias, defines no variable twice, and defines every
variable that the document uses and every variable that has a value. Behind the arguments of a node
the field has arguments that the gateway field declares with a default, and that were not given;
each reads a variable that the gateway operation does not define, and that is defined without a
default. -/
theorem request_closed (info : FieldInfo) (overrides : RequestOverrides)
    (hparts : info.TakesParts overrides)
    (hdefines : ∀ name, info.operation.Uses name →
      name ∈ info.operation.operation.vars.map VariableDefinition.name) :
    ∃ (request : Request) (operation : Operation) (field : Field) (sent : List SentArgument),
      info.request overrides = .ok request ∧
      request.document.operations = [operation] ∧
      operation.selections = [.field field] ∧ field.alias? = none ∧
      (operation.vars.map VariableDefinition.name).Nodup ∧
      (∀ definition ∈ operation.vars, definition ∈ info.operation.operation.vars ∨
        definition ∈ sent.map SentArgument.definition) ∧
      (∀ name, request.document.Uses name → name ∈ operation.vars.map VariableDefinition.name) ∧
      (∀ name ∈ request.vars.keys, name ∈ operation.vars.map VariableDefinition.name) ∧
      field.arguments =
        (info.requestSource overrides).arguments.values ++ sent.map SentArgument.given ∧
      ∀ one ∈ sent,
        (∃ declared, info.operation.schema.field? info.parentType info.fieldName = some declared ∧
          one.argument ∈ declared.arguments) ∧
        one.argument.default?.isSome ∧
        one.argument.name ∉ (info.requestSource overrides).arguments.keys ∧
        one.reads ∉ info.operation.operation.vars.map VariableDefinition.name := by
  obtain ⟨sent, harguments, hadds, hsent⟩ :=
    (info.requestSource overrides).exists_sent_bindings rfl
  have hnamed := (info.requestSource overrides).wellNamed_bindings.definitions
  refine ⟨_, (info.requestSource overrides).sentOperation _, _, sent,
    RequestSource.request_eq rfl, Document.operations_ofParts .., rfl, rfl,
    hnamed.map_values ▸ hnamed.distinct,
    fun definition => RequestSource.mem_definitions_bindings hadds, fun name huses => ?_,
    fun name => RequestSource.mem_names_of_mem_keys_values hadds, harguments,
    fun one hone => ⟨?_, (hsent one hone).2.1, (hsent one hone).2.2, ?_⟩⟩
  · exact (RequestSource.mem_names_bindings_iff hadds).mpr
      ((hparts.uses_or_mem harguments huses).imp_left (hdefines name))
  · have hdeclared := (hsent one hone).1
    unfold RequestSource.declaredArguments requestSource at hdeclared
    dsimp only at hdeclared
    cases hfield : info.operation.schema.field? info.parentType info.fieldName with
    | none =>
      rw [hfield] at hdeclared
      exact absurd hdeclared List.not_mem_nil
    | some declared =>
      rw [hfield] at hdeclared
      exact ⟨declared, rfl, hdeclared⟩
  · exact fun hmem => hadds.fresh one hone (Bindings.mem_keys_definitionsByName.mpr hmem)

/-- The members that have a role. -/
def membersNode : Field where
  name := "members"
  arguments := [⟨"role", .var "role"⟩]
  selections := [.field { name := "name" }]

/-- A gateway operation that asks for them, and defines a variable that is named as if it was
generated. -/
def membersInfo : FieldInfo where
  operation := {
    schema := {
      types := [
        Builtin.scalar "Int", Builtin.scalar "String",
        Builtin.object "Query" [{
          name := "members", type := .list (.named "User")
          arguments := [
            { name := "first", type := .named "Int", default? := some (.int "10") },
            { name := "role", type := .named "String", default? := some (.string "none") }] }],
        Builtin.object "User" [Builtin.field "name" (.named "String")]]
      directives := []
      roots := [(.query, "Query")] }
    operation := {
      vars := [{ name := "role", type := .named "String" },
        { name := "_v0_first", type := .named "Int" }]
      selections := [.field membersNode] }
    fragments := []
    vars := [("role", .string "admin")] }
  parentType := "Query"
  fieldName := "members"
  nodes := [membersNode]
  returnType := .list (.named "User")
  path := []

/-- The operation defines the only variable that it uses. -/
theorem membersInfo_uses {name : Name} (h : membersInfo.operation.Uses name) : name = "role" := by
  rcases h with ⟨selection, hoccurs, hname⟩ | ⟨_, hfragment, -⟩
  · rcases occurs_field_iff.mp hoccurs with rfl | hoccurs
    · exact List.mem_singleton.mp hname
    · rcases occurs_field_iff.mp hoccurs with rfl | hoccurs
      · exact absurd hname List.not_mem_nil
      · exact absurd hoccurs not_occurs_nil
  · exact absurd hfragment List.not_mem_nil

/-- The default of the argument that is not given is sent by another variable, and all variables of
the request are defined. -/
theorem request_closed_members :
    membersInfo.TakesParts {} ∧
      (∀ name, membersInfo.operation.Uses name →
        name ∈ membersInfo.operation.operation.vars.map VariableDefinition.name) ∧
      ∃ request, membersInfo.request {} = .ok request ∧
        ∀ name, request.document.Uses name → name ∈ ["role", "_v0_first", "_v1_first"] := by
  have hparts : membersInfo.TakesParts {} := by
    refine ⟨fun node hnode => ?_, fun _ hnone => absurd hnone (by simp)⟩
    obtain rfl := List.mem_singleton.mp hnode
    exact .inl (.here List.mem_cons_self)
  have hdefines : ∀ name, membersInfo.operation.Uses name →
      name ∈ membersInfo.operation.operation.vars.map VariableDefinition.name := by
    intro name huses
    rw [membersInfo_uses huses]
    decide
  obtain ⟨request, operation, -, -, hrequest, hoperation, -, -, -, -, huses, -⟩ :=
    request_closed membersInfo {} hparts hdefines
  have hnames : operation.vars.map VariableDefinition.name =
      ["role", "_v0_first", "_v1_first"] := by
    cases hrequest
    cases hoperation
    decide +kernel
  exact ⟨hparts, hdefines, request, hrequest, fun name hname => hnames ▸ huses name hname⟩

end FieldInfo

end Gateway
