import Gateway.Proofs.Input.Integral
import Gateway.Proofs.Request.Closed

/-!
# Defaults that are promoted

The default of an argument that is not given is sent as a variable, which has the type of the
argument and the serialized value of the default (`RequestSource.exists_promotes`). A default that
is built of integers keeps them there, at any depth of lists and input objects: as they are when
they fit in a signed word, and else as doubles near to them
(`RequestSource.request_promotes_integers`).
-/

namespace Gateway

/-- The root field of a request gets an argument from a variable, which is defined with the type of
the argument and has the value. -/
def Request.Promotes (request : Request) (argument : InputValue) (value : Json) : Prop :=
  ∃ (operation : Operation) (node : Field) (name : Name),
    request.document.operations = [operation] ∧ operation.selections = [.field node] ∧
    ⟨argument.name, .var name⟩ ∈ node.arguments ∧
    { name, type := argument.type } ∈ operation.vars ∧ request.vars.get? name = some value

/-- What is written for an integer that fits in a word is a literal of integers. -/
theorem Literal.IsIntegral.of_repr {text : String} {n : Int} (written : n.repr = text)
    (fits : Json.fitsWord n = true) : (Literal.int text).IsIntegral :=
  .int (written ▸ Int.toInt?_repr n) fits

namespace RequestSource

variable {source : RequestSource} {schema : Schema} {argument : InputValue} {default : Literal}

/-- The arguments that a field of a schema that is read declares have different names. -/
theorem nodup_declaredArguments {text : String} (hparse : Schema.parse? text = some schema)
    (hschema : source.schema? = some schema) :
    (source.declaredArguments.map InputValue.name).Nodup := by
  unfold declaredArguments
  rw [hschema]
  cases source.parentType? with
  | none => exact List.nodup_nil
  | some parentType =>
    cases source.fieldName? with
    | none => exact List.nodup_nil
    | some fieldName =>
      dsimp only
      cases hfield : schema.field? parentType fieldName with
      | none => exact List.nodup_nil
      | some field => exact Schema.nodup_arguments hparse hfield

/-- A declared argument with a default that is not given is among those that are sent. -/
theorem exists_sent_of_default (hschema : source.schema? = some schema)
    (hdistinct : (source.declaredArguments.map InputValue.name).Nodup)
    (hdeclared : argument ∈ source.declaredArguments) (hdefault : argument.default? = some default)
    (hnew : source.arguments.get? argument.name = none) {sent : List SentArgument}
    (harguments : source.bindings.arguments.values =
      source.arguments.values ++ sent.map SentArgument.given)
    (hsent : ∀ one ∈ sent, one.argument ∈ source.declaredArguments) :
    ∃ one ∈ sent, one.argument = argument := by
  have hbindings : source.bindings =
      source.declaredArguments.foldl (bindDefault schema) source.forwarded := by
    unfold bindings
    rw [hschema]
    rfl
  have hreads : source.bindings.ReadsOwn argument.name (defaultValue? schema argument default) :=
    hbindings ▸ readsOwn_foldl source.wellNamed_forwarded hdistinct hdeclared hdefault hnew
  obtain ⟨name, -, hargument, -⟩ := hreads
  have hmem : (⟨argument.name, .var name⟩ : Argument) ∈ source.bindings.arguments.values :=
    List.mem_map_of_mem (Entries.mem_of_get? hargument)
  rw [harguments] at hmem
  rcases List.mem_append.mp hmem with hgiven | hadded
  · -- It is not given, so it cannot stand there under its name.
    have hnamed := source.wellNamed_forwarded.arguments
    obtain ⟨entry, hentry, hsame⟩ := List.mem_map.mp hgiven
    have hkey : entry.1 = argument.name := by rw [← hnamed.name entry hentry, hsame]
    have hfound := Entries.get?_of_mem hnamed.distinct hentry
    rw [hkey] at hfound
    exact absurd (hnew.symm.trans hfound) (by simp)
  · obtain ⟨one, hone, hsame⟩ := List.mem_map.mp hadded
    have hname : one.argument.name = argument.name := congrArg Argument.name hsame
    exact ⟨one, hone, List.inj_on_of_nodup_map hdistinct (hsent one hone) hdeclared hname⟩

/-- The default of an argument that is not given is promoted, if it has a serialized value. -/
theorem exists_promotes {root : Name} (hschema : source.schema? = some schema)
    (hroot : source.rootName? = some root)
    (hdistinct : (source.declaredArguments.map InputValue.name).Nodup)
    (hdeclared : argument ∈ source.declaredArguments) (hdefault : argument.default? = some default)
    (hnew : source.arguments.get? argument.name = none) {value : Json}
    (hvalue : defaultValue? schema argument default = some value) :
    ∃ request, source.request = .ok request ∧ request.Promotes argument value := by
  obtain ⟨sent, harguments, hadds, hsent⟩ := source.exists_sent_bindings hschema
  obtain ⟨one, hone, rfl⟩ := exists_sent_of_default hschema hdistinct hdeclared hdefault hnew
    harguments fun one hone => (hsent one hone).1
  refine ⟨_, request_eq hroot, source.sentOperation root, source.rootField root, one.reads,
    Document.operations_ofParts .., rfl, ?_, ?_, ?_⟩
  · have hgiven : one.given ∈ source.bindings.arguments.values := by
      rw [harguments]
      exact List.mem_append_right _ (List.mem_map_of_mem hone)
    exact hgiven
  · have hentry : (one.reads, one.definition) ∈ source.bindings.definitions := by
      have hdefinitions : source.bindings.definitions = _ := hadds.definitions
      rw [hdefinitions]
      exact List.mem_append_right _ (List.mem_map_of_mem hone)
    have hdefined : one.definition ∈ source.bindings.definitions.values :=
      List.mem_map_of_mem (f := Prod.snd) hentry
    exact hdefined
  · have hsentValue := hadds.get?_reads source.nodup_keys_serializedValues hone
    rw [ownDefault?, hdefault, Option.bind_some, hvalue] at hsentValue
    exact hsentValue

/-- In a request for a field of a schema that is read, every default that is built of integers and
not overridden is promoted: the variable has the structure of the default, without undeclared input
fields, and each integer that fits in a signed word as it is. A greater integer becomes a double
near to it. -/
theorem request_promotes_integers {text : String} {root : Name}
    (hparse : Schema.parse? text = some schema) (hschema : source.schema? = some schema)
    (hroot : source.rootName? = some root) (hdeclared : argument ∈ source.declaredArguments)
    (hdefault : argument.default? = some default)
    (hnew : source.arguments.get? argument.name = none)
    (hintegral : default.IntegralFor schema argument.type) :
    ∃ request value, source.request = .ok request ∧ request.Promotes argument value ∧
      default.Carries schema argument.type value := by
  have hinputs : schema.DistinctInputs := fun _ _ => Schema.nodup_inputFields hparse
  obtain ⟨value, hvalue, hcarries⟩ := hintegral.carries hinputs []
  obtain ⟨request, hrequest, hpromotes⟩ := exists_promotes hschema hroot
    (nodup_declaredArguments hparse hschema) hdeclared hdefault hnew hvalue
  exact ⟨request, value, hrequest, hpromotes, hcarries⟩

/-- The definitions of a service that finds something by numbers. -/
def idsText : String :=
  "type Query \x7b found(by: Ids = \x7bmore: \x7bany: 18446744073709551615, none: 0\x7d, " ++
    "any: [9223372036854775807, [-9223372036854775808]]\x7d): ID \x7d " ++
    "input Ids { any: [[BigId]] more: Ids } scalar BigId"

/-- By which numbers it does when none are given: the greatest ones of unsigned and of signed words,
and the least ones. -/
def idsDefault : Literal :=
  .object [
    ("more", .object [("any", .int "18446744073709551615"), ("none", .int "0")]),
    ("any", .list [.int "9223372036854775807", .list [.int "-9223372036854775808"]])]

/-- The argument for the numbers. -/
def idsArgument : InputValue where
  name := "by"
  type := .named "Ids"
  default? := some idsDefault

/-- The schema that they define. -/
def idsSchema : Schema where
  types := Builtin.introspectionTypes ++ ["String", "Boolean", "ID"].map Builtin.scalar ++ [
    { name := "Query", body := .object []
        [{ name := "found", arguments := [idsArgument], type := .named "ID" }] },
    { name := "Ids", body := .input
        [{ name := "any", type := .list (.list (.named "BigId")) },
         { name := "more", type := .named "Ids" }] },
    Builtin.scalar "BigId"]
  directives := Builtin.directives
  roots := [(.query, "Query")]

/-- Where a request for it comes from, without arguments. -/
def idsSource : RequestSource where
  schema? := some idsSchema
  parentType? := some "Query"
  fieldName? := some "found"
  fragments := []
  definitions := []
  values := []
  kind := .query
  target? := none
  selections? := none
  nodes := [{ name := "found" }]

/-- The default is built of integers. -/
theorem idsDefault_integral : idsDefault.IntegralFor idsSchema (.named "Ids") := by
  have hgreatest : (Literal.int "9223372036854775807").IsIntegral :=
    .of_repr (by decide +kernel : (9223372036854775807 : Int).repr = _) (by decide)
  have hleast : (Literal.int "-9223372036854775808").IsIntegral :=
    .of_repr (by decide +kernel : (-9223372036854775808 : Int).repr = _) (by decide)
  have hunsigned : (Literal.int "18446744073709551615").IsIntegral :=
    .of_repr (by decide +kernel : (18446744073709551615 : Int).repr = _) (by decide)
  have hany : (Literal.list [.int "9223372036854775807",
      .list [.int "-9223372036854775808"]]).IsIntegral := by
    refine .list (List.forall_mem_cons.mpr ⟨hgreatest, ?_⟩)
    rw [List.forall_mem_singleton]
    exact .list (List.forall_mem_singleton.mpr hleast)
  have hmore : (Literal.object
      [("any", .int "18446744073709551615"), ("none", .int "0")]).IntegralFor idsSchema
        (.named "Ids") := by
    refine .object rfl (List.forall_mem_cons.mpr ⟨fun input hinput hname => ?_, ?_⟩)
    · rcases List.mem_pair.mp hinput with rfl | rfl
      · exact .leaf rfl hunsigned
      · exact absurd hname (by decide)
    · intro entry hentry input hinput hname
      obtain rfl := List.mem_singleton.mp hentry
      rcases List.mem_pair.mp hinput with rfl | rfl <;> exact absurd hname (by decide)
  refine .object rfl (List.forall_mem_cons.mpr ⟨fun input hinput hname => ?_, ?_⟩)
  · rcases List.mem_pair.mp hinput with rfl | rfl
    · exact absurd hname (by decide)
    · exact hmore
  · intro entry hentry input hinput hname
    obtain rfl := List.mem_singleton.mp hentry
    rcases List.mem_pair.mp hinput with rfl | rfl
    · exact .leaf rfl hany
    · exact absurd hname (by decide)

/-- The integers of signed words are sent, below the double in place of the greatest one. -/
theorem request_promotes_integers_ids :
    Schema.parse? idsText = some idsSchema ∧ idsSource.rootName? = some "found" ∧
      idsArgument ∈ idsSource.declaredArguments ∧
      idsSource.arguments.get? idsArgument.name = none ∧
      idsDefault.IntegralFor idsSchema idsArgument.type ∧
      ∃ request value, idsSource.request = .ok request ∧ request.Promotes idsArgument value ∧
        idsDefault.Carries idsSchema idsArgument.type value := by
  have hparse : Schema.parse? idsText = some idsSchema := by decide +kernel
  have hdeclared : idsArgument ∈ idsSource.declaredArguments := List.mem_singleton_self _
  exact ⟨hparse, rfl, hdeclared, rfl, idsDefault_integral,
    request_promotes_integers hparse rfl rfl hdeclared rfl rfl idsDefault_integral⟩

end RequestSource

end Gateway
