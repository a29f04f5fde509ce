import Gateway.Proofs.Delegation.Depth
import Gateway.Proofs.Stitching.Rounds
import Mathlib.Logic.Function.Iterate

/-!
# Nested merges

Objects of an answer are completed for the gateway fields that they answer. Merging is skipped for
the answer to a merge itself, so what is merged in it answers a field below the one that the merge
is for (`MergedType.ask_congr`). Each of these fields is nested less deep, which ends merging within
the depth of the operation (`Stitching.completeWithin_agreeAt`): unrolled that often, the recursion
of merging does not come to what it is unrolled from (`Stitching.iterate_agreeAt`).
-/

namespace Gateway

variable {σ : Type}

/-- Two ways of completing objects agree for a gateway field. -/
def Completion.AgreeAt (complete complete' : Completion σ) (info : FieldInfo) : Prop :=
  ∀ subschema context type object,
    complete subschema context info type object = complete' subschema context info type object

/-- The gateway fields for which objects in a value may be completed: those within the field that
the value answers, or only those below it when merging is skipped. -/
def FieldInfo.MergedWithin (info? : Option FieldInfo) (skipsMerging : Bool)
    (other : FieldInfo) : Prop :=
  ∃ info, info? = some info ∧ if skipsMerging then info.Below other else info.Within other

/-- What is completed is within the field that the value answers. -/
theorem FieldInfo.MergedWithin.within {info other : FieldInfo} {skipsMerging : Bool}
    (h : MergedWithin (some info) skipsMerging other) : info.Within other := by
  obtain ⟨_, ⟨rfl⟩, h⟩ := h
  cases skipsMerging with
  | true => exact FieldInfo.Below.within h
  | false => exact h

namespace Reconstruction

variable {reconstruction : Reconstruction σ}
  {complete' : FieldInfo → Name → FetchedObject → Act σ FetchedObject}

/-! ## What a reconstruction completes -/

/-- What may be completed in an item may be completed in the list. -/
theorem mergedWithin_of_item {info? : Option FieldInfo} {skipsMerging : Bool} {other : FieldInfo}
    {position : Nat}
    (h : FieldInfo.MergedWithin (info?.map (·.atIndex position)) skipsMerging other) :
    FieldInfo.MergedWithin info? skipsMerging other := by
  obtain ⟨item, hitem, h⟩ := h
  obtain ⟨info, rfl, rfl⟩ := Option.map_eq_some_iff.mp hitem
  have hwithin : info.Within (info.atIndex position) := .item .self position
  refine ⟨info, rfl, ?_⟩
  cases skipsMerging with
  | true => exact hwithin.below_trans h
  | false => exact hwithin.trans h

/-- What may be completed in a member may be completed in the object, even when merging is skipped
for the object itself. -/
theorem mergedWithin_of_child {schema : Schema} {info? childInfo? : Option FieldInfo}
    {skipsMerging : Bool} {name : Name} {key : String} {type : TypeRef} {other : FieldInfo}
    (hchild : child schema info? name key = .typed childInfo? type)
    (h : FieldInfo.MergedWithin childInfo? false other) :
    FieldInfo.MergedWithin info? skipsMerging other := by
  obtain ⟨childInfo, rfl, hwithin⟩ := h
  unfold child at hchild
  split at hchild
  · cases hchild
  · dsimp only at hchild
    split at hchild
    · rename_i selected hselected
      cases hchild
      simp only [Option.bind_eq_bind, Option.bind_eq_some_iff] at hselected
      obtain ⟨info, rfl, nodes, found, known⟩ := hselected
      have hbelow : info.Below other :=
        (FieldInfo.Below.child .self found known).trans_within hwithin
      refine ⟨info, rfl, ?_⟩
      cases skipsMerging with
      | true => exact hbelow
      | false => exact hbelow.within
    · cases hchild
    · cases hchild

mutual

/-- No object whose type is unknown is completed. -/
theorem untyped_congr : ∀ (json : Json) (errors : List GraphError),
    untyped { reconstruction with complete := complete' } json errors =
      reconstruction.untyped json errors
  | .array items, errors => by
    rw [untyped, untyped, untypedItems_congr items errors 0]
    rfl
  | .object members, errors => by
    rw [untyped, untyped, untypedMembers_congr members errors]
    rfl
  | .null, _ | .bool _, _ | .int _, _ | .float _, _ | .string _, _ => rfl

/-- Nor is one among items whose type is unknown. -/
theorem untypedItems_congr : ∀ (items : List Json) (errors : List GraphError) (position : Nat),
    untypedItems { reconstruction with complete := complete' } errors position items =
      reconstruction.untypedItems errors position items
  | [], _, _ => by rw [untypedItems, untypedItems]
  | item :: rest, errors, position => by
    rw [untypedItems, untypedItems, untyped_congr item,
      untypedItems_congr rest errors (position + 1)]

/-- Nor is one among members whose type is unknown. -/
theorem untypedMembers_congr : ∀ (members : List (String × Json)) (errors : List GraphError),
    untypedMembers { reconstruction with complete := complete' } errors members =
      reconstruction.untypedMembers errors members
  | [], _ => by rw [untypedMembers, untypedMembers]
  | (key, item) :: rest, errors => by
    rw [untypedMembers, untypedMembers, untyped_congr item, untypedMembers_congr rest errors]

end

/-- Nothing is completed in a value that is neither a list nor an object of its type. -/
theorem plain_congr (json : Json) (errors : List GraphError) (type : TypeRef) :
    plain { reconstruction with complete := complete' } json errors type =
      reconstruction.plain json errors type := by
  unfold plain
  rw [untyped_congr]

/-- An object is completed in the same way. -/
theorem completed_congr {info? : Option FieldInfo} {skipsMerging : Bool}
    (h : ∀ other, FieldInfo.MergedWithin info? skipsMerging other → ∀ type object,
      complete' other type object = reconstruction.complete other type object)
    (type : Name) (object : FetchedObject) :
    completed { reconstruction with complete := complete' } info? type skipsMerging object =
      reconstruction.completed info? type skipsMerging object := by
  unfold completed
  cases info? with
  | none => rfl
  | some info =>
    cases skipsMerging with
    | true => rfl
    | false =>
      dsimp only
      rw [h info ⟨info, rfl, .self⟩]

mutual

/-- The same value is read when objects are completed in the same way for the gateway fields that
count. -/
theorem value_congr : ∀ (json : Json) (errors : List GraphError) (info? : Option FieldInfo)
    (type : TypeRef) (skipsMerging : Bool),
    (∀ other, FieldInfo.MergedWithin info? skipsMerging other → ∀ type object,
      complete' other type object = reconstruction.complete other type object) →
    value { reconstruction with complete := complete' } json errors info? type skipsMerging =
      reconstruction.value json errors info? type skipsMerging
  | .array items, errors, info?, type, skipsMerging, h => by
    rw [value, value]
    cases type.item? with
    | none => exact plain_congr _ _ _
    | some item =>
      dsimp only
      rw [itemValues_congr items errors info? item skipsMerging 0 h]
      rfl
  | .object members, errors, info?, type, skipsMerging, h => by
    rw [value, value]
    dsimp only
    rw [memberValues_congr members errors info? _ skipsMerging h, plain_congr]
    simp only [completed_congr h]
    rfl
  | .null, _, _, _, _, _ => rfl
  | .bool _, _, _, _, _, _ | .int _, _, _, _, _, _ | .float _, _, _, _, _, _
  | .string _, _, _, _, _, _ => plain_congr _ _ _

/-- So are the items of a list. -/
theorem itemValues_congr : ∀ (items : List Json) (errors : List GraphError)
    (info? : Option FieldInfo) (type : TypeRef) (skipsMerging : Bool) (position : Nat),
    (∀ other, FieldInfo.MergedWithin info? skipsMerging other → ∀ type object,
      complete' other type object = reconstruction.complete other type object) →
    itemValues { reconstruction with complete := complete' } errors info? type skipsMerging
        position items =
      reconstruction.itemValues errors info? type skipsMerging position items
  | [], _, _, _, _, _, _ => rfl
  | item :: rest, errors, info?, type, skipsMerging, position, h => by
    rw [itemValues, itemValues,
      value_congr item _ _ type skipsMerging fun other hother =>
        h other (mergedWithin_of_item hother),
      itemValues_congr rest errors info? type skipsMerging (position + 1) h]

/-- So are the members of an object, even when merging is skipped for the object. -/
theorem memberValues_congr : ∀ (members : List (String × Json)) (errors : List GraphError)
    (info? : Option FieldInfo) (type : Name) (skipsMerging : Bool),
    (∀ other, FieldInfo.MergedWithin info? skipsMerging other → ∀ type object,
      complete' other type object = reconstruction.complete other type object) →
    memberValues { reconstruction with complete := complete' } errors info? type members =
      reconstruction.memberValues errors info? type members
  | [], _, _, _, _, _ => rfl
  | (key, json) :: rest, errors, info?, type, skipsMerging, h => by
    rw [memberValues, memberValues, memberValues_congr rest errors info? type skipsMerging h]
    dsimp only
    cases hchild : child reconstruction.schema info? type key with
    | typename => rfl
    | typed childInfo? childType =>
      dsimp only
      rw [value_congr json _ childInfo? childType false fun other hother =>
        h other (mergedWithin_of_child hchild hother)]
    | unknown =>
      dsimp only
      rw [untyped_congr]

end

end Reconstruction

/-! ## What a delegation completes -/

/-- What comes after a result matters only when there is one. -/
theorem Act.ofExcept_bind_congr {α β : Type} {result : Except DelegationError α}
    {next next' : α → Act σ β} (h : ∀ value, result = .ok value → next value = next' value) :
    Act.ofExcept result >>= next = Act.ofExcept result >>= next' := by
  cases result with
  | error error => rfl
  | ok value => exact h value rfl

/-- The value of the delegated field is the same when objects are completed in the same way for the
gateway fields that count. -/
theorem DelegationContext.fieldValue_congr {context : DelegationContext}
    {complete complete' : Completion σ}
    (h : ∀ other, FieldInfo.MergedWithin context.info? context.skipsMerging other →
      complete'.AgreeAt complete other) (response : Response) :
    context.fieldValue complete' response = context.fieldValue complete response :=
  @Reconstruction.value_congr σ
    { subschema := context.subschema
      schema := context.gateway?.getD context.view
      complete := complete context.subschema context.context }
    (complete' context.subschema context.context) _ _ _ _ _
    fun other hother type object => h other hother _ _ type object

namespace Delegation

variable {delegation : Delegation σ} {complete complete' : Completion σ}

/-- What is known about a delegation is for its gateway field, merged or not, and for its root field
and its subschema. -/
theorem of_delegationContext {context : DelegationContext}
    (h : delegation.delegationContext = .ok context) :
    context.info? = delegation.info? ∧ context.skipsMerging = delegation.skipsMerging ∧
      delegation.fieldName = .ok context.fieldName ∧
      context.subschema = delegation.service.subschema := by
  obtain ⟨fieldName, hfield, h⟩ := except_bind_eq_ok_iff.mp h
  obtain ⟨returnType, -, h⟩ := except_bind_eq_ok_iff.mp h
  cases h
  exact ⟨rfl, rfl, hfield, rfl⟩

/-- A delegation leads to the same when objects are completed in the same way for the gateway fields
that count. -/
theorem run_congr
    (h : ∀ other, FieldInfo.MergedWithin delegation.info? delegation.skipsMerging other →
      complete'.AgreeAt complete other) :
    delegation.run complete' = delegation.run complete := by
  refine Act.ofExcept_bind_congr fun context hcontext => ?_
  obtain ⟨hinfo, hskips, -⟩ := of_delegationContext hcontext
  rw [← hinfo, ← hskips] at h
  have hvalue : ∀ chain, valueOf complete' chain context = valueOf complete chain context := by
    intro chain
    funext response
    exact bind_congr fun response => DelegationContext.fieldValue_congr h response
  have hevent : ∀ chain, eventOf complete' chain context = eventOf complete chain context := by
    intro chain
    funext response
    unfold eventOf
    rw [hvalue]
  simp only [hvalue, hevent]

end Delegation

/-! ## What a merge completes -/

namespace MergedType

variable {complete complete' : Completion σ} {info : FieldInfo}

/-- The delegation that fetches fields of an object is for its gateway field, and skips merging. -/
theorem of_fetching {stitching? : Option (Stitching σ)} {service : Service σ} {fieldName : Name}
    {arguments? : Option KeyArguments} {object : FetchedObject} {context : Context}
    {selections : List Selection} {delegation : Delegation σ}
    (h : fetching stitching? service fieldName arguments? object context info selections =
      .ok delegation) :
    delegation.info? = some info ∧ delegation.skipsMerging = true := by
  obtain ⟨request, -, h⟩ := except_bind_eq_ok_iff.mp h
  cases h
  exact ⟨rfl, rfl⟩

/-- What a merged type resolver answers for an object depends on how objects are completed only for
the gateway fields below that of the object. -/
theorem ask_congr (merged : MergedType (TypeResolver σ)) (stitching? : Option (Stitching σ))
    (type : Name) (context : Context) (h : ∀ other, info.Below other →
      complete'.AgreeAt complete other) :
    merged.ask stitching? complete' type context info =
      merged.ask stitching? complete type context info := by
  funext subschema object selections
  unfold ask
  cases merged.resolvers.get? subschema.name with
  | none => rfl
  | some resolver =>
    cases resolver with
    | custom fetch => rfl
    | rootField services fieldName arguments? =>
      dsimp only
      cases Service.of? services subschema with
      | none => rfl
      | some service =>
        refine congrArg pure (Act.ofExcept_bind_congr fun delegation hdelegation => ?_)
        obtain ⟨hinfo, hskips⟩ := of_fetching hdelegation
        have hrun : delegation.run complete' = delegation.run complete := by
          refine Delegation.run_congr ?_
          rw [hinfo, hskips]
          rintro other ⟨_, ⟨rfl⟩, hbelow⟩
          exact h other hbelow
        rw [hrun]

end MergedType

namespace Stitching

variable {stitching : Stitching σ} {info : FieldInfo}

/-- Completes an object of a merged type, and objects in the answers in the given way. -/
def completeOnce (stitching : Stitching σ) (complete : Completion σ) : Completion σ :=
  fun subschema context info type object =>
    match stitching.mergedType? type with
    | none => pure object
    | some merged => do
      let targets := merged.targetsOf subschema
      if targets.isEmpty then return object
      let selections := missingFields subschema type (info.subFields type)
      let run ← merged.merge (merged.ask (some stitching) complete type context info)
        object selections [subschema] targets
      return run.object

/-- Merges that are nested one level deeper are merges in which the answers are completed. -/
theorem completeWithin_succ (stitching : Stitching σ) (depth : Nat) :
    stitching.completeWithin (depth + 1) =
      stitching.completeOnce (stitching.completeWithin depth) :=
  rfl

/-- How an object is completed depends on how others are completed only for the gateway fields below
that of the object. -/
theorem completeOnce_agreeAt {complete complete' : Completion σ}
    (h : ∀ other, info.Below other → complete'.AgreeAt complete other) :
    (stitching.completeOnce complete').AgreeAt (stitching.completeOnce complete) info := by
  intro subschema context type object
  unfold completeOnce
  cases stitching.mergedType? type with
  | none => rfl
  | some merged =>
    dsimp only
    rw [merged.ask_congr (some stitching) type context h]

/-- Nothing is missing of an object on which nothing is selected. -/
theorem missingFields_eq_nil (h : info.NestedWithin 0) (subschema : Subschema) (type : Name) :
    missingFields subschema type (info.subFields type) = [] := by
  unfold missingFields
  rw [List.filter_eq_nil_iff.mpr, List.flatten_nil, List.map_nil]
  intro nodes hnodes
  obtain ⟨⟨key, _⟩, hmem, rfl⟩ := List.mem_map.mp hnodes
  rw [FieldInfo.eq_nil_of_mem_subFields h hmem]
  exact Bool.false_ne_true

/-- Nothing is asked for an object on which nothing is selected. -/
theorem completeOnce_eq_pure (h : info.NestedWithin 0) (complete : Completion σ)
    (subschema : Subschema) (context : Context) (type : Name) (object : FetchedObject) :
    stitching.completeOnce complete subschema context info type object = pure object := by
  unfold completeOnce
  cases stitching.mergedType? type with
  | none => rfl
  | some merged =>
    dsimp only
    split
    · rfl
    · rw [missingFields_eq_nil h]
      have hidle : ∀ sources targets,
          (merged.nextPlan { object, waiting := [], sources, targets }).delegations = [] :=
        fun _ _ => rfl
      unfold MergedType.merge
      rw [merged.mergeWithin_idle _ _ (hidle _ _)]
      rfl

/-- Merges nested as deep as a gateway field are merges unrolled once more, whatever they are
unrolled from. -/
theorem iterate_agreeAt {depth : Nat} (h : info.NestedWithin depth) (base : Completion σ) :
    (stitching.completeOnce^[depth + 1] base).AgreeAt (stitching.completeWithin depth) info := by
  induction depth generalizing info with
  | zero => exact fun _ _ _ _ => completeOnce_eq_pure h _ _ _ _ _
  | succ depth ih =>
    rw [Function.iterate_succ_apply', completeWithin_succ]
    exact completeOnce_agreeAt fun other hbelow => ih (hbelow.nestedWithin h)

/-- Merges are unrolled as often as they may be nested. -/
theorem completeWithin_add (stitching : Stitching σ) (depth more : Nat) :
    stitching.completeWithin (depth + more) =
      stitching.completeOnce^[depth] (stitching.completeWithin more) := by
  induction depth with
  | zero => rw [Nat.zero_add, Function.iterate_zero_apply]
  | succ depth ih =>
    rw [Nat.succ_add, completeWithin_succ, ih, Function.iterate_succ_apply']

/-- Merges that may be nested deeper than a gateway field are not. -/
theorem completeWithin_agreeAt {depth bound : Nat} (h : info.NestedWithin depth)
    (hle : depth ≤ bound) :
    (stitching.completeWithin bound).AgreeAt (stitching.completeWithin depth) info := by
  rcases Nat.eq_or_lt_of_le hle with rfl | hlt
  · exact fun _ _ _ _ => rfl
  · obtain ⟨more, rfl⟩ := Nat.exists_eq_add_of_lt hlt
    rw [Nat.add_right_comm, completeWithin_add]
    exact iterate_agreeAt h _

end Stitching

/-! ## Merging ends -/

/-- Merging within a delegation of a field of an operation ends. -/
structure Delegation.MergesNested (delegation : Delegation σ) (stitching : Stitching σ)
    (operation : GatewayOperation) : Prop where
  /-- Fields of the operation are not nested deeper than the bound of its merges. -/
  bounded :
    NestedWithin operation.fragments operation.mergeDepth operation.operation.selections
  /-- With the merges in it, a delegation is not nested deeper than the fields of the operation. -/
  within : ∀ depth,
    NestedWithin operation.fragments (depth + 1) operation.operation.selections →
    delegation.start = delegation.run (stitching.completeWithin depth)
  /-- The recursion of merging, unrolled that often, does not come to what it is unrolled from. -/
  unrolled : ∀ depth,
    NestedWithin operation.fragments (depth + 1) operation.operation.selections →
    ∀ more base,
      delegation.run (stitching.completeOnce^[depth + 1 + more] base) = delegation.start
  /-- A merge takes no more rounds than it has targets. -/
  rounds : ∀ (merged : MergedType (TypeResolver σ))
    (ask : AskFields (ExceptT DelegationError (StateM (Session σ)))) (object : FetchedObject)
    (selections : List Selection) (sources targets : List Subschema) (more : Nat),
    merged.mergeWithin ask (targets.length + more)
        { object, waiting := selections, sources, targets } =
      merged.merge ask object selections sources targets
  /-- What is completed in the answer of a merged type resolver answers a gateway field below that
  of the object. -/
  below : ∀ (merged : MergedType (TypeResolver σ)) (type : Name) (context : Context)
    (info : FieldInfo) (complete complete' : Completion σ),
    (∀ other, info.Below other → complete'.AgreeAt complete other) →
    merged.ask (some stitching) complete' type context info =
      merged.ask (some stitching) complete type context info
  /-- A gateway field below another one stands further down in the result, at least by the response
  key of a node that the operation selects within the other one. -/
  further : ∀ info other : FieldInfo, info.Below other →
    ∃ parent above node before after, info.Within parent ∧ above ∈ parent.nodes ∧
      Selects info.operation.fragments node above.selections ∧
      other.path = info.path ++ before ++ .key node.responseKey :: after

/-- Merging ends within a delegation of a field of an operation whose fragments are acyclic. -/
theorem Delegation.merges_nested {delegation : Delegation σ} {stitching : Stitching σ}
    {operation : GatewayOperation} {responseKey : Name} {root info : FieldInfo}
    (hacyclic : Acyclic operation.fragments)
    (hroot : FieldInfo.root operation responseKey = .ok root) (hwithin : root.Within info)
    (hinfo : delegation.info? = some info) (hstitching : delegation.stitching? = some stitching) :
    delegation.MergesNested stitching operation := by
  have hbounded := GatewayOperation.nestedWithin_mergeDepth hacyclic
  have hnested : ∀ depth,
      NestedWithin operation.fragments (depth + 1) operation.operation.selections →
        ∀ other, FieldInfo.MergedWithin delegation.info? delegation.skipsMerging other →
          other.NestedWithin depth := by
    intro depth hdepth other hother
    rw [hinfo] at hother
    exact (hwithin.trans hother.within).nestedWithin (FieldInfo.root_nestedWithin hroot hdepth).2
  have hstart : delegation.start =
      delegation.run (stitching.completeWithin operation.mergeDepth) := by
    unfold start Stitching.completion?
    rw [hstitching, hinfo]
    dsimp only
    rw [hwithin.operation, (FieldInfo.root_nestedWithin hroot hbounded).1]
  have hsame : ∀ depth,
      NestedWithin operation.fragments (depth + 1) operation.operation.selections →
        delegation.start = delegation.run (stitching.completeWithin depth) := by
    intro depth hdepth
    rw [hstart]
    rcases Nat.le_total depth operation.mergeDepth with hle | hle
    · exact run_congr fun other hother =>
        Stitching.completeWithin_agreeAt (hnested depth hdepth other hother) hle
    · exact (run_congr fun other hother => Stitching.completeWithin_agreeAt
        (hnested _ hbounded.succ other hother) hle).symm
  refine ⟨hbounded, hsame, fun depth hdepth more base => ?_, ?_, ?_, ?_⟩
  · rw [hsame depth hdepth, Function.iterate_add_apply]
    exact run_congr fun other hother =>
      Stitching.iterate_agreeAt (hnested depth hdepth other hother) _
  · exact fun merged ask object selections sources targets more =>
      merged.mergeWithin_add ask _ more (Nat.le_refl _)
  · exact fun merged type context info complete complete' h =>
      merged.ask_congr (some stitching) type context h
  · exact fun info other hbelow => hbelow.exists_path

/-- The schema of people with friends. -/
def personSchema : Schema where
  types := [Builtin.scalar "String",
    Builtin.object "Query" [Builtin.field "person" (.named "Person")],
    Builtin.object "Person" [Builtin.field "name" (.named "String"),
      Builtin.field "friend" (.named "Person")]]
  directives := []
  roots := [(.query, "Query")]

/-- A query for a friend of a friend, where a fragment spreads another one. -/
def personOperation : GatewayOperation where
  schema := personSchema
  operation := {
    selections := [.field { name := "person", selections := [.spread "Friends" []] }] }
  fragments := [
    ("Friends", { name := "Friends", condition := "Person", selections := [
      .spread "Named" [], .field { name := "friend", selections := [.spread "Named" []] }] }),
    ("Named", {
      name := "Named", condition := "Person", selections := [.field { name := "name" }] })]
  vars := []

/-- The person that is queried. -/
def personField : FieldInfo where
  operation := personOperation
  parentType := "Query"
  fieldName := "person"
  nodes := [{ name := "person", selections := [.spread "Friends" []] }]
  returnType := .named "Person"
  path := [.key "person"]

/-- A service of people. -/
def personService (name : String) : Service Unit where
  subschema := { name, schema := personSchema }

/-- Friends are fetched from a service of their own. -/
def personStitching : Stitching Unit where
  mergedTypes := [("Person", {
    typeName? := some "Person"
    targets := [("people", [(personService "friends").subschema])]
    uniqueFields := [("friend", (personService "friends").subschema)]
    resolvers := [("friends", .rootField [personService "friends"] "person" none)] })]

/-- The person is fetched from the other service. -/
def personDelegation : Delegation Unit where
  service := personService "people"
  request := ⟨[], []⟩
  info? := some personField
  stitching? := some personStitching

/-- Only one fragment spreads another one. -/
theorem acyclic_personOperation : Acyclic personOperation.fragments := by
  refine acyclic_of_rank (fun name => if name = "Friends" then 1 else 0) ?_
  rintro name other ⟨fragment, directives, found, hoccurs⟩
  have hmem := Entries.mem_of_get? found
  rw [occurs_iff_exists] at hoccurs
  simp only [personOperation, List.mem_cons, Prod.mk.injEq, List.not_mem_nil, or_false] at hmem
  rcases hmem with ⟨rfl, rfl⟩ | ⟨rfl, rfl⟩
  · have hnamed : other = "Named" ∧ directives = [] := by
      simpa [occurs_spread_iff, occurs_field_iff] using hoccurs
    rw [hnamed.1]
    decide
  · exact absurd hoccurs (by simp [occurs_field_iff, not_occurs_nil])

/-- Merging ends within the delegation of the person: the name of the friend is at depth three, so
merges are nested at most twice in it. -/
theorem Delegation.merges_nested_person :
    Acyclic personOperation.fragments ∧
      FieldInfo.root personOperation "person" = .ok personField ∧
      personField.Within personField ∧ personDelegation.info? = some personField ∧
      personDelegation.stitching? = some personStitching ∧
      personDelegation.start = personDelegation.run (personStitching.completeWithin 2) := by
  have hroot : FieldInfo.root personOperation "person" = .ok personField := by rfl
  have hnested : NestedWithin personOperation.fragments 3 personOperation.operation.selections :=
    nestedWithin_of_fieldsLeft_le acyclic_personOperation []
      (fun _ hname => absurd hname List.not_mem_nil) (by decide)
  exact ⟨acyclic_personOperation, hroot, .self, rfl, rfl,
    (merges_nested acyclic_personOperation hroot .self rfl rfl).within 2 hnested⟩

end Gateway
