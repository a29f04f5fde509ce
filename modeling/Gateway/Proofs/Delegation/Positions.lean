import Gateway.Proofs.Delegation.Course
import Gateway.Proofs.Delegation.Located
import Gateway.Proofs.Fetched.Deep

/-!
# Positions of completed objects

A merged type resolver is told for which gateway field it completes an object.
`Stitching.completeAt` tells it the path of the delegated field followed by the position of the
object instead, whatever the path of the field is; in the answer of a resolver, positions go on from
that of the object that it completes, as merging leaves all parts of an answer where they are.

A run is the same either way, through lists, objects and nested merges
(`Delegation.completesInPlace`).
-/

namespace Gateway

variable {σ : Type}

/-! ## Values read by position -/

namespace DelegationContext

/-- What the value of the delegated field is reconstructed with, without merging. -/
def reconstruction (context : DelegationContext) : Reconstruction σ where
  subschema := context.subschema
  schema := context.gateway?.getD context.view
  complete := fun _ _ object => pure object

/-- The value of the delegated field in a response; an object is completed by where it stands. -/
def fieldValueAt (context : DelegationContext) (complete : Path → Completion σ)
    (response : Response) : Act σ FetchedValue :=
  context.reconstruction.valueAt
    (fun position => complete position context.subschema context.context) []
    ((context.fieldData? response).getD .null) (context.fieldErrors response) context.info?
    context.returnType context.skipsMerging

/-- The value is the same when objects are completed by where they stand as they are for fields with
the path of the delegated field and this position. -/
theorem fieldValueAt_eq {context : DelegationContext} {complete : Path → Completion σ}
    {complete' : Completion σ}
    (h : ∀ info ∈ context.info?, ∀ position other, other.path = info.path ++ position →
      (complete position).AgreeAt complete' other) :
    context.fieldValueAt complete = context.fieldValue complete' := by
  funext response
  exact Reconstruction.Agrees.valueAt_eq _ _ _ _ fun info hinfo rest other hpath type object =>
    h info hinfo rest other hpath _ _ type object

end DelegationContext

namespace Delegation

variable {delegation : Delegation σ} {complete : Completion σ}

/-- Delegates, and reads the value of the delegated field in the given way. -/
def runReading (read : DelegationContext → Response → Act σ FetchedValue)
    (delegation : Delegation σ) : Act σ (Delegated σ) := do
  let context ← Act.ofExcept delegation.delegationContext
  let chain := delegation.chain context
  let request ← Transform.applyRequest chain context delegation.request
  Act.ofExcept (if delegation.skipsValidation then .ok () else validate context.target request)
  let valueOf (response : Response) : Act σ FetchedValue := do
    read context (← Transform.applyResult chain context response)
  match delegation.answerer? context with
  | none => throw (.missingSubscriber delegation.service.subschema.name)
  | some answer => do
    match ← Act.ofWorld (answer (delegation.delivery request)) with
    | .response response => return .value (← valueOf response)
    | .events responses =>
      return .stream (responses.map fun response => do return context.root (← valueOf response))

/-- A delegation reads a value in which objects are completed. -/
theorem run_eq_runReading (complete : Completion σ) (delegation : Delegation σ) :
    delegation.run complete =
      delegation.runReading fun context => context.fieldValue complete := by
  rw [run_eq]
  refine bind_congr fun context => bind_congr fun request => bind_congr fun _ => ?_
  unfold deliver valueOf eventOf
  rfl

/-- What values are read from is the only thing that counts. -/
theorem runReading_congr {read read' : DelegationContext → Response → Act σ FetchedValue}
    (h : ∀ context, context.info? = delegation.info? → read context = read' context) :
    delegation.runReading read = delegation.runReading read' := by
  refine Act.ofExcept_bind_congr fun context hcontext => ?_
  rw [h context (of_delegationContext hcontext).1]

end Delegation

namespace MergedType

/-- Asks what resolves a type in a subschema for fields of an object; delegations read their values
in the given way. -/
def askReading (merged : MergedType (TypeResolver σ)) (stitching? : Option (Stitching σ))
    (read : DelegationContext → Response → Act σ FetchedValue) (type : Name) (context : Context)
    (info : FieldInfo) : AskFields (ExceptT DelegationError (StateM (Session σ))) :=
  fun subschema object selections =>
    match merged.resolvers.get? subschema.name with
    | none => pure (throw (.missingMergedTypeResolver type subschema.name))
    | some (.custom fetch) => Act.ofWorld (fetch object context info subschema selections)
    | some (.rootField services fieldName arguments?) => pure do
      let some service := Service.of? services subschema
        | throw (.missingMergedTypeResolver type subschema.name)
      let delegation ← Act.ofExcept <|
        fetching stitching? service fieldName arguments? object context info selections
      Act.ofExcept (← delegation.runReading read).toValue

/-- A resolver is asked in the same way when values are read in the same way by delegations of its
gateway field. -/
theorem askReading_eq_ask (merged : MergedType (TypeResolver σ))
    (stitching? : Option (Stitching σ)) (type : Name) (context : Context) {info : FieldInfo}
    {read : DelegationContext → Response → Act σ FetchedValue} {complete : Completion σ}
    (h : ∀ inner : DelegationContext, inner.info? = some info →
      read inner = inner.fieldValue complete) :
    merged.askReading stitching? read type context info =
      merged.ask stitching? complete type context info := by
  funext subschema object selections
  unfold askReading ask
  cases merged.resolvers.get? subschema.name with
  | none => rfl
  | some resolver =>
    cases resolver with
    | custom fetch => rfl
    | rootField services fieldName arguments? =>
      dsimp only
      cases Service.of? services subschema with
      | none => rfl
      | some service =>
        refine congrArg pure (Act.ofExcept_bind_congr fun delegation hdelegation => ?_)
        have hrun : delegation.runReading read = delegation.run complete := by
          rw [Delegation.run_eq_runReading]
          refine Delegation.runReading_congr fun inner hinner => h inner ?_
          rw [hinner, (of_fetching hdelegation).1]
        rw [hrun]

end MergedType

/-! ## Merges told the position -/

namespace Stitching

/-- Completes an object of a merged type at a position: resolvers are told that the object is for
the gateway field at the base path followed by the position, and objects in their answers are
completed further on from there. -/
def completeAt (stitching : Stitching σ) (base : Path) : Nat → Path → Completion σ
  | 0, _ => fun _ _ _ _ object => pure object
  | depth + 1, position => fun subschema context info type object =>
    match stitching.mergedType? type with
    | none => pure object
    | some merged => do
      let targets := merged.targetsOf subschema
      if targets.isEmpty then return object
      let selections := missingFields subschema type (info.subFields type)
      let read : DelegationContext → Response → Act σ FetchedValue := fun inner =>
        inner.fieldValueAt fun next => stitching.completeAt base depth (position ++ next)
      let run ← merged.merge
        (merged.askReading (some stitching) read type context (info.withPath (base ++ position)))
        object selections [subschema] targets
      return run.object

/-- For a field with this path, an object is completed as it is at the position. -/
theorem completeAt_agreeAt (stitching : Stitching σ) (base : Path) (depth : Nat)
    {position : Path} {info : FieldInfo} (hpath : info.path = base ++ position) :
    (stitching.completeWithin depth).AgreeAt (stitching.completeAt base depth position) info := by
  induction depth generalizing position info with
  | zero => exact fun _ _ _ _ => rfl
  | succ depth ih =>
    intro subschema context type object
    -- Answers are read for the same gateway field, so positions in them go on from this one.
    have hread : ∀ inner : DelegationContext, inner.info? = some info →
        inner.fieldValueAt (fun next => stitching.completeAt base depth (position ++ next)) =
          inner.fieldValue (stitching.completeWithin depth) := by
      intro inner hinner
      refine DelegationContext.fieldValueAt_eq fun other hother next below hbelow => ?_
      rw [hinner] at hother
      cases hother
      refine fun subschema context type object => (ih ?_ subschema context type object).symm
      rw [hbelow, hpath, List.append_assoc]
    rw [completeWithin_succ]
    unfold completeOnce completeAt
    dsimp only
    cases stitching.mergedType? type with
    | none => rfl
    | some merged =>
      dsimp only
      rw [← hpath, FieldInfo.withPath_path, merged.askReading_eq_ask (some stitching) type context
        hread]

/-- Completes the objects that answer a gateway operation by where they stand. -/
def completionAt? (stitching? : Option (Stitching σ)) (info? : Option FieldInfo) :
    Path → Completion σ :=
  match stitching?, info? with
  | some stitching, some info => stitching.completeAt info.path info.operation.mergeDepth
  | _, _ => fun _ _ _ _ _ object => pure object

end Stitching

/-- Delegates a request, with resolvers told the path of the delegated field followed by the
position of each object. -/
def Delegation.startAt (delegation : Delegation σ) : Act σ (Delegated σ) :=
  delegation.runReading fun context =>
    context.fieldValueAt (Stitching.completionAt? delegation.stitching? delegation.info?)

/-- A delegation is the same when resolvers are told the positions of objects. -/
theorem Delegation.start_eq_startAt (delegation : Delegation σ) :
    delegation.start = delegation.startAt := by
  unfold start startAt
  rw [run_eq_runReading]
  refine runReading_congr fun context hinfo => (DelegationContext.fieldValueAt_eq ?_).symm
  rw [hinfo]
  intro info hmem position other hpath
  unfold Stitching.completion? Stitching.completionAt?
  rw [Option.mem_def.mp hmem]
  cases delegation.stitching? with
  | none => exact fun _ _ _ _ => rfl
  | some stitching =>
    exact fun subschema context type object =>
      (stitching.completeAt_agreeAt info.path _ hpath subschema context type object).symm

/-! ## Merging moves nothing -/

namespace FetchedValue

/-- What stands at a path after values are merged: what one of them has there, or a merge of such
parts. -/
inductive MergedAt (values : List FetchedValue) (path : Path) : FetchedValue → Prop
  /-- One of the values has it there. -/
  | part {value part : FetchedValue} (mem : value ∈ values) (found : value.at? path = some part) :
    MergedAt values path part
  /-- It is merged from an earlier and a later part. -/
  | merge {earlier later : FetchedValue} (before : MergedAt values path earlier)
    (after : MergedAt values path later) : MergedAt values path (earlier.merge later)

/-- What other values have at the path may take the place of the values. -/
theorem MergedAt.trans {values others : List FetchedValue} {path : Path} {part : FetchedValue}
    (h : MergedAt values path part) (hothers : ∀ value ∈ values, ∀ part,
      value.at? path = some part → MergedAt others path part) : MergedAt others path part := by
  induction h with
  | part mem found => exact hothers _ mem _ found
  | merge _ _ before after => exact .merge before after

end FetchedValue

namespace ObjectOf

/-- What stands at a path of an object with answers stands there in the object or in an answer, or
is merged of such parts. -/
theorem mergedAt_mergeAnswers {object : FetchedObject} {answers : List FetchedValue}
    (hkeyed : ∀ answer ∈ answers, answer.Keyed) {segment : Segment} {rest : Path}
    {part : FetchedValue}
    (h : (FetchedValue.object (object.mergeAnswers answers)).at? (segment :: rest) = some part) :
    FetchedValue.MergedAt (.object object :: answers) (segment :: rest) part := by
  induction answers generalizing object with
  | nil => exact .part List.mem_cons_self h
  | cons answer others ih =>
    refine (ih (fun other hmem => hkeyed other (List.mem_cons_of_mem _ hmem)) h).trans ?_
    intro value hvalue part hpart
    have hanswer := hkeyed answer List.mem_cons_self
    have hobject : ∀ part, (FetchedValue.object object).at? (segment :: rest) = some part →
        FetchedValue.MergedAt (.object object :: answer :: others) (segment :: rest) part :=
      fun _ => .part List.mem_cons_self
    have hlater : ∀ part, answer.at? (segment :: rest) = some part →
        FetchedValue.MergedAt (.object object :: answer :: others) (segment :: rest) part :=
      fun _ => .part (List.mem_cons_of_mem _ List.mem_cons_self)
    rcases List.mem_cons.mp hvalue with rfl | hmem
    · cases answer with
      | object source =>
        have hmerged : ((FetchedValue.object object).merge (.object source)).at?
            (segment :: rest) = some part := by
          rw [FetchedValue.merge_object]
          exact hpart
        rcases FetchedValue.at?_merge_cases hanswer hmerged with hpart | hpart |
          ⟨t, s, htarget, hsource, rfl⟩
        · exact hobject _ hpart
        · exact hlater _ hpart
        · exact .merge (hobject _ htarget) (hlater _ hsource)
      | error held => exact hobject _ (by cases segment <;> exact hpart)
      | null => exact hobject _ hpart
      | leaf json => exact hobject _ hpart
      | list items => exact hobject _ hpart
    · exact .part (List.mem_cons_of_mem _ (List.mem_cons_of_mem _ hmem)) hpart

end ObjectOf

/-- Merging fields of an object merges answers into it. -/
theorem MergedType.exists_mergeAnswers {ρ : Type} {merged : MergedType ρ}
    {ask : AskFields (ExceptT DelegationError (StateM (Session σ)))} {fuel : Nat}
    {run final : MergeRun}
    (h : Act.Yields (merged.mergeWithin ask fuel run) final) :
    ∃ answers, final.object = run.object.mergeAnswers answers := by
  induction fuel generalizing run with
  | zero =>
    cases Act.eq_of_yields_pure h
    exact ⟨[], rfl⟩
  | succ fuel ih =>
    rw [mergeWithin] at h
    split at h
    · cases Act.eq_of_yields_pure h
      exact ⟨[], rfl⟩
    · obtain ⟨pending, -, h⟩ := Act.Yields.exists_of_bind h
      obtain ⟨answers, -, h⟩ := Act.Yields.exists_of_bind h
      obtain ⟨more, hmore⟩ := ih h
      refine ⟨answers ++ more, ?_⟩
      rw [hmore, MergeRun.next, ObjectOf.mergeAnswers, ObjectOf.mergeAnswers,
        ObjectOf.mergeAnswers, List.foldl_append]

/-- An object is completed by answers that are merged into it. -/
theorem Stitching.exists_mergeAnswers {stitching : Stitching σ} {base position : Path}
    {depth : Nat} {subschema : Subschema} {context : Context} {info : FieldInfo} {type : Name}
    {object result : FetchedObject}
    (h : (stitching.completeAt base depth position subschema context info type object).Yields
      result) : ∃ answers, result = object.mergeAnswers answers := by
  cases depth with
  | zero => exact ⟨[], Act.eq_of_yields_pure h⟩
  | succ depth =>
    unfold completeAt at h
    cases hmerged : stitching.mergedType? type with
    | none =>
      rw [hmerged] at h
      exact ⟨[], Act.eq_of_yields_pure h⟩
    | some merged =>
      rw [hmerged] at h
      dsimp only at h
      split at h
      · exact ⟨[], Act.eq_of_yields_pure h⟩
      · obtain ⟨run, hrun, h⟩ := Act.Yields.exists_of_bind h
        cases Act.eq_of_yields_pure h
        exact MergedType.exists_mergeAnswers hrun

/-! ## Completion in place -/

/-- A delegation completes objects for the gateway fields at their positions. -/
structure Delegation.CompletesInPlace (delegation : Delegation σ) : Prop where
  /-- It is the same when every merged type resolver is told the path of the delegated field,
  followed by the position of the object, whatever the nesting. -/
  told : delegation.start = delegation.startAt
  /-- In the value of a delegated field, an object is put at the position by which it is completed,
  as what it is completed to; and the gateway field that it is completed for has the path of the
  delegated field, followed by this position. -/
  placed : ∀ (merges : FetchedObject → List FetchedValue → Prop) (context : DelegationContext)
    (complete : Path → Completion σ) (response : Response) (value : FetchedValue),
    Reconstruction.Completes merges
      (fun position => complete position context.subschema context.context) →
    (context.fieldValueAt complete response).Yields value →
    ∀ path other type members,
      (Child.typed context.info? context.returnType).readAt (context.gateway?.getD context.view)
        path ((context.fieldData? response).getD .null) =
          some (.typed (some other) type, .object members) →
      (context.gateway?.getD context.view).isComposite type.innerName = true →
      (context.skipsMerging = true → ∃ key, .key key ∈ path) →
      ∃ info, context.info? = some info ∧ other.path = info.path ++ path ∧
        ∃ object result : FetchedObject, object.keys = Entries.keys members ∧
          (complete path context.subschema context.context other (Reconstruction.concreteType
            (context.gateway?.getD context.view) members type.innerName) object).Yields result ∧
          FetchedValue.PutAt merges (.object result) value path
  /-- Merged type resolvers complete objects in this way: by answers that are merged into them. -/
  completes : ∀ (stitching : Stitching σ) (base : Path) (depth : Nat) (position : Path)
    (subschema : Subschema) (context : Context),
    Reconstruction.Completes (fun _ _ => True)
      fun next => stitching.completeAt base depth (position ++ next) subschema context
  /-- What is put in an answer is put in the value further on from the object that it completes, and
  this is where the resolvers for its objects are told that they are. -/
  nested : ∀ (merges : FetchedObject → List FetchedValue → Prop) (object source : FetchedObject)
    (answers : List FetchedValue) (whole part : FetchedValue) (path : Path) (segment : Segment)
    (rest : Path), merges object answers → .object source ∈ answers →
    FetchedValue.PutAt merges (.object (object.mergeAnswers answers)) whole path →
    FetchedValue.PutAt merges part (.object source) (segment :: rest) →
    FetchedValue.PutAt merges part whole (path ++ segment :: rest)
  /-- Where the answers bring fields of their own, what is put at a position stands there. -/
  stands : ∀ (part whole : FetchedValue) (path : Path),
    FetchedValue.PutAt ObjectOf.Apart part whole path → whole.at? path = some part
  /-- In any case, what stands at a position after merging stood there in the object or in an
  answer, or it is merged of such parts. -/
  merged : ∀ (object : FetchedObject) (answers : List FetchedValue),
    (∀ answer ∈ answers, answer.Keyed) → ∀ segment rest part,
    (FetchedValue.object (object.mergeAnswers answers)).at? (segment :: rest) = some part →
    FetchedValue.MergedAt (.object object :: answers) (segment :: rest) part

/-- Every delegation completes objects in place. -/
theorem Delegation.completesInPlace (delegation : Delegation σ) : delegation.CompletesInPlace where
  told := delegation.start_eq_startAt
  placed merges context complete response value hcompletes hvalue path other type members hread
      hcomposite hskips := by
    obtain ⟨info, hinfo, hpath⟩ := Child.path_of_readAt hread
    exact ⟨info, hinfo, hpath, Reconstruction.placed_valueAt hcompletes _ _ _ _ _ [] value hvalue
      path other type members hread hcomposite hskips⟩
  completes stitching base depth position subschema context next info type object result
      hresult := by
    obtain ⟨answers, hanswers⟩ := Stitching.exists_mergeAnswers hresult
    exact ⟨answers, trivial, hanswers⟩
  nested _ _ _ _ _ _ _ _ _ hmerged hmem hobject hpart := hobject.trans (.answer hmerged hmem hpart)
  stands _ _ _ hput := hput.at?_eq
  merged _ _ hkeyed _ _ _ h := ObjectOf.mergedAt_mergeAnswers hkeyed h

end Gateway
