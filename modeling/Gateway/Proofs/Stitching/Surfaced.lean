import Gateway.Proofs.Fetched.Resolve
import Gateway.Proofs.Stitching.Lossless

/-!
# Failures surface

A resolver may answer with errors instead of an object. They join the errors of the merged object,
and a field that was asked of the resolver and that nobody has fails with them when it is resolved,
unless errors were reported for the field itself (`MergedType.merge_surfaces`). A field that was
there and that no answer has resolves as before.

An error comes out as it was answered, but for one that is alone: among errors about the object
itself, an only one is moved to the position that is resolved, and so loses its path.
-/

namespace Gateway

/-! ## What values carry -/

namespace FetchedValue

/-- The errors that a value carries itself. -/
def carried : FetchedValue → List GraphError
  | .object found => found.errors
  | .error held => held.errors
  | _ => []

/-- A value holds a field. -/
def HasField (value : FetchedValue) (key : String) : Prop :=
  ∃ found, value = .object found ∧ key ∈ found.keys

/-- A value carries an error about a field. -/
def BlamesField (value : FetchedValue) (key : String) : Prop :=
  ∃ error ∈ value.carried, error.firstSegment? = some (.key key)

end FetchedValue

/-! ## Merged objects -/

namespace ObjectOf

/-- Merging fields changes only those that are merged. -/
theorem get?_mergeFields_of_not_mem {sources targets : Entries FetchedValue} {key : String}
    (h : key ∉ sources.keys) :
    (FetchedValue.mergeFields sources targets).get? key = targets.get? key := by
  induction sources generalizing targets with
  | nil => rw [FetchedValue.mergeFields]
  | cons first rest ih =>
    obtain ⟨name, source⟩ := first
    obtain ⟨hname, hrest⟩ := not_or.mp (mt List.mem_cons.mpr h)
    rw [FetchedValue.mergeFields, ih hrest]
    cases targets.get? name with
    | none =>
      dsimp only
      rw [Entries.get?_append, Entries.get?_cons, if_neg hname]
      exact Option.or_none
    | some target =>
      dsimp only
      rw [Entries.get?_insert, if_neg hname]

/-- Merging an object leaves the fields that it does not have. -/
theorem get?_merge_of_not_mem {target source : FetchedObject} {key : String}
    (h : key ∉ source.keys) : (target.merge source).get? key = target.get? key := by
  obtain ⟨fields, errors, owner, fieldOwners⟩ := source
  unfold ObjectOf.merge ObjectOf.get?
  rw [FetchedValue.mergeObject]
  exact get?_mergeFields_of_not_mem h

/-- Merging an object adds its errors. -/
theorem errors_merge (target source : FetchedObject) :
    (target.merge source).errors = target.errors ++ source.errors := by
  obtain ⟨fields, errors, owner, fieldOwners⟩ := source
  unfold ObjectOf.merge
  rw [FetchedValue.mergeObject]

section MergeAnswers

variable (object : FetchedObject)

/-- An answer leaves the fields that it does not have. -/
theorem get?_mergeAnswer {answer : FetchedValue} {key : String} (h : ¬ answer.HasField key) :
    (object.mergeAnswer answer).get? key = object.get? key := by
  cases answer with
  | object source => exact get?_merge_of_not_mem fun hmem => h ⟨source, rfl, hmem⟩
  | _ => rfl

/-- An answer adds the errors that it carries. -/
theorem errors_mergeAnswer (answer : FetchedValue) :
    (object.mergeAnswer answer).errors = object.errors ++ answer.carried := by
  cases answer with
  | object source => exact object.errors_merge source
  | error held => rfl
  | null | leaf | list => exact (List.append_nil _).symm

/-- Answers leave the fields that none of them has. -/
theorem get?_mergeAnswers {answers : List FetchedValue} {key : String}
    (h : ∀ answer ∈ answers, ¬ answer.HasField key) :
    (object.mergeAnswers answers).get? key = object.get? key := by
  induction answers generalizing object with
  | nil => rfl
  | cons first rest ih =>
    obtain ⟨hfirst, hrest⟩ := List.forall_mem_cons.mp h
    calc (object.mergeAnswers (first :: rest)).get? key
        = ((object.mergeAnswer first).mergeAnswers rest).get? key := rfl
      _ = (object.mergeAnswer first).get? key := ih _ hrest
      _ = object.get? key := object.get?_mergeAnswer hfirst

/-- Answers add the errors that they carry, in order. -/
theorem errors_mergeAnswers (answers : List FetchedValue) :
    (object.mergeAnswers answers).errors =
      object.errors ++ answers.flatMap FetchedValue.carried := by
  induction answers generalizing object with
  | nil => exact (List.append_nil _).symm
  | cons first rest ih =>
    calc (object.mergeAnswers (first :: rest)).errors
        = ((object.mergeAnswer first).mergeAnswers rest).errors := rfl
      _ = (object.mergeAnswer first).errors ++ rest.flatMap FetchedValue.carried := ih _
      _ = object.errors ++ (first :: rest).flatMap FetchedValue.carried := by
        rw [errors_mergeAnswer, List.append_assoc, List.flatMap_cons]

end MergeAnswers

end ObjectOf

/-! ## Errors that are held -/

/-- Of several errors each is held as it is; one alone has no path. -/
theorem FetchedError.mem_errors_ofErrors {errors : List GraphError} {error : GraphError}
    (h : error ∈ errors) :
    error ∈ (FetchedError.ofErrors errors).errors ∨
      errors = [error] ∧ (FetchedError.ofErrors errors).errors = [error.withPath none] := by
  rcases errors with _ | ⟨first, _ | ⟨second, rest⟩⟩
  · exact absurd h List.not_mem_nil
  · obtain rfl := List.mem_singleton.mp h
    exact .inr ⟨rfl, rfl⟩
  · exact .inl h

/-! ## Merges -/

/-- The answers that are seen are those to all calls. -/
theorem answered_iff {rounds : List RoundLog} {answers : List (Call × FetchedValue)}
    (hlog : rounds.flatMap RoundLog.answers =
      answers.map fun answer => (answer.1, .ok answer.2)) (call : Call) (answer : FetchedValue) :
    Event.answered call (.ok answer) ∈ rounds.flatMap RoundLog.events ↔
      (call, answer) ∈ answers := by
  have hmem : (call, Except.ok answer) ∈ rounds.flatMap RoundLog.answers ↔
      (call, answer) ∈ answers := by
    rw [hlog]
    simp
  rw [← hmem]
  simp [RoundLog.events]

namespace MergedType

variable {ρ σ : Type}

/-- When a resolver answers with errors about the object itself, every field that was asked of it
fails with them, if neither the object nor an answer has the field or an error about it; an error
that is the only one of all about the object itself is moved to the field. A field that the object
has, and no answer, resolves as before. -/
theorem merge_surfaces (merged : MergedType ρ) (resolvers : Resolvers σ) (object : FetchedObject)
    (selections : List Selection) (sources targets : List Subschema)
    (session session' : Session σ) (run : MergeRun) (events : List Event)
    (hrun : runFrom (merged.merge resolvers.askNoting object selections sources targets)
      (session, []) = (.ok run, session', events)) :
    runFrom (merged.merge resolvers.ask object selections sources targets) session =
        (.ok run, session') ∧
    (∀ call held, .answered call (.ok (.error held)) ∈ events → ownErrors held.errors ≠ [] →
      ∀ node, .field node ∈ call.2 →
      (∀ value, value = .object object ∨ (∃ other, .answered other (.ok value) ∈ events) →
        ¬ value.HasField node.responseKey ∧ ¬ value.BlamesField node.responseKey) →
      ∃ raised, (FetchedValue.object run.object).resolveField node.responseKey = .error raised ∧
        ∀ error ∈ ownErrors held.errors, error ∈ raised.errors ∨
          ownErrors run.object.errors = [error] ∧ raised.errors = [error.withPath none]) ∧
    ∀ key ∈ object.keys,
      (∀ call answer, .answered call (.ok answer) ∈ events → ¬ answer.HasField key) →
      (FetchedValue.object run.object).resolveField key =
        (FetchedValue.object object).resolveField key := by
  obtain ⟨outcome, session'', rounds, hgoes, hplain, hnoting⟩ :=
    merged.mergeWithin_goes resolvers targets.length
      { object, waiting := selections, sources, targets } (Nat.le_refl _) session []
  cases hrun.symm.trans hnoting
  obtain ⟨answers, -, hlog, hobject⟩ := hgoes.exists_answers
  have hseen : ∀ call answer, Event.answered call (.ok answer) ∈
      [] ++ rounds.flatMap RoundLog.events ↔ (call, answer) ∈ answers := by
    intro call answer
    rw [List.nil_append]
    exact answered_iff hlog call answer
  have hanswers : ∀ answer ∈ answers.map Prod.snd, ∃ call,
      Event.answered call (.ok answer) ∈ [] ++ rounds.flatMap RoundLog.events := by
    intro answer hmem
    obtain ⟨⟨call, _⟩, hanswer, rfl⟩ := List.mem_map.mp hmem
    exact ⟨call, (hseen call _).mpr hanswer⟩
  have herrors : run.object.errors =
      object.errors ++ (answers.map Prod.snd).flatMap FetchedValue.carried := by
    rw [hobject]
    exact object.errors_mergeAnswers _
  refine ⟨hplain, ?_, ?_⟩
  · intro call held hheld hown node _ hfree
    have hblameless : ∀ error ∈ run.object.errors,
        error.firstSegment? ≠ some (.key node.responseKey) := by
      intro error hmem hfirst
      rw [herrors, List.mem_append] at hmem
      rcases hmem with hmem | hmem
      · exact (hfree _ (.inl rfl)).2 ⟨error, hmem, hfirst⟩
      · obtain ⟨answer, hanswer, hcarried⟩ := List.mem_flatMap.mp hmem
        exact (hfree answer (.inr (hanswers answer hanswer))).2 ⟨error, hcarried, hfirst⟩
    have hmissing : run.object.get? node.responseKey = none := by
      rw [hobject, object.get?_mergeAnswers fun answer hanswer =>
        (hfree answer (.inr (hanswers answer hanswer))).1]
      exact Entries.get?_eq_none_iff.mpr fun hmem => (hfree _ (.inl rfl)).1 ⟨_, rfl, hmem⟩
    -- The errors of the answer are among those of the merged object.
    have hheld' : ∀ error ∈ ownErrors held.errors, error ∈ ownErrors run.object.errors := by
      intro error hmem
      obtain ⟨hmem, hself⟩ := List.mem_filter.mp hmem
      refine List.mem_filter.mpr ⟨?_, hself⟩
      rw [herrors]
      refine List.mem_append_right _ (List.mem_flatMap.mpr ⟨.error held, ?_, hmem⟩)
      exact List.mem_map.mpr ⟨_, (hseen call _).mp hheld, rfl⟩
    have hsome : ownErrors run.object.errors ≠ [] := by
      obtain ⟨error, hmem⟩ := List.exists_mem_of_ne_nil _ hown
      exact List.ne_nil_of_mem (hheld' error hmem)
    refine ⟨FetchedError.ofErrors (ownErrors run.object.errors), ?_, fun error hmem =>
      FetchedError.mem_errors_ofErrors (hheld' error hmem)⟩
    rw [FetchedValue.resolveField_object, ObjectOf.resolve_missing hmissing hblameless hsome]
    rfl
  · intro key hkey hnone
    obtain ⟨value, hvalue⟩ : ∃ value, object.get? key = some value :=
      Entries.exists_get?_iff.mpr hkey
    have hkept : run.object.get? key = some value := by
      rw [hobject, object.get?_mergeAnswers fun answer hanswer =>
        let ⟨call, hcall⟩ := hanswers answer hanswer
        hnone call answer hcall, hvalue]
    rw [FetchedValue.resolveField_object, FetchedValue.resolveField_object,
      ObjectOf.resolve_of_get? hkept, ObjectOf.resolve_of_get? hvalue]

/-- An order that is known by its number. -/
def numberedOrder : FetchedObject where
  fields := [("number", .leaf (.int 7))]
  owner := "orders"

/-- Resolvers that answer with errors. -/
def failingResolvers (errors : List GraphError) : Resolvers Unit := fun _ _ _ =>
  pure (pure (.error (.combined errors)))

/-- The weight of the order is asked of these resolvers. -/
def askedWeight (errors : List GraphError) :
    Except DelegationError MergeRun × Session Unit × List Event :=
  runFrom (orderType.merge (failingResolvers errors).askNoting numberedOrder
    [.field { name := "weight" }] [] [orderSubschema "weights" "weight"]) ({ world := () }, [])

/-- The call for the weight. -/
def weightCall : Call :=
  (orderSubschema "weights" "weight", [.field { name := "weight" }])

/-- What an asked weight leads to, and what is seen of it. -/
theorem askedWeight_eq (errors : List GraphError) : ∃ run,
    askedWeight errors = (.ok run, { world := () },
      [.asked weightCall, .answered weightCall (.ok (.error (.combined errors)))]) ∧
    run.object = { numberedOrder with errors } :=
  ⟨_, rfl, rfl⟩

/-- Nobody has the weight, and no error is about it. -/
theorem askedWeight_free {errors : List GraphError}
    (h : ∀ error ∈ errors, error.firstSegment? ≠ some (.key "weight")) (value : FetchedValue)
    (hvalue : value = .object numberedOrder ∨ ∃ other, Event.answered other (.ok value) ∈
      [.asked weightCall, .answered weightCall (.ok (.error (.combined errors)))]) :
    ¬ value.HasField "weight" ∧ ¬ value.BlamesField "weight" := by
  have hcases : value = .object numberedOrder ∨ value = .error (.combined errors) := by
    refine hvalue.imp_right ?_
    rintro ⟨other, hmem⟩
    simp only [List.mem_cons, reduceCtorEq, Event.answered.injEq, Except.ok.injEq,
      List.not_mem_nil, or_false, false_or] at hmem
    exact hmem.2
  rcases hcases with rfl | rfl
  · refine ⟨?_, fun ⟨_, hmem, _⟩ => absurd hmem List.not_mem_nil⟩
    rintro ⟨_, ⟨⟩, hmem⟩
    exact absurd hmem (by decide)
  · refine ⟨?_, fun ⟨error, hmem, hfirst⟩ => h error hmem hfirst⟩
    rintro ⟨_, ⟨⟩, _⟩

/-- The weight fails with both errors of the answer, and the number is there as before. -/
theorem merge_surfaces_weight : ∃ run events,
    askedWeight [{ message := "down" }, { message := "busy" }] =
      (.ok run, { world := () }, events) ∧
    (∃ raised, (FetchedValue.object run.object).resolveField "weight" = .error raised ∧
      { message := "down" } ∈ raised.errors ∧ { message := "busy" } ∈ raised.errors) ∧
    (FetchedValue.object run.object).resolveField "number" =
      (FetchedValue.object numberedOrder).resolveField "number" := by
  obtain ⟨run, hrun, hobject⟩ :=
    askedWeight_eq [{ message := "down" }, { message := "busy" }]
  obtain ⟨-, hfails, hkept⟩ := merge_surfaces orderType (failingResolvers _) numberedOrder
    [.field { name := "weight" }] [] [orderSubschema "weights" "weight"] _ _ run _ hrun
  obtain ⟨raised, hraised, hall⟩ := hfails weightCall
    (.combined [{ message := "down" }, { message := "busy" }]) (by simp) (by decide)
    { name := "weight" } List.mem_cons_self (askedWeight_free (by decide))
  have hboth : ∀ error ∈ [({ message := "down" } : GraphError), { message := "busy" }],
      error ∈ raised.errors := by
    intro error hmem
    refine (hall error hmem).resolve_right fun honly => ?_
    have hlength := congrArg List.length honly.1
    rw [hobject] at hlength
    exact absurd hlength (Nat.succ_ne_self 1)
  refine ⟨run, _, hrun, ⟨raised, hraised, hboth _ (by decide), hboth _ (by decide)⟩,
    hkept "number" (by decide) fun call answer hmem => ?_⟩
  rintro ⟨found, rfl, -⟩
  simp at hmem

/-- An error about the order, and one about its name. -/
def mixedErrors : List GraphError :=
  [{ message := "down", path := some [] }, { message := "no name", path := some [.key "name"] }]

/-- The only error about the order has an empty path, and is not raised as it is. -/
theorem not_merge_surfaces_mixed : ∃ run events,
    askedWeight mixedErrors = (.ok run, { world := () }, events) ∧
    Event.answered weightCall (.ok (.error (.combined mixedErrors))) ∈ events ∧
    .field { name := "weight" } ∈ weightCall.2 ∧
    (∀ value, value = .object numberedOrder ∨ (∃ call, .answered call (.ok value) ∈ events) →
      ¬ value.HasField "weight" ∧ ¬ value.BlamesField "weight") ∧
    { message := "down", path := some [] } ∈ ownErrors mixedErrors ∧
    ∃ raised, (FetchedValue.object run.object).resolveField "weight" = .error raised ∧
      { message := "down", path := some [] } ∉ raised.errors := by
  obtain ⟨run, hrun, hobject⟩ := askedWeight_eq mixedErrors
  refine ⟨run, _, hrun, by simp, List.mem_cons_self, askedWeight_free (by decide), by decide,
    .single { message := "down" }, ?_, by decide⟩
  rw [hobject]
  rfl

end MergedType

end Gateway
