import Gateway.Proofs.Stitching.Info
import Gateway.Proofs.Stitching.Rounds

/-!
# Where the needs of a target come from

A target is called once the sources contain what it needs of an object. The sources are the
subschema that the object came from and the targets that were proxiable in earlier rounds, whether
they were asked or not: a target that can be asked counts as a source from then on. So a called
target needs fields that one of these declares (`NeedsDeclared`), but a proxiable target that owns
nothing that is requested is never asked, and the object may not have been fetched from it.

`Goes.exists_proxiable` finds the sources of each round in the rounds before it, by induction on the
rounds. `Stitched.exists_declaring` finds a field of a needed selection set among the types of the
sources; where only a table vouches for it, the selection set in the table may be another one that
is written the same, and so selects fields of the same names.
-/

namespace Gateway

/-! ## What is declared -/

/-- A field that the types have is declared by one of them. -/
theorem Has.exists_hasField {types : List (Schema × Name)} {node : Field}
    (h : Has types (.field node)) (hname : node.name ≠ typenameField) :
    ∃ type ∈ types, type.1.hasField type.2 node.name = true := by
  cases h with
  | typename named => exact absurd named hname
  | field declared _ =>
    obtain ⟨type, htype, hsome⟩ := declared
    refine ⟨type, htype, ?_⟩
    unfold Schema.fieldTypeName? at hsome
    unfold Schema.hasField
    rw [if_neg hname, Option.isSome_map] at hsome
    rw [if_neg hname]
    exact hsome

/-- The meta field can be selected on any object type. -/
theorem Schema.hasField_typename {schema : Schema} {type : Name}
    (h : schema.isObject type = true) : schema.hasField type typenameField = true := by
  unfold Schema.hasField Schema.isComposite
  rw [if_pos rfl, h, Bool.true_or]

namespace Stitching

variable {σ : Type} {merged : MergedType (TypeResolver σ)} {type : Name}

/-- A field of a selection set that the sources contain is declared by a source, or by the subschema
of the merged type that goes by its name. -/
theorem Stitched.exists_declaring (hstitched : Stitched merged type) {sources : List Subschema}
    {needed : List Selection} (hneeded : needed ∈ neededSelections merged)
    (hcontains : merged.Contains sources needed) {node : Field} (hnode : node ∈ directFields needed)
    (hname : node.name ≠ typenameField) :
    ∃ source ∈ sources, ∃ declaring, declaring.is source = true ∧
      (declaring = source ∨ declaring ∈ merged.subschemas) ∧
      declaring.view.hasField type node.name = true := by
  rcases hcontains with hknows | ⟨type', htype, hhas⟩
  · obtain ⟨source, hsource, table, htable, hentry⟩ := hknows
    obtain ⟨subschema, hmem, hsame, rfl⟩ := hstitched.tables _ _ htable
    obtain ⟨written, hwritten, heq⟩ := List.mem_map.mp (Entries.mem_of_get?_ofPairs hentry)
    obtain ⟨hkey, hall⟩ := Prod.mk.inj heq
    -- The table knows selection sets by their text, so its entry may be for another one.
    have hnames :
        (directFields written).map FieldOf.name = (directFields needed).map FieldOf.name :=
      map_name_eq_of_selectionSetKey_eq (hstitched.needed _ hwritten) (hstitched.needed _ hneeded)
        hkey
    have hmemName : node.name ∈ (directFields written).map FieldOf.name := by
      rw [hnames]
      exact List.mem_map_of_mem hnode
    obtain ⟨node', hnode', hnameEq⟩ := List.mem_map.mp hmemName
    have hhas := (typesHaveAll_iff _ _).mp hall _ (mem_directFields.mp hnode')
    obtain ⟨_, hview, hfield⟩ := hhas.exists_hasField (by rw [hnameEq]; exact hname)
    rw [List.mem_singleton.mp hview, hnameEq] at hfield
    exact ⟨source, hsource, subschema, decide_eq_true hsame, .inr hmem, hfield⟩
  · have heq : type' = type := Option.some.inj (htype.symm.trans hstitched.typeName)
    obtain ⟨_, hview, hfield⟩ := (hhas _ (mem_directFields.mp hnode)).exists_hasField hname
    obtain ⟨source, hsource, rfl⟩ := List.mem_map.mp hview
    rw [heq] at hfield
    exact ⟨source, hsource, source, source.is_self, .inl rfl, hfield⟩

end Stitching

/-! ## The sources of a round -/

namespace MergedType

variable {ρ : Type} {merged : MergedType ρ}

/-- The targets that become proxiable are targets from the start. -/
theorem Goes.mem_targets {run : MergeRun} {outcome : Except DelegationError MergeRun}
    {rounds : List RoundLog} (h : merged.Goes run outcome rounds) {round : RoundLog}
    (hround : round ∈ rounds) : ∀ target ∈ round.plan.proxiable, target ∈ run.targets := by
  have hplan : ∀ run : MergeRun, ∀ target ∈ (merged.nextPlan run).proxiable,
      target ∈ run.targets := by
    intro run target htarget
    unfold nextPlan at htarget
    rw [(merged.isPlan_plan _ _ _).proxiable] at htarget
    exact (List.mem_filter.mp htarget).1
  induction h with
  | done => exact absurd hround List.not_mem_nil
  | failed =>
    rw [List.mem_singleton.mp hround]
    exact hplan _
  | next _ _ _ ih =>
    rcases List.mem_cons.mp hround with rfl | hround
    · exact hplan _
    · intro target htarget
      exact mem_of_mem_nonProxiable (ih hround target htarget)

/-- A called target is a target from the start, and what it needs is contained in the sources of its
round: those that the run began with and the targets that were proxiable before. -/
theorem Goes.exists_proxiable {run : MergeRun} {outcome : Except DelegationError MergeRun}
    {rounds : List RoundLog} (h : merged.Goes run outcome rounds) :
    ∀ earlier round later, rounds = earlier ++ round :: later → ∀ call ∈ round.calls,
      ∃ waiting, ∃ target ∈ run.targets, call.1.name = target.name ∧ merged.Proxiable
        (run.sources ++ earlier.flatMap fun round => round.plan.proxiable) waiting target := by
  -- In the first round nothing was proxiable before.
  have hfirst : ∀ (run : MergeRun) (call : Call), call ∈ (merged.nextPlan run).delegations →
      ∃ waiting, ∃ target ∈ run.targets, call.1.name = target.name ∧
        merged.Proxiable (run.sources ++ []) waiting target := by
    intro run call hcall
    obtain ⟨target, htarget, hname, hcan⟩ := exists_target_of_mem hcall
    rw [List.append_nil]
    exact ⟨run.waiting, target, htarget, hname, hcan⟩
  induction h with
  | done => exact fun earlier round later hsplit => absurd hsplit (by simp)
  | @failed run _ log _ _ =>
    intro earlier round later hsplit
    rcases earlier with _ | ⟨first, earlier⟩
    · obtain ⟨rfl, -⟩ := List.cons.inj hsplit
      exact hfirst run
    · exact absurd (List.cons.inj hsplit).2 (by simp)
  | @next run _ log _ _ _ _ _ ih =>
    intro earlier round later hsplit
    rcases earlier with _ | ⟨first, earlier⟩
    · obtain ⟨rfl, -⟩ := List.cons.inj hsplit
      exact hfirst run
    · obtain ⟨hround, hsplit⟩ := List.cons.inj hsplit
      intro call hcall
      obtain ⟨waiting, target, htarget, hname, hcan⟩ := ih earlier round later hsplit call hcall
      rw [List.flatMap_cons, ← List.append_assoc, ← hround]
      exact ⟨waiting, target, mem_of_mem_nonProxiable htarget, hname, hcan⟩

/-- The run that completes an object of a source. -/
def begun (merged : MergedType ρ) (object : FetchedObject) (selections : List Selection)
    (source : Subschema) : MergeRun where
  object
  waiting := selections
  sources := [source]
  targets := merged.targetsOf source

/-- The targets of a source are found under its name. -/
theorem mem_targetsOf {source target : Subschema} (h : target ∈ merged.targetsOf source) :
    ∃ targets, merged.targets.get? source.name = some targets ∧ target ∈ targets := by
  unfold targetsOf at h
  cases hfound : merged.targets.get? source.name with
  | none =>
    rw [hfound] at h
    exact absurd h List.not_mem_nil
  | some targets =>
    rw [hfound] at h
    exact ⟨targets, rfl, h⟩

end MergedType

/-! ## What a called target needs -/

namespace Stitching

variable {σ : Type}

/-- Whatever a called target needs of an object is declared on the type by the subschema that the
object came from, or by one that counts, by the plan of an earlier round. -/
def NeedsDeclared (merged : MergedType (TypeResolver σ)) (type : Name) (source : Subschema)
    (counts : Plan → Subschema → Bool) (rounds : List RoundLog) : Prop :=
  ∀ earlier round later, rounds = earlier ++ round :: later → ∀ call ∈ round.calls,
    ∀ needed, merged.selections.get? call.1.name = some needed → ∀ node ∈ directFields needed,
      ∃ declaring ∈ source :: merged.subschemas, declaring.view.hasField type node.name = true ∧
        (declaring.is source = true ∨ ∃ round ∈ earlier, counts round.plan declaring = true)

/-- The source of an object and the targets that were proxiable before declare what called targets
need. -/
theorem Stitched.needsDeclared {merged : MergedType (TypeResolver σ)} {type : Name}
    (hstitched : Stitched merged type) {object : FetchedObject} {selections : List Selection}
    {source : Subschema} {outcome : Except DelegationError MergeRun} {rounds : List RoundLog}
    (hgoes : merged.Goes (merged.begun object selections source) outcome rounds) :
    NeedsDeclared merged type source (fun plan declaring => declaring.isAmong plan.proxiable)
      rounds := by
  intro earlier round later hsplit call hcall needed hneeded node hnode
  obtain ⟨waiting, target, htarget, hcalled, hcan⟩ :=
    hgoes.exists_proxiable earlier round later hsplit call hcall
  -- There is a target to call, so the merged type knows the source by its name.
  obtain ⟨targets, hfound, -⟩ := MergedType.mem_targetsOf htarget
  obtain ⟨⟨own, hown, hsame⟩, -⟩ := hstitched.targets _ _ hfound
  by_cases hname : node.name = typenameField
  · refine ⟨own, List.mem_cons_of_mem _ hown, ?_, .inl (decide_eq_true hsame)⟩
    rw [hname]
    exact Schema.hasField_typename (hstitched.objects own hown)
  · rw [hcalled] at hneeded
    have hmem : needed ∈ neededSelections merged :=
      List.mem_append_left _ (List.mem_map_of_mem (Entries.mem_of_get? hneeded))
    obtain ⟨origin, horigin, declaring, his, hdeclaring, hfield⟩ :=
      hstitched.exists_declaring hmem (hcan.type needed hneeded) hnode hname
    rcases List.mem_append.mp horigin with hfirst | hproxiable
    · rw [List.mem_singleton.mp hfirst] at his hdeclaring
      refine ⟨declaring, ?_, hfield, .inl his⟩
      rcases hdeclaring with rfl | hmember
      · exact List.mem_cons_self
      · exact List.mem_cons_of_mem _ hmember
    · obtain ⟨round', hround', hproxiable⟩ := List.mem_flatMap.mp hproxiable
      have hmember : origin ∈ merged.subschemas := by
        obtain ⟨_, hfound', htarget'⟩ := MergedType.mem_targetsOf
          (hgoes.mem_targets (by rw [hsplit]; exact List.mem_append_left _ hround') _ hproxiable)
        exact (hstitched.targets _ _ hfound').2 origin htarget'
      refine ⟨declaring, List.mem_cons_of_mem _ ?_, hfield, .inr ⟨round', hround', ?_⟩⟩
      · rcases hdeclaring with rfl | hmember'
        · exact hmember
        · exact hmember'
      · exact List.any_eq_true.mpr ⟨origin, hproxiable, his⟩

/-! ## A target that can be asked but is not -/

/-- A service whose users have one field. -/
def userService (name field : String) (needed? : Option String) : Service Unit where
  subschema :=
    { name
      schema :=
        { types := [
            { name := "Query", body := .object [] [{ name := "user", type := .named "User" }] },
            { name := "User", body := .object [] [{ name := field, type := .named "String" }] }]
          directives := []
          roots := [(.query, "Query")] } }
  merging := [("User", { selectionSet? := needed?, fieldName? := some "user" })]

/-- Services of users; the cost of shipping depends on the weight. -/
def userServices : List (Service Unit) := [
  userService "accounts" "id" none,
  userService "weights" "weight" none,
  userService "mail" "email" none,
  userService "shipping" "cost" (some "\x7b weight \x7d")]

/-- What is derived from these services. -/
def userStitching : Stitching Unit :=
  (ofServices userServices).toOption.getD {}

/-- How users are merged. -/
def userType : MergedType (TypeResolver Unit) :=
  (userStitching.mergedType? "User").getD {}

/-- The subschema of accounts. -/
def accounts : Subschema :=
  (userService "accounts" "id" none).subschema

/-- A call for the field of one of these services. -/
def userCall (name field : String) : Call :=
  ((userService name field none).subschema, [.field { name := field }])

/-- The run that fetches the email and the cost of a user, after as many rounds; every answer is
null. -/
def userRun : Nat → MergeRun
  | 0 => userType.begun { owner := "accounts" }
      [.field { name := "email" }, .field { name := "cost" }] accounts
  | round + 1 => (userRun round).next (userType.nextPlan (userRun round)) [.leaf .null]

/-- A round of this run, with its call. -/
def userRound (round : Nat) (call : Call) : RoundLog :=
  ⟨userType.nextPlan (userRun round), [(call, .ok (.leaf .null))]⟩

/-- The rounds of this run: the first one could ask for the weight but only asks for the email. -/
def userRounds : List RoundLog :=
  [userRound 0 (userCall "mail" "email"), userRound 1 (userCall "shipping" "cost")]

/-- These services can be stitched. -/
theorem ofServices_userServices : ofServices userServices = .ok userStitching := by
  have hsome : (ofServices userServices).toOption.isSome = true := by decide +kernel
  unfold userStitching
  cases h : ofServices userServices with
  | error error =>
    rw [h] at hsome
    exact absurd hsome (by simp [Except.toOption])
  | ok stitching => rfl

/-- Users are merged. -/
theorem mergedType?_user : userStitching.mergedType? "User" = some userType := by
  have hsome : (userStitching.mergedType? "User").isSome = true := by decide +kernel
  obtain ⟨merged, hmerged⟩ := Option.isSome_iff_exists.mp hsome
  unfold userType
  rw [hmerged, Option.getD_some]

/-- The first round asks for the email. -/
theorem delegations_userRun_zero :
    (userType.nextPlan (userRun 0)).delegations = [userCall "mail" "email"] := by
  decide +kernel

/-- The second round asks for the cost. -/
theorem delegations_userRun_one :
    (userType.nextPlan (userRun 1)).delegations = [userCall "shipping" "cost"] := by
  decide +kernel

/-- Nothing is asked after that. -/
theorem delegations_userRun_two : (userType.nextPlan (userRun 2)).delegations = [] := by
  decide +kernel

/-- A round of one call that is answered at once. -/
theorem runFrom_mergeWithin_single {ρ : Type} (merged : MergedType ρ) (fuel : Nat) {run : MergeRun}
    {call : Call} (h : (merged.nextPlan run).delegations = [call]) (value : FetchedValue)
    (session : Session σ) (events : List Event) :
    runFrom (merged.mergeWithin (Resolvers.askNoting fun _ _ _ => pure (pure value)) (fuel + 1) run)
        (session, events) =
      runFrom (merged.mergeWithin (Resolvers.askNoting fun _ _ _ => pure (pure value)) fuel
        (run.next (merged.nextPlan run) [value]))
          (session, events ++ [.asked call] ++ [.answered call (.ok value)]) := by
  have hbusy : (merged.nextPlan run).delegations ≠ [] := by
    rw [h]
    exact List.cons_ne_nil _ _
  rw [MergedType.mergeWithin_busy _ _ _ hbusy, h]
  rfl

/-- What is seen of the run are its rounds. -/
theorem runFrom_userType_merge :
    runFrom (userType.merge (Resolvers.askNoting fun _ _ _ => pure (pure (.leaf .null)))
      { owner := "accounts" } [.field { name := "email" }, .field { name := "cost" }] [accounts]
        (userType.targetsOf accounts)) ({ world := () }, []) =
      (.ok (userRun 2), { world := () }, userRounds.flatMap RoundLog.events) := by
  have htargets : (userType.targetsOf accounts).length = 2 + 1 := by decide +kernel
  have hevents : userRounds.flatMap RoundLog.events =
      [] ++ [.asked (userCall "mail" "email")] ++
        [.answered (userCall "mail" "email") (.ok (.leaf .null))] ++
        [.asked (userCall "shipping" "cost")] ++
        [.answered (userCall "shipping" "cost") (.ok (.leaf .null))] := by
    unfold userRounds userRound RoundLog.events RoundLog.calls
    simp only [List.flatMap_cons, delegations_userRun_zero, delegations_userRun_one]
    rfl
  unfold MergedType.merge
  rw [htargets, hevents]
  refine (runFrom_mergeWithin_single userType 2 delegations_userRun_zero _ _ _).trans ?_
  refine (runFrom_mergeWithin_single userType 1 delegations_userRun_one _ _ _).trans ?_
  change runFrom (userType.mergeWithin _ 1 (userRun 2)) _ = _
  rw [MergedType.mergeWithin_idle userType _ 1 delegations_userRun_two, runFrom_pure]

/-- The rounds of the run. -/
theorem goes_userRounds : userType.Goes (userRun 0) (.ok (userRun 2)) userRounds := by
  refine .next ?_ ?_ (.next ?_ ?_ (.done delegations_userRun_two))
  · rw [delegations_userRun_zero]
    exact List.cons_ne_nil _ _
  · rw [delegations_userRun_zero]
    exact .ok .nil
  · exact delegations_userRun_one ▸ List.cons_ne_nil _ _
  · exact delegations_userRun_one ▸ .ok .nil

/-! ## All runs -/

/-- However the objects of a source are completed, by a type that is derived from services, a called
target needs only fields that are declared by the source or by a target that was proxiable in an
earlier round, whether that one was asked or not. -/
theorem merge_needsDeclared {services : List (Service σ)} {stitching : Stitching σ} {type : Name}
    {merged : MergedType (TypeResolver σ)} (hstitching : ofServices services = .ok stitching)
    (hmerged : stitching.mergedType? type = some merged) (resolvers : Resolvers σ)
    (object : FetchedObject) (selections : List Selection) (source : Subschema)
    (session : Session σ) :
    ∃ outcome session' rounds,
      runFrom (merged.merge resolvers.askNoting object selections [source]
        (merged.targetsOf source)) (session, []) =
          (outcome, session', rounds.flatMap RoundLog.events) ∧
      merged.Goes (merged.begun object selections source) outcome rounds ∧
      NeedsDeclared merged type source (fun plan declaring => declaring.isAmong plan.proxiable)
        rounds := by
  obtain ⟨outcome, session', rounds, hgoes, -, hnoting⟩ :=
    merged.mergeWithin_goes resolvers (merged.targetsOf source).length
      (merged.begun object selections source) (Nat.le_refl _) session []
  exact ⟨outcome, session', rounds, hnoting, hgoes,
    (stitched_of_ofServices hstitching hmerged).needsDeclared hgoes⟩

/-- Users of these services are completed so. -/
theorem merge_needsDeclared_user :
    ofServices userServices = .ok userStitching ∧
      userStitching.mergedType? "User" = some userType ∧
      ∃ outcome session' rounds,
        runFrom (userType.merge (Resolvers.askNoting fun _ _ _ => pure (pure (.leaf .null)))
          { owner := "accounts" } [.field { name := "email" }, .field { name := "cost" }] [accounts]
            (userType.targetsOf accounts)) ({ world := () }, []) =
          (outcome, session', rounds.flatMap RoundLog.events) ∧
        userType.Goes (userRun 0) outcome rounds ∧
        NeedsDeclared userType "User" accounts
          (fun plan declaring => declaring.isAmong plan.proxiable) rounds :=
  ⟨ofServices_userServices, mergedType?_user,
    merge_needsDeclared ofServices_userServices mergedType?_user
      (fun _ _ _ => pure (pure (.leaf .null))) { owner := "accounts" }
      [.field { name := "email" }, .field { name := "cost" }] accounts { world := () }⟩

/-- The cost is asked of shipping, which needs the weight, but nothing was asked of the only
subschema that declares the weight. -/
theorem not_needsDeclared_asks :
    ofServices userServices = .ok userStitching ∧
      userStitching.mergedType? "User" = some userType ∧
      runFrom (userType.merge (Resolvers.askNoting fun _ _ _ => pure (pure (.leaf .null)))
        { owner := "accounts" } [.field { name := "email" }, .field { name := "cost" }] [accounts]
          (userType.targetsOf accounts)) ({ world := () }, []) =
        (.ok (userRun 2), { world := () }, userRounds.flatMap RoundLog.events) ∧
      userType.Goes (userRun 0) (.ok (userRun 2)) userRounds ∧
      ¬ NeedsDeclared userType "User" accounts Plan.asks userRounds := by
  refine ⟨ofServices_userServices, mergedType?_user, runFrom_userType_merge, goes_userRounds, ?_⟩
  intro hneeds
  have hneeded : userType.selections.get? (userCall "shipping" "cost").1.name =
      some [.field { name := "weight" }] := by decide +kernel
  have hcalled : userCall "shipping" "cost" ∈
      (userRound 1 (userCall "shipping" "cost")).calls := by
    unfold userRound RoundLog.calls
    simp only [delegations_userRun_one, List.mem_singleton]
  have hdeclaring : ∀ declaring ∈ accounts :: userType.subschemas,
      declaring.view.hasField "User" "weight" = true →
        declaring.is accounts = false ∧
          (userRound 0 (userCall "mail" "email")).plan.asks declaring = false := by decide +kernel
  obtain ⟨declaring, hmem, hfield, hcounts⟩ := hneeds [userRound 0 (userCall "mail" "email")]
    (userRound 1 (userCall "shipping" "cost")) [] rfl _ hcalled _ hneeded
      { name := "weight" } (mem_directFields.mpr List.mem_cons_self)
  obtain ⟨hsource, hasked⟩ := hdeclaring declaring hmem hfield
  rcases hcounts with his | ⟨round, hround, hasks⟩
  · exact absurd his (Bool.eq_false_iff.mp hsource)
  · rw [List.mem_singleton.mp hround] at hasks
    exact absurd hasks (Bool.eq_false_iff.mp hasked)

end Stitching

end Gateway
