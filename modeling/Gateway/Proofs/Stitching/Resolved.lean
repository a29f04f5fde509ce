import Gateway.Proofs.Stitching.Accounts
import Gateway.Proofs.Stitching.Needs
import Gateway.Proofs.Stitching.Owners

/-!
# Targets have resolvers

A merge fails when it asks a subschema in which nothing resolves the type. The objects that a
gateway completes never come to that: the targets of a source are the other candidates that can
complete objects, each of which was listed when its resolver was added (`Building.Resolves`), and
only owners with the names of targets are called. So it does not matter what would happen if another
subschema were asked (`Stitching.completeOr_eq`, by induction on how deep merges are nested).
-/

namespace Gateway

/-! ## Who can be asked -/

namespace MergedType

variable {σ : Type}

/-- Whether something resolves the type in a subschema: a fetcher, or a root field of a service of
the subschema. -/
def isResolved (merged : MergedType (TypeResolver σ)) (subschema : Subschema) : Bool :=
  match merged.resolvers.get? subschema.name with
  | none => false
  | some (.custom _) => true
  | some (.rootField services _ _) => (Service.of? services subschema).isSome

/-- A subschema in which nothing resolves the type cannot be asked. -/
theorem ask_of_not_isResolved {merged : MergedType (TypeResolver σ)} {subschema : Subschema}
    (h : merged.isResolved subschema = false) (stitching? : Option (Stitching σ))
    (complete : Completion σ) (type : Name) (context : Context) (info : FieldInfo)
    (object : FetchedObject) (selections : List Selection) :
    merged.ask stitching? complete type context info subschema object selections =
      pure (throw (.missingMergedTypeResolver type subschema.name)) := by
  unfold isResolved at h
  unfold ask
  cases hfound : merged.resolvers.get? subschema.name with
  | none => rfl
  | some resolver =>
    rw [hfound] at h
    cases resolver with
    | custom => exact absurd h (by simp)
    | rootField services =>
      dsimp only at h ⊢
      rw [Option.not_isSome_iff_eq_none.mp (Bool.eq_false_iff.mp h)]

/-- Whether objects of a source may be completed by a subschema: it is another one, and something
resolves the type in it. -/
def canComplete (merged : MergedType (TypeResolver σ)) (source subschema : Subschema) : Bool :=
  !subschema.is source && merged.isResolved subschema

end MergedType

namespace Stitching

variable {σ : Type}

/-! ## Resolvers of candidates -/

/-- What can complete objects has a resolver, and a root field is one of all services of a name. -/
structure Building.Resolves (services : List (Service σ)) (building : Building σ) : Prop where
  /-- What can complete objects has a resolver. -/
  resolved : ∀ target ∈ building.resolving,
    ∃ resolver, building.merged.resolvers.get? target.name = some resolver
  /-- A root field is one of all services of a name. -/
  listed : ∀ name listed fieldName arguments?,
    building.merged.resolvers.get? name = some (.rootField listed fieldName arguments?) →
      ∀ service ∈ services, service.subschema.name = name → service ∈ listed

/-- Whether resolvers are right depends only on them and on what can complete objects. -/
theorem Building.Resolves.congr {services : List (Service σ)} {building building' : Building σ}
    (h : building.Resolves services) (hresolving : building'.resolving = building.resolving)
    (hresolvers : building'.merged.resolvers = building.merged.resolvers) :
    building'.Resolves services :=
  ⟨hresolving ▸ hresolvers ▸ h.resolved, hresolvers ▸ h.listed⟩

/-- The resolver of a candidate is added to those of the others. -/
theorem Building.Resolves.addResolver {services : List (Service σ)} {building : Building σ}
    (h : building.Resolves services) {subschema : Subschema} {merging : TypeMerging σ}
    {resolver : TypeResolver σ}
    (hresolver : merging.resolver? (services.filter (·.subschema.is subschema)) = some resolver) :
    (building.addResolver subschema resolver).Resolves services := by
  have hfound : ∀ name, (building.addResolver subschema resolver).merged.resolvers.get? name =
      if name = subschema.name then some resolver else building.merged.resolvers.get? name :=
    fun name => Entries.get?_insert _ _ _ _
  constructor
  · intro target htarget
    rw [hfound]
    by_cases hname : target.name = subschema.name
    · exact ⟨resolver, if_pos hname⟩
    · rw [if_neg hname]
      rcases List.mem_append.mp htarget with hmem | hlast
      · exact h.resolved target hmem
      · exact absurd (congrArg Subschema.name (List.mem_singleton.mp hlast)) hname
  · intro name listed fieldName arguments? hroot service hservice hname
    rw [hfound] at hroot
    by_cases hsame : name = subschema.name
    · rw [if_pos hsame, Option.some.injEq] at hroot
      rw [hroot] at hresolver
      unfold TypeMerging.resolver? at hresolver
      split at hresolver
      · exact absurd hresolver (by simp)
      · cases hresolver
        exact List.mem_filter.mpr ⟨hservice, decide_eq_true (hname.trans hsame)⟩
      · exact absurd hresolver (by simp)
    · rw [if_neg hsame] at hroot
      exact h.listed name listed fieldName arguments? hroot service hservice hname

/-- A candidate keeps the resolvers right. -/
theorem Building.Resolves.addCandidate {services : List (Service σ)} {type : Name}
    {building building' : Building σ} {service : Service σ} (h : building.Resolves services)
    (hadded : Building.addCandidate services type building service = .ok building') :
    building'.Resolves services := by
  obtain ⟨needed, middle, -, hpart, rfl⟩ := Building.of_addCandidate hadded
  have hmiddle : middle.Resolves services := by
    cases hpart with
    | not => exact h
    | fields _ added _ =>
      obtain ⟨-, hresolving, hresolvers⟩ := Building.of_addFields added
      exact h.congr hresolving hresolvers
    | resolver _ added resolved =>
      obtain ⟨-, hresolving, hresolvers⟩ := Building.of_addFields added
      exact (h.congr hresolving hresolvers).addResolver resolved
  unfold Building.withOwner
  cases needed with
  | none => exact hmiddle.congr rfl rfl
  | some => exact hmiddle.congr rfl rfl

/-- The targets of a source are other candidates that can complete objects. -/
theorem of_mem_targetsOf_finish {type : Name} {candidates : List Subschema}
    {building : Building σ} {source target : Subschema}
    (h : target ∈ (finish type candidates building).targetsOf source) :
    target ∈ building.resolving ∧ target.is source = false := by
  obtain ⟨targets, hfound, hmem⟩ := MergedType.mem_targetsOf h
  obtain ⟨other, -, hsome⟩ := List.mem_filterMap.mp (Entries.mem_of_get?_ofPairs hfound)
  split at hsome
  · exact absurd hsome (by simp)
  · obtain ⟨hname, rfl⟩ := Prod.mk.inj (Option.some.inj hsome)
    obtain ⟨hresolving, hother⟩ := List.mem_filter.mp hmem
    refine ⟨hresolving, ?_⟩
    rw [Bool.not_eq_true', Subschema.is_comm, Subschema.is_congr (decide_eq_true hname),
      Subschema.is_comm] at hother
    exact hother

/-- An owner of a field that goes by the name of a target can complete objects of the source. -/
theorem canComplete_of_target {services : List (Service σ)} {stitching : Stitching σ}
    {type : Name} {merged : MergedType (TypeResolver σ)} (h : ofServices services = .ok stitching)
    (hmerged : stitching.mergedType? type = some merged) {source target owner : Subschema}
    (htarget : target ∈ merged.targetsOf source) (hname : owner.name = target.name) {field : Name}
    (howns : merged.Owns owner field) : merged.canComplete source owner = true := by
  obtain ⟨hservice, -⟩ := declares_of_owns h hmerged howns
  obtain ⟨service, hmem, rfl⟩ := List.mem_map.mp hservice
  obtain ⟨listed, requirements, building, hlisted, hbuilding, rfl⟩ :=
    isFinished_of_ofServices h hmerged
  have hresolves : building.Resolves services :=
    foldlM_keeps (fun _ hsofar _ _ _ hstep => Building.Resolves.addCandidate hsofar hstep)
      ⟨fun _ hmem => absurd hmem List.not_mem_nil, fun _ _ _ _ hfound =>
        absurd hfound (by simp [Entries.get?])⟩ hbuilding
  obtain ⟨hresolving, hother⟩ := of_mem_targetsOf_finish htarget
  obtain ⟨resolver, hresolver⟩ := hresolves.resolved target hresolving
  rw [← hname] at hresolver
  have hfound : (finish type (listed.map Service.subschema) building).resolvers.get?
      service.subschema.name = some resolver := hresolver
  unfold MergedType.canComplete MergedType.isResolved
  rw [hfound, Subschema.is_congr (decide_eq_true hname), hother]
  cases resolver with
  | custom => rfl
  | rootField services' fieldName arguments? =>
    have hserved := hresolves.listed _ _ _ _ hresolver service hmem rfl
    have hsome : (Service.of? services' service.subschema).isSome = true :=
      List.find?_isSome.mpr ⟨service, hserved, decide_eq_true rfl⟩
    rw [Bool.not_false, Bool.true_and]
    exact hsome

end Stitching

/-! ## Merges that complete objects -/

namespace MergedType

section Loop

variable {ρ : Type} {m : Type → Type} [Monad m] [LawfulMonad m]

/-- A run does not depend on what nobody is asked. -/
theorem mergeWithin_congr (merged : MergedType ρ) {ask ask' : AskFields m}
    {targets : List Subschema}
    (hsame : ∀ run : MergeRun, run.targets ⊆ targets →
      ∀ call ∈ (merged.nextPlan run).delegations, ask call.1 = ask' call.1)
    (fuel : Nat) {run : MergeRun} (htargets : run.targets ⊆ targets) :
    merged.mergeWithin ask fuel run = merged.mergeWithin ask' fuel run := by
  induction fuel generalizing run with
  | zero => rfl
  | succ fuel ih =>
    by_cases hidle : (merged.nextPlan run).delegations = []
    · rw [mergeWithin_idle merged ask _ hidle, mergeWithin_idle merged ask' _ hidle]
    · have hcalls : ((merged.nextPlan run).delegations.mapM fun call =>
            ask call.1 run.object call.2) =
          (merged.nextPlan run).delegations.mapM fun call => ask' call.1 run.object call.2 :=
        mapM_congr fun call hcall => by rw [hsame run htargets call hcall]
      rw [mergeWithin_busy merged ask _ hidle, mergeWithin_busy merged ask' _ hidle, hcalls]
      refine bind_congr fun pending => bind_congr fun values => ih fun target htarget => ?_
      exact htargets (mem_of_mem_nonProxiable htarget)

end Loop

variable {σ : Type}

/-- A merge that completes an object of a source only asks subschemas that may complete it, and
fails only with the error that one of them answers. -/
structure Completes (merged : MergedType (TypeResolver σ)) (source : Subschema)
    (outcome : Except DelegationError MergeRun) (rounds : List RoundLog) : Prop where
  /-- The source is not asked. -/
  other : ∀ call ∈ callsOf rounds, call.1.is source = false
  /-- Something resolves the type in all that are asked. -/
  resolved : ∀ call ∈ callsOf rounds, merged.isResolved call.1 = true
  /-- Only an answer fails the merge. -/
  failed : ∀ error, outcome = .error error →
    ∃ round ∈ rounds, ∃ call ∈ round.calls, (call, .error error) ∈ round.answers

/-- Asks subschemas that may complete objects of a source; what happens otherwise is given. -/
def askOr (merged : MergedType (TypeResolver σ)) (source : Subschema)
    (ask otherwise : AskFields (ExceptT DelegationError (StateM (Session σ)))) :
    AskFields (ExceptT DelegationError (StateM (Session σ))) :=
  fun subschema =>
    if merged.canComplete source subschema then ask subschema else otherwise subschema

end MergedType

namespace Stitching

variable {σ : Type}

section OfServices

variable {services : List (Service σ)} {stitching : Stitching σ} {type : Name}
  {merged : MergedType (TypeResolver σ)} {source : Subschema}

/-- What is called for targets of a source may complete its objects. -/
theorem canComplete_of_mem (h : ofServices services = .ok stitching)
    (hmerged : stitching.mergedType? type = some merged) {run : MergeRun}
    (htargets : run.targets ⊆ merged.targetsOf source) :
    ∀ call ∈ (merged.nextPlan run).delegations, merged.canComplete source call.1 = true := by
  intro call hcall
  obtain ⟨field, howns, -⟩ := MergedType.exists_owns_of_mem hcall
  obtain ⟨target, htarget, hname, -⟩ := MergedType.exists_target_of_mem hcall
  exact canComplete_of_target h hmerged (htargets htarget) hname howns

/-- A merge that completes an object of a source asks only what may complete it. -/
theorem completes_of_goes (h : ofServices services = .ok stitching)
    (hmerged : stitching.mergedType? type = some merged) {object : FetchedObject}
    {selections : List Selection} {outcome : Except DelegationError MergeRun}
    {rounds : List RoundLog}
    (hgoes : merged.Goes (merged.begun object selections source) outcome rounds) :
    merged.Completes source outcome rounds := by
  have hcan : ∀ call ∈ callsOf rounds, merged.canComplete source call.1 = true :=
    hgoes.forall_mem_calls (fun _ => canComplete_of_mem h hmerged) (List.Subset.refl _)
  simp only [MergedType.canComplete, Bool.and_eq_true, Bool.not_eq_true'] at hcan
  refine ⟨fun call hcall => (hcan call hcall).1, fun call hcall => (hcan call hcall).2, ?_⟩
  intro error herror
  obtain ⟨earlier, round, call, rfl, hanswer⟩ := hgoes.accounted.failed error herror
  have hround : round ∈ earlier ++ [round] := List.mem_append_right _ (List.mem_singleton.mpr rfl)
  exact ⟨round, hround, call, (hgoes.accounted.answered round hround).subset
    (List.mem_map_of_mem hanswer), hanswer⟩

/-- What would happen if another subschema were asked does not matter to a merge that completes an
object of a source. -/
theorem merge_askOr (h : ofServices services = .ok stitching)
    (hmerged : stitching.mergedType? type = some merged)
    (ask otherwise : AskFields (ExceptT DelegationError (StateM (Session σ))))
    (object : FetchedObject) (selections : List Selection) :
    merged.merge (merged.askOr source ask otherwise) object selections [source]
        (merged.targetsOf source) =
      merged.merge ask object selections [source] (merged.targetsOf source) := by
  refine merged.mergeWithin_congr (fun run htargets call hcall => ?_) _ (List.Subset.refl _)
  exact if_pos (canComplete_of_mem h hmerged htargets call hcall)

end OfServices

/-! ## Delegations -/

/-- Completes an object of a merged type as it is completed, but for what happens when a subschema
is asked that may not complete objects of the source. -/
def completeOr (stitching : Stitching σ)
    (otherwise : Subschema → Name → AskFields (ExceptT DelegationError (StateM (Session σ)))) :
    Nat → Completion σ
  | 0 => fun _ _ _ _ object => pure object
  | depth + 1 => fun subschema context info type object =>
    match stitching.mergedType? type with
    | none => pure object
    | some merged => do
      let targets := merged.targetsOf subschema
      if targets.isEmpty then return object
      let selections := missingFields subschema type (info.subFields type)
      let ask := merged.ask (some stitching) (stitching.completeOr otherwise depth) type context
        info
      let run ← merged.merge (merged.askOr subschema ask (otherwise subschema type)) object
        selections [subschema] targets
      return run.object

/-- What would happen then does not matter when the merged types are derived from services. -/
theorem completeOr_eq {services : List (Service σ)} {stitching : Stitching σ}
    (h : ofServices services = .ok stitching)
    (otherwise : Subschema → Name → AskFields (ExceptT DelegationError (StateM (Session σ))))
    (depth : Nat) : stitching.completeOr otherwise depth = stitching.completeWithin depth := by
  induction depth with
  | zero => rfl
  | succ depth ih =>
    funext subschema context info type object
    unfold completeOr completeWithin
    rw [ih]
    cases hmerged : stitching.mergedType? type with
    | none => rfl
    | some merged =>
      dsimp only
      rw [merge_askOr h hmerged]

/-- Completes the objects that answer a gateway operation so. -/
def completionOr (stitching : Stitching σ)
    (otherwise : Subschema → Name → AskFields (ExceptT DelegationError (StateM (Session σ))))
    (info? : Option FieldInfo) : Completion σ :=
  match info? with
  | some info => stitching.completeOr otherwise info.operation.mergeDepth
  | none => fun _ _ _ _ object => pure object

/-- Merges that complete objects never ask the source of an object, nor a subschema in which nothing
resolves the type, when the merged types are derived from services. Asking such a subschema would
fail; but all that is called in any round is another subschema that has its resolver, a merge fails
only with the error that one of these answers, and whatever else asking others did, any delegation
would lead to the same. -/
theorem ofServices_resolves {services : List (Service σ)} {stitching : Stitching σ}
    (h : ofServices services = .ok stitching) :
    (∀ type merged, stitching.mergedType? type = some merged →
      ∀ complete context info, ∃ resolvers : Resolvers σ,
        merged.ask (some stitching) complete type context info = resolvers.ask ∧
        (∀ subschema object selections, merged.isResolved subschema = false →
          resolvers.ask subschema object selections =
            pure (throw (.missingMergedTypeResolver type subschema.name))) ∧
        ∀ source object selections session, ∃ outcome session' rounds,
          runFrom (merged.merge resolvers.askNoting object selections [source]
            (merged.targetsOf source)) (session, []) =
              (outcome, session', rounds.flatMap RoundLog.events) ∧
          merged.Completes source outcome rounds) ∧
      ∀ (delegation : Delegation σ) otherwise, delegation.stitching? = some stitching →
        delegation.start = delegation.run (stitching.completionOr otherwise delegation.info?) := by
  constructor
  · intro type merged hmerged complete context info
    obtain ⟨resolvers, hask⟩ := merged.exists_ask_eq (some stitching) complete type context info
    refine ⟨resolvers, hask, ?_, ?_⟩
    · intro subschema object selections hunresolved
      rw [← hask]
      exact MergedType.ask_of_not_isResolved hunresolved _ _ _ _ _ _ _
    · intro source object selections session
      obtain ⟨outcome, session', rounds, hgoes, -, hnoting⟩ :=
        merged.mergeWithin_goes resolvers (merged.targetsOf source).length
          (merged.begun object selections source) (Nat.le_refl _) session []
      exact ⟨outcome, session', rounds, hnoting, completes_of_goes h hmerged hgoes⟩
  · intro delegation otherwise hstitching
    unfold Delegation.start completion? completionOr
    rw [hstitching]
    cases delegation.info? with
    | none => rfl
    | some info =>
      dsimp only
      rw [completeOr_eq h]

/-- Users are completed so, whatever gateway field they answer. -/
theorem ofServices_resolves_user :
    ofServices userServices = .ok userStitching ∧
      userStitching.mergedType? "User" = some userType ∧
      ∀ info, ∃ resolvers : Resolvers Unit,
        userType.ask (some userStitching) (userStitching.completeWithin 1) "User" {} info =
          resolvers.ask ∧
        ∀ session, ∃ outcome session' rounds,
          runFrom (userType.merge resolvers.askNoting { owner := "accounts" }
            [.field { name := "email" }, .field { name := "cost" }] [accounts]
              (userType.targetsOf accounts)) (session, []) =
                (outcome, session', rounds.flatMap RoundLog.events) ∧
          userType.Completes accounts outcome rounds := by
  refine ⟨ofServices_userServices, mergedType?_user, fun info => ?_⟩
  obtain ⟨resolvers, hask, -, hcompletes⟩ := (ofServices_resolves ofServices_userServices).1 "User"
    userType mergedType?_user (userStitching.completeWithin 1) {} info
  exact ⟨resolvers, hask, hcompletes accounts _ _⟩

end Stitching

end Gateway
