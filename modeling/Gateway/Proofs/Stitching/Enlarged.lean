import Gateway.Proofs.Stitching.Leftover
import Gateway.Proofs.Stitching.Needs
import Gateway.Proofs.Transform.Required

/-!
# Requesting more

A target has to be given what it needs for all fields that are requested, so one field can hold back
a target that would fetch others. This is the only way in which a run is kept from fetching what it
would fetch without some of its selections. As long as nothing is held back, selections that are
added change no proxiable target. The plan then goes on from the plan without them, so it asks whom
that one asks, for as much or more, and only added selections wait besides (`plan_grows_or_held`).

Two runs are followed round by round (`Goes.grown`): they agree on their sources and targets until
an added field that still waits holds back a target that the smaller run finds proxiable.
-/

namespace Gateway

/-! ## Plans that grow -/

/-- A call is for the same subschema and for as much or more. -/
def Call.Grows (call grown : Call) : Prop :=
  grown.1 = call.1 ∧ call.2 <+: grown.2

/-- One plan goes on from another one with added selections: nothing is asked of another subschema
because of them. -/
structure Plan.Grows (added : List Selection) (plan grown : Plan) : Prop where
  /-- The proxiable targets are the same. -/
  proxiable : grown.proxiable = plan.proxiable
  /-- So are the others. -/
  nonProxiable : grown.nonProxiable = plan.nonProxiable
  /-- Every call is made, for as much or more. -/
  asked : ∀ call ∈ plan.delegations, ∃ call' ∈ grown.delegations, Call.Grows call call'
  /-- Only added selections wait besides. -/
  waiting : ∃ extra, extra ⊆ added ∧ grown.waiting = plan.waiting ++ extra

/-- Without added selections a plan stays as it is. -/
theorem Plan.Grows.refl (plan : Plan) : plan.Grows [] plan :=
  ⟨rfl, rfl, fun call hcall => ⟨call, hcall, rfl, List.prefix_rfl⟩,
    [], List.nil_subset _, (List.append_nil _).symm⟩

/-- Selections can be added in parts. -/
theorem Plan.Grows.trans {first second : List Selection} {plan middle grown : Plan}
    (h : plan.Grows first middle) (h' : middle.Grows second grown) :
    plan.Grows (first ++ second) grown := by
  refine ⟨h'.proxiable.trans h.proxiable, h'.nonProxiable.trans h.nonProxiable, ?_, ?_⟩
  · intro call hcall
    obtain ⟨call', hcall', hsame, hprefix⟩ := h.asked call hcall
    obtain ⟨call'', hcall'', hsame', hprefix'⟩ := h'.asked call' hcall'
    exact ⟨call'', hcall'', hsame'.trans hsame, hprefix.trans hprefix'⟩
  · obtain ⟨extra, hextra, hwaiting⟩ := h.waiting
    obtain ⟨extra', hextra', hwaiting'⟩ := h'.waiting
    refine ⟨extra ++ extra', ?_, ?_⟩
    · exact List.append_subset.mpr ⟨List.subset_append_of_subset_left _ hextra,
        List.subset_append_of_subset_right _ hextra'⟩
    · rw [hwaiting', hwaiting, List.append_assoc]

/-- One more selection to delegate keeps all calls. -/
theorem Plan.exists_grown_of_mem (owner : Subschema) (selection : Selection) {calls : List Call}
    {call : Call} (hcall : call ∈ calls) :
    ∃ call' ∈ Plan.addDelegation owner selection calls, Call.Grows call call' := by
  induction calls with
  | nil => exact absurd hcall List.not_mem_nil
  | cons first rest ih =>
    obtain ⟨other, selections⟩ := first
    rw [Plan.addDelegation]
    by_cases his : other.is owner = true
    · rw [if_pos his]
      rcases List.mem_cons.mp hcall with rfl | hrest
      · exact ⟨_, List.mem_cons_self, rfl, List.prefix_append _ _⟩
      · exact ⟨call, List.mem_cons_of_mem _ hrest, rfl, List.prefix_rfl⟩
    · rw [if_neg his]
      rcases List.mem_cons.mp hcall with rfl | hrest
      · exact ⟨_, List.mem_cons_self, rfl, List.prefix_rfl⟩
      · obtain ⟨call', hcall', hgrows⟩ := ih hrest
        exact ⟨call', List.mem_cons_of_mem _ hcall', hgrows⟩

/-- The selections that wait after rounds. -/
def waitingAfter (selections : List Selection) (rounds : List RoundLog) : List Selection :=
  rounds.foldl (fun _ round => round.plan.waiting) selections

namespace MergedType

variable {ρ : Type} {merged : MergedType ρ}

/-- Routing one more selection lets a plan grow. -/
theorem route_grows (merged : MergedType ρ) (plan : Plan) (selection : Selection) :
    plan.Grows [selection] (merged.route plan selection) := by
  have hwait : plan.Grows [selection] (plan.wait selection) :=
    ⟨rfl, rfl, fun call hcall => ⟨call, hcall, rfl, List.prefix_rfl⟩,
      [selection], List.Subset.refl _, rfl⟩
  cases selection with
  | spread => exact hwait
  | inline => exact hwait
  | field node =>
    unfold route
    dsimp only
    split
    · exact ⟨rfl, rfl, fun call hcall => ⟨call, hcall, rfl, List.prefix_rfl⟩,
        [], List.nil_subset _, (List.append_nil _).symm⟩
    · split
      · exact ⟨rfl, rfl, fun call hcall => Plan.exists_grown_of_mem _ _ hcall,
          [], List.nil_subset _, (List.append_nil _).symm⟩
      · exact hwait

/-- Routing more selections lets a plan grow. -/
theorem foldl_route_grows (merged : MergedType ρ) (plan : Plan) (added : List Selection) :
    plan.Grows added (added.foldl merged.route plan) := by
  induction added generalizing plan with
  | nil => exact .refl plan
  | cons selection rest ih => exact (merged.route_grows plan selection).trans (ih _)

/-! ## Targets that are held back -/

/-- A field holds a target back: what the target needs for it is not contained in the sources. -/
def HoldsBack (merged : MergedType ρ) (sources : List Subschema) (field : Name)
    (target : Subschema) : Prop :=
  ∃ needs needed, merged.fieldSelections.get? target.name = some needs ∧
    needs.get? field = some needed ∧ ¬ merged.Contains sources needed

/-- A target stays proxiable with added selections unless one of them holds it back. -/
theorem proxiable_append_iff {sources : List Subschema} {selections added : List Selection}
    {target : Subschema} :
    merged.Proxiable sources (selections ++ added) target ↔
      merged.Proxiable sources selections target ∧
        ∀ node, Selection.field node ∈ added → ¬ merged.HoldsBack sources node.name target := by
  constructor
  · intro h
    refine ⟨⟨h.type, fun node hnode => h.field node (List.mem_append_left _ hnode)⟩, ?_⟩
    rintro node hnode ⟨needs, needed, hneeds, hneeded, hlacks⟩
    exact hlacks (h.field node (List.mem_append_right _ hnode) needs hneeds needed hneeded)
  · rintro ⟨h, hnone⟩
    refine ⟨h.type, fun node hnode needs hneeds needed hneeded => ?_⟩
    rcases List.mem_append.mp hnode with hnode | hnode
    · exact h.field node hnode needs hneeds needed hneeded
    · by_contra hlacks
      exact hnone node hnode ⟨needs, needed, hneeds, hneeded, hlacks⟩

/-- With added selections a plan grows, unless one of them holds back a target that is proxiable
without them. -/
theorem plan_grows_or_held (merged : MergedType ρ) (selections added : List Selection)
    (sources targets : List Subschema) :
    (merged.plan selections sources targets).Grows added
        (merged.plan (selections ++ added) sources targets) ∨
      ∃ target ∈ (merged.plan selections sources targets).proxiable, ∃ node,
        Selection.field node ∈ added ∧ merged.HoldsBack sources node.name target := by
  refine or_iff_not_imp_right.mpr fun hnone => ?_
  have hsame : ∀ target ∈ targets, merged.isProxiable sources (selections ++ added) target =
      merged.isProxiable sources selections target := by
    intro target htarget
    rw [Bool.eq_iff_iff, isProxiable_iff, isProxiable_iff, proxiable_append_iff]
    refine and_iff_left_of_imp fun hcan node hnode hheld => hnone ⟨target, ?_, node, hnode, hheld⟩
    rw [(merged.isPlan_plan selections sources targets).proxiable, List.mem_filter]
    exact ⟨htarget, decide_eq_true hcan⟩
  have hplan : merged.plan (selections ++ added) sources targets =
      added.foldl merged.route (merged.plan selections sources targets) := by
    unfold plan
    rw [List.foldl_append, List.filter_congr hsame,
      List.filter_congr fun target htarget => congrArg (!·) (hsame target htarget)]
  rw [hplan]
  exact merged.foldl_route_grows _ added

/-! ## Rounds of two runs -/

/-- A field holds a target back after rounds: it still waits, and what the target needs for it is
not contained in the sources. -/
def HeldAfter (merged : MergedType ρ) (sources : List Subschema) (selections : List Selection)
    (rounds : List RoundLog) (node : Field) (target : Subschema) : Prop :=
  Selection.field node ∈ waitingAfter selections rounds ∧
    merged.HoldsBack (sourcesAfter sources rounds) node.name target

/-- No later than in the round of a call, a target that is proxiable in that round is held back, as
many rounds into others, by an added field. -/
def HeldBefore (merged : MergedType ρ) (sources : List Subschema)
    (selections added : List Selection) (rounds others : List RoundLog) (call : Call) : Prop :=
  ∃ earlier round later before after, rounds = earlier ++ round :: later ∧
    call ∈ callsOf (round :: later) ∧ others = before ++ after ∧
    before.length = earlier.length ∧ ∃ target ∈ round.plan.proxiable, ∃ node,
      Selection.field node ∈ added ∧ merged.HeldAfter sources selections before node target

/-- A target that is held back at once is held back before all calls. -/
theorem HeldBefore.of_first {sources : List Subschema} {selections added : List Selection}
    {round : RoundLog} {later others : List RoundLog} {target : Subschema} {node : Field}
    (htarget : target ∈ round.plan.proxiable) (hadded : .field node ∈ added)
    (hwaits : .field node ∈ selections) (hholds : merged.HoldsBack sources node.name target) :
    ∀ call ∈ callsOf (round :: later),
      merged.HeldBefore sources selections added (round :: later) others call := by
  intro call hcall
  refine ⟨[], round, later, [], others, rfl, hcall, rfl, rfl, target, htarget, node, hadded,
    hwaits, ?_⟩
  rw [sourcesAfter_nil]
  exact hholds

/-- What is held back in later rounds is held back with a round in front. -/
theorem HeldBefore.cons {sources : List Subschema} {selections added : List Selection}
    {rounds others : List RoundLog} {call : Call} (first other : RoundLog)
    (h : merged.HeldBefore (sources ++ other.plan.proxiable) other.plan.waiting added rounds others
      call) :
    merged.HeldBefore sources selections added (first :: rounds) (other :: others) call := by
  obtain ⟨earlier, round, later, before, after, rfl, hcall, rfl, hlength, target, htarget, node,
    hnode, hwaiting, hholds⟩ := h
  refine ⟨first :: earlier, round, later, other :: before, after, rfl, hcall, rfl, ?_, target,
    htarget, node, hnode, hwaiting, ?_⟩
  · rw [List.length_cons, List.length_cons, hlength]
  · rw [sourcesAfter_cons]
    exact hholds

/-- A run with added selections begins with a round that grows, unless one of them holds a target
back. -/
theorem Goes.begins_grown {run grown final : MergeRun} {others : List RoundLog}
    {extra : List Selection} (hbusy : (merged.nextPlan run).delegations ≠ [])
    (hsources : grown.sources = run.sources) (htargets : grown.targets = run.targets)
    (hwaiting : grown.waiting = run.waiting ++ extra)
    (h : merged.Goes grown (.ok final) others) :
    (∃ target ∈ (merged.nextPlan run).proxiable, ∃ node, Selection.field node ∈ extra ∧
        merged.HoldsBack grown.sources node.name target) ∨
      (merged.nextPlan run).Grows extra (merged.nextPlan grown) ∧ ∃ values log later,
        others = ⟨merged.nextPlan grown, log⟩ :: later ∧
          merged.Goes (grown.next (merged.nextPlan grown) values) (.ok final) later := by
  have hplan : merged.nextPlan grown =
      merged.plan (run.waiting ++ extra) run.sources run.targets := by
    unfold nextPlan
    rw [hsources, htargets, hwaiting]
  rw [hsources]
  rcases merged.plan_grows_or_held run.waiting extra run.sources run.targets with hgrows | hheld
  · rw [← hplan] at hgrows
    refine .inr ⟨hgrows, ?_⟩
    cases h with
    | done idle =>
      -- The round without the added selections has a call, and so has this one.
      obtain ⟨call, hcall⟩ := List.exists_mem_of_ne_nil _ hbusy
      obtain ⟨call', hcall', -⟩ := hgrows.asked call hcall
      rw [idle] at hcall'
      exact absurd hcall' List.not_mem_nil
    | next _ _ rest => exact ⟨_, _, _, rfl, rest⟩
  · exact .inl hheld

/-- A run that succeeds with added selections makes every call for as much or more, unless one of
them holds a target back before. -/
theorem Goes.grown {run : MergeRun} {outcome : Except DelegationError MergeRun}
    {rounds : List RoundLog} (h : merged.Goes run outcome rounds) {grown final : MergeRun}
    {others : List RoundLog} (h' : merged.Goes grown (.ok final) others)
    {extra added : List Selection} (hextra : extra ⊆ added)
    (hsources : grown.sources = run.sources) (htargets : grown.targets = run.targets)
    (hwaiting : grown.waiting = run.waiting ++ extra) :
    ∀ call ∈ callsOf rounds, (∃ call' ∈ callsOf others, Call.Grows call call') ∨
      merged.HeldBefore grown.sources grown.waiting added rounds others call := by
  have hwaits : ∀ {run grown : MergeRun} {extra : List Selection} {node : Field},
      grown.waiting = run.waiting ++ extra → .field node ∈ extra → .field node ∈ grown.waiting :=
    fun hwaiting hnode => hwaiting ▸ List.mem_append_right _ hnode
  induction h generalizing grown others extra with
  | done => exact fun call hcall => absurd hcall List.not_mem_nil
  | @failed run _ log busy _ =>
    intro call hcall
    rcases h'.begins_grown busy hsources htargets hwaiting with
      ⟨target, htarget, node, hnode, hholds⟩ | ⟨hgrows, _, _, _, rfl, -⟩
    · exact .inr (.of_first htarget (hextra hnode) (hwaits hwaiting hnode) hholds call hcall)
    · rw [callsOf, List.flatMap_singleton] at hcall
      obtain ⟨call', hcall', hsame⟩ := hgrows.asked call hcall
      exact .inl ⟨call', List.mem_append_left _ hcall', hsame⟩
  | @next run _ log _ rounds busy _ _ ih =>
    intro call hcall
    rcases h'.begins_grown busy hsources htargets hwaiting with
      ⟨target, htarget, node, hnode, hholds⟩ | ⟨hgrows, values, log', later, rfl, hrest⟩
    · exact .inr (.of_first htarget (hextra hnode) (hwaits hwaiting hnode) hholds call hcall)
    · rw [callsOf, List.flatMap_cons] at hcall
      rcases List.mem_append.mp hcall with hcall | hcall
      · obtain ⟨call', hcall', hsame⟩ := hgrows.asked call hcall
        exact .inl ⟨call', List.mem_append_left _ hcall', hsame⟩
      · -- After a round that grows, the runs agree again.
        obtain ⟨extra', hextra', hwaiting'⟩ := hgrows.waiting
        have hsources' : grown.sources ++ (merged.nextPlan grown).proxiable =
            run.sources ++ (merged.nextPlan run).proxiable := by
          rw [hsources, hgrows.proxiable]
        rcases ih hrest (List.Subset.trans hextra' hextra) hsources' hgrows.nonProxiable
          hwaiting' call hcall with ⟨call', hcall', hsame⟩ | hheld
        · exact .inl ⟨call', List.mem_append_right _ hcall', hsame⟩
        · exact .inr (hheld.cons _ _)

/-- A selection is left over at the end of a run, and the target of a subschema's name is left with
it. -/
def LeftWith (merged : MergedType ρ) (final : MergeRun) (subschema : Subschema)
    (selection : Selection) : Prop :=
  selection ∈ final.waiting ∧ ∃ target ∈ final.targets, subschema.is target = true ∧
    ¬ merged.Proxiable final.sources final.waiting target

/-- What a run calls for is called for or left over by any run that succeeds with it from the same
targets. -/
theorem Goes.called_or_left {run : MergeRun} {outcome : Except DelegationError MergeRun}
    {rounds : List RoundLog} (h : merged.Goes run outcome rounds) {other final : MergeRun}
    {others : List RoundLog} (h' : merged.Goes other (.ok final) others)
    (hselections : run.waiting ⊆ other.waiting) (htargets : run.targets ⊆ other.targets)
    {call : Call} (hcall : call ∈ callsOf rounds) {selection : Selection}
    (hselection : selection ∈ call.2) :
    (∃ call' ∈ callsOf others, selection ∈ call'.2) ∨
      merged.LeftWith final call.1 selection := by
  obtain ⟨deal, left, hdeal, -⟩ := h.accounted.dealt
  obtain ⟨hmem, hmeta⟩ := hdeal.mem_of_called hcall hselection
  obtain ⟨deal', left', hdeal', hleft'⟩ := h'.accounted.dealt
  refine (hdeal'.called_or_left (hselections hmem) hmeta).imp_right fun hleft => ?_
  rw [← hleft' final rfl] at hleft
  obtain ⟨node, rfl, hname, owner, howns, howner⟩ :=
    h.forall_mem_calls (fun _ _ _ hcall => forall_called_owned hcall)
      (List.Subset.refl run.targets) call hcall selection hselection
  obtain ⟨target, htarget, his⟩ := List.any_eq_true.mp (h.accounted.targets call hcall)
  have hsame : owner.is target = true := (Subschema.is_congr howner target).trans his
  obtain ⟨hstays, hcannot⟩ := h'.leftover hleft hname howns (htargets htarget) hsame
  exact ⟨hleft, target, hstays, his, hcannot⟩

/-! ## All runs -/

/-- Every selection that is handed over in some rounds is handed over in others, that succeed with
added selections, unless an added field has held back a target no later; then it is left over. -/
def KeepsCalls (merged : MergedType ρ) (sources : List Subschema)
    (selections added : List Selection) (rounds others : List RoundLog) (final : MergeRun) :
    Prop :=
  ∀ call ∈ callsOf rounds, ∀ selection ∈ call.2,
    (∃ call' ∈ callsOf others, selection ∈ call'.2) ∨
      merged.LeftWith final call.1 selection ∧
        merged.HeldBefore sources selections added rounds others call

/-- Requesting more fetches no less, unless a field that is requested besides holds back a target.
When a merge succeeds with added selections, every selection that it hands to a subschema without
them it hands to one with them; or else the selection is left over, the subschema that it was handed
to is not proxiable to the end, and, no later than in its round, a target that is proxiable without
the added selections needs something for one of them, still waiting by then, that the sources do not
contain. -/
theorem merge_more {σ : Type} (merged : MergedType ρ) (resolvers : Resolvers σ)
    (object : FetchedObject) (selections added : List Selection)
    (sources targets : List Subschema) {session session' : Session σ} {final : MergeRun}
    (hrun : runFrom (merged.merge resolvers.ask object (selections ++ added) sources targets)
      session = (.ok final, session')) :
    ∃ outcome ended rounds others,
      runFrom (merged.merge resolvers.askNoting object selections sources targets) (session, []) =
        (outcome, ended, rounds.flatMap RoundLog.events) ∧
      runFrom (merged.merge resolvers.askNoting object (selections ++ added) sources targets)
        (session, []) = (.ok final, session', others.flatMap RoundLog.events) ∧
      merged.Goes { object, waiting := selections, sources, targets } outcome rounds ∧
      merged.Goes { object, waiting := selections ++ added, sources, targets } (.ok final) others ∧
      merged.KeepsCalls sources (selections ++ added) added rounds others final := by
  obtain ⟨outcome, ended, rounds, hgoes, -, hnoting⟩ :=
    merged.mergeWithin_goes resolvers targets.length
      { object, waiting := selections, sources, targets } (Nat.le_refl _) session []
  obtain ⟨outcome', session'', others, hgoes', hplain', hnoting'⟩ :=
    merged.mergeWithin_goes resolvers targets.length
      { object, waiting := selections ++ added, sources, targets } (Nat.le_refl _) session []
  cases hrun.symm.trans hplain'
  refine ⟨outcome, ended, rounds, others, hnoting, hnoting', hgoes, hgoes', ?_⟩
  intro call hcall selection hselection
  refine or_iff_not_imp_left.mpr fun hnone => ?_
  have hleft := hgoes.called_or_left hgoes' (List.subset_append_left _ _)
    (List.Subset.refl targets) hcall hselection
  refine ⟨hleft.resolve_left hnone, ?_⟩
  rcases hgoes.grown hgoes' (List.Subset.refl added) rfl rfl rfl call hcall with
    ⟨call', hcall', -, hprefix⟩ | hheld
  · exact absurd ⟨call', hcall', hprefix.subset hselection⟩ hnone
  · exact hheld

/-- The cost of an order, requested besides its owner, keeps no call from being made. -/
theorem merge_more_cost :
    ∃ final outcome ended rounds others,
      runFrom (parcelType.merge orderResolvers.ask { owner := "orders" }
        ([.field { name := "owner" }] ++ [.field { name := "cost" }]) []
        [orderSubschema "mail" "cost", orderSubschema "people" "owner"])
        { world := () } = (.ok final, { world := () }) ∧
      runFrom (parcelType.merge orderResolvers.askNoting { owner := "orders" }
        [.field { name := "owner" }] []
        [orderSubschema "mail" "cost", orderSubschema "people" "owner"]) ({ world := () }, []) =
        (outcome, ended, rounds.flatMap RoundLog.events) ∧
      parcelType.KeepsCalls [] ([.field { name := "owner" }] ++ [.field { name := "cost" }])
        [.field { name := "cost" }] rounds others final := by
  obtain ⟨final, hrun⟩ : ∃ final,
      runFrom (parcelType.merge orderResolvers.ask { owner := "orders" }
        ([.field { name := "owner" }] ++ [.field { name := "cost" }]) []
        [orderSubschema "mail" "cost", orderSubschema "people" "owner"])
        { world := () } = (.ok final, { world := () }) := ⟨_, rfl⟩
  obtain ⟨outcome, ended, rounds, others, hnoting, -, -, -, hkeeps⟩ :=
    merge_more parcelType orderResolvers _ _ _ _ _ hrun
  exact ⟨final, outcome, ended, rounds, others, hrun, hnoting, hkeeps⟩

end MergedType

/-! ## A field that holds back its siblings -/

namespace Stitching

/-- How users are merged whose shipping needs the weight. -/
def parcelUser : MergedType (TypeResolver Unit) :=
  (Transform.parcelStitching.mergedType? "User").getD {}

/-- The subschema that users come from. -/
def parcelSource : Subschema where
  name := "accounts"
  schema := Transform.parcelSchema "me" ["age"]

/-- The call for the size of a user. -/
def sizeCall : Call :=
  ({ name := "products", schema := Transform.parcelSchema "_user" ["weight", "shipping", "size"] },
    [.field { name := "size" }])

/-- The run that completes a user. -/
def parcelRun (selections : List Selection) : MergeRun :=
  parcelUser.begun { owner := "accounts" } selections parcelSource

/-- Users of these services are merged. -/
theorem mergedType?_parcelUser :
    Transform.parcelStitching.mergedType? "User" = some parcelUser := by
  have hsome : (Transform.parcelStitching.mergedType? "User").isSome = true := by decide +kernel
  obtain ⟨merged, hmerged⟩ := Option.isSome_iff_exists.mp hsome
  unfold parcelUser
  rw [hmerged, Option.getD_some]

/-- The size of a user is fetched when it is requested alone, but not together with shipping, for
which their common owner needs the weight. -/
theorem not_merge_more_shipping :
    ofServices Transform.parcelServices = .ok Transform.parcelStitching ∧
      Transform.parcelStitching.mergedType? "User" = some parcelUser ∧
      (∃ final,
        runFrom (parcelUser.merge (Resolvers.askNoting fun _ _ _ => pure (pure (.leaf .null)))
          { owner := "accounts" } [.field { name := "size" }] [parcelSource]
            (parcelUser.targetsOf parcelSource)) ({ world := () }, []) =
          (.ok final, { world := () }, [.asked sizeCall, .answered sizeCall (.ok (.leaf .null))])) ∧
      runFrom (parcelUser.merge (Resolvers.askNoting fun _ _ _ => pure (pure (.leaf .null)))
        { owner := "accounts" } ([.field { name := "size" }] ++ [.field { name := "shipping" }])
          [parcelSource] (parcelUser.targetsOf parcelSource)) ({ world := () }, []) =
        (.ok (parcelRun ([.field { name := "size" }] ++ [.field { name := "shipping" }])),
          { world := () }, []) := by
  have htargets : (parcelUser.targetsOf parcelSource).length = 0 + 1 := by decide +kernel
  have hcalls : (parcelUser.nextPlan (parcelRun [.field { name := "size" }])).delegations =
      [sizeCall] := by decide +kernel
  have hheld : (parcelUser.nextPlan (parcelRun ([.field { name := "size" }] ++
      [.field { name := "shipping" }]))).delegations = [] := by decide +kernel
  refine ⟨Transform.ofServices_parcelServices, mergedType?_parcelUser, ⟨(parcelRun
    [.field { name := "size" }]).next (parcelUser.nextPlan (parcelRun [.field { name := "size" }]))
      [.leaf .null], ?_⟩, ?_⟩
  · unfold MergedType.merge
    rw [htargets]
    refine (runFrom_mergeWithin_single parcelUser 0 hcalls _ _ _).trans ?_
    rw [MergedType.mergeWithin, runFrom_pure]
    rfl
  · change runFrom (parcelUser.mergeWithin _ _ (parcelRun _)) _ = _
    rw [MergedType.mergeWithin_idle parcelUser _ _ hheld, runFrom_pure]

end Stitching

end Gateway
