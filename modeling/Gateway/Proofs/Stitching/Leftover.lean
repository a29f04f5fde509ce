import Gateway.Proofs.Stitching.Lossless

/-!
# What is left over could not be fetched

A run ends when its plan has nothing to call. A field that waits has no proxiable owner, in the last
round as in all rounds before (`not_isAmong_proxiable_of_waiting`), so no round has used up an owner
of a field that is left over: its owners are still among the targets, and none of them is proxiable
(`Goes.leftover`, by induction on the rounds).
-/

namespace Gateway

namespace MergedType

variable {ρ : Type} {merged : MergedType ρ}

/-- A plan lets only some of its selections wait. -/
theorem mem_of_mem_waiting {selections : List Selection} {sources targets : List Subschema}
    {selection : Selection}
    (h : selection ∈ (merged.plan selections sources targets).waiting) :
    selection ∈ selections := by
  obtain ⟨fates, hsame, -, hshows⟩ := (merged.isPlan_plan selections sources targets).fates
  rw [hshows.waiting] at h
  obtain ⟨hand, hhand, rfl⟩ := List.mem_map.mp h
  rw [← hsame]
  exact List.mem_map_of_mem (List.mem_filter.mp hhand).1

/-- A field that waits has no proxiable owner. -/
theorem not_isAmong_proxiable_of_waiting {selections : List Selection}
    {sources targets : List Subschema} {node : Field}
    (h : Selection.field node ∈ (merged.plan selections sources targets).waiting)
    {owner : Subschema} (howns : merged.Owns owner node.name) :
    owner.isAmong (merged.plan selections sources targets).proxiable = false := by
  obtain ⟨fates, -, hfollows, hshows⟩ := (merged.isPlan_plan selections sources targets).fates
  rw [hshows.waiting] at h
  obtain ⟨⟨selection, fate⟩, hhand, heq⟩ := List.mem_map.mp h
  obtain ⟨hmem, hwaits⟩ := List.mem_filter.mp hhand
  obtain ⟨earlier, hdecides⟩ := hfollows.decides hmem
  cases fate with
  | dropped => exact absurd hwaits (by simp [Fate.isWaiting])
  | asked owner => exact absurd hwaits (by simp [Fate.isWaiting])
  | waiting =>
    dsimp only at heq hdecides
    rw [heq] at hdecides
    cases hdecides with
    | unowned _ none => exact none owner howns

/-- When there is nothing to call, every field but the meta field waits. -/
theorem mem_waiting_of_idle {selections : List Selection} {sources targets : List Subschema}
    (hidle : (merged.plan selections sources targets).delegations = []) {node : Field}
    (hmem : Selection.field node ∈ selections) (hname : node.name ≠ typenameField) :
    Selection.field node ∈ (merged.plan selections sources targets).waiting := by
  obtain ⟨deal, hdeal⟩ := merged.plan_deals selections sources targets
  rw [hidle] at hdeal
  rcases hdeal.called_or_left hmem (by simp [Selection.isTypename, hname]) with
    ⟨call, hcall, -⟩ | hleft
  · exact absurd hcall List.not_mem_nil
  · exact hleft

/-- A target that is the same one as an owner of a waiting field is not proxiable and stays a
target. -/
theorem mem_nonProxiable_of_waiting {selections : List Selection}
    {sources targets : List Subschema} {node : Field}
    (h : Selection.field node ∈ (merged.plan selections sources targets).waiting)
    {owner target : Subschema} (howns : merged.Owns owner node.name) (htarget : target ∈ targets)
    (his : owner.is target = true) :
    target ∈ (merged.plan selections sources targets).nonProxiable ∧
      ¬ merged.Proxiable sources selections target := by
  have hplan := merged.isPlan_plan selections sources targets
  have hnone := not_isAmong_proxiable_of_waiting h howns
  have hcannot : ¬ merged.Proxiable sources selections target := by
    intro hcan
    have hmem : target ∈ (merged.plan selections sources targets).proxiable := by
      rw [hplan.proxiable, List.mem_filter]
      exact ⟨htarget, decide_eq_true hcan⟩
    exact absurd (List.any_eq_true.mpr ⟨target, hmem, his⟩) (Bool.eq_false_iff.mp hnone)
  refine ⟨?_, hcannot⟩
  rw [hplan.nonProxiable, List.mem_filter]
  exact ⟨htarget, decide_eq_true hcannot⟩

/-- What waits at the end of a run was there at its start. -/
theorem Goes.mem_waiting {run final : MergeRun} {rounds : List RoundLog}
    (h : merged.Goes run (.ok final) rounds) {selection : Selection}
    (hmem : selection ∈ final.waiting) : selection ∈ run.waiting := by
  obtain ⟨outcome, houtcome⟩ : ∃ outcome, outcome =
      (Except.ok final : Except DelegationError MergeRun) := ⟨_, rfl⟩
  rw [← houtcome] at h
  induction h with
  | done =>
    cases houtcome
    exact hmem
  | failed => exact absurd houtcome (by simp)
  | next _ _ _ ih => exact mem_of_mem_waiting (ih houtcome)

/-- The owners of a field that a run leaves over are still targets, if they ever were, and none of
them is proxiable. -/
theorem Goes.leftover {run final : MergeRun} {rounds : List RoundLog}
    (h : merged.Goes run (.ok final) rounds) {node : Field}
    (hmem : Selection.field node ∈ final.waiting) (hname : node.name ≠ typenameField)
    {owner target : Subschema} (howns : merged.Owns owner node.name)
    (htarget : target ∈ run.targets) (his : owner.is target = true) :
    target ∈ final.targets ∧ ¬ merged.Proxiable final.sources final.waiting target := by
  obtain ⟨outcome, houtcome⟩ : ∃ outcome, outcome =
      (Except.ok final : Except DelegationError MergeRun) := ⟨_, rfl⟩
  rw [← houtcome] at h
  induction h with
  | done idle =>
    cases houtcome
    exact ⟨htarget, (mem_nonProxiable_of_waiting (mem_waiting_of_idle idle hmem hname) howns htarget
      his).2⟩
  | failed => exact absurd houtcome (by simp)
  | @next run values _ _ _ _ _ rest ih =>
    -- What is left over in the end waits in this round, so the round does not use up its owners.
    have hwaits : Selection.field node ∈ (merged.nextPlan run).waiting := by
      rw [houtcome] at rest
      exact rest.mem_waiting hmem
    exact ih (mem_nonProxiable_of_waiting hwaits howns htarget his).1 houtcome

/-- When a merge ends with a field left over, nothing more could be fetched of it: every target that
owns the field, alone or with others, is a target to the end, and it is not proxiable for the final
sources and for what is left over. The meta field is not fetched at all; nobody owns it in a merged
type that is derived from services (`Stitching.not_owns_typename`). -/
theorem merge_leftover {σ : Type} (merged : MergedType ρ) (resolvers : Resolvers σ)
    (object : FetchedObject) (selections : List Selection) (sources targets : List Subschema)
    {session session' : Session σ} {final : MergeRun}
    (hrun : runFrom (merged.merge resolvers.ask object selections sources targets) session =
      (.ok final, session'))
    {node : Field} (hleft : Selection.field node ∈ final.waiting)
    (hname : node.name ≠ typenameField) {owner : Subschema}
    (howns : merged.Owns owner node.name) {target : Subschema} (htarget : target ∈ targets)
    (his : owner.is target = true) :
    target ∈ final.targets ∧ ¬ merged.Proxiable final.sources final.waiting target := by
  obtain ⟨outcome, session'', rounds, hgoes, hplain, -⟩ :=
    merged.mergeWithin_goes resolvers targets.length
      { object, waiting := selections, sources, targets } (Nat.le_refl _) session []
  cases hrun.symm.trans hplain
  exact hgoes.leftover hleft hname howns htarget his

/-- Orders with an owner that anyone can ask for, and a cost that depends on a weight. -/
def parcelType : MergedType Unit where
  typeName? := some "Order"
  uniqueFields := [("owner", orderSubschema "people" "owner")]
  sharedFields := [("cost", [orderSubschema "shipping" "cost", orderSubschema "mail" "cost"])]
  selections := [("shipping", [.field { name := "weight" }]),
    ("mail", [.field { name := "weight" }])]

/-- The owner of an order is fetched, but its cost is left over, because nobody has its weight. -/
theorem merge_leftover_cost :
    ∃ final,
      runFrom (parcelType.merge orderResolvers.ask { owner := "orders" }
        [.field { name := "cost" }, .field { name := "owner" }] []
        [orderSubschema "mail" "cost", orderSubschema "people" "owner"])
        { world := () } = (.ok final, { world := () }) ∧
      final.waiting = [.field { name := "cost" }] ∧
      parcelType.Owns (orderSubschema "mail" "cost") "cost" ∧
      orderSubschema "mail" "cost" ∈ final.targets ∧
      ¬ parcelType.Proxiable final.sources final.waiting (orderSubschema "mail" "cost") := by
  have howns : parcelType.Owns (orderSubschema "mail" "cost") "cost" :=
    ⟨_, rfl, List.mem_cons_of_mem _ List.mem_cons_self⟩
  obtain ⟨final, hrun, hwaiting⟩ : ∃ final,
      runFrom (parcelType.merge orderResolvers.ask { owner := "orders" }
        [.field { name := "cost" }, .field { name := "owner" }] []
        [orderSubschema "mail" "cost", orderSubschema "people" "owner"])
        { world := () } = (.ok final, { world := () }) ∧
      final.waiting = [.field { name := "cost" }] := ⟨_, rfl, rfl⟩
  have hleft : Selection.field { name := "cost" } ∈ final.waiting := by
    rw [hwaiting]
    exact List.mem_cons_self
  exact ⟨final, hrun, hwaiting, howns, merge_leftover parcelType orderResolvers _ _ _ _ hrun hleft
    (by decide) howns List.mem_cons_self rfl⟩

end MergedType

end Gateway
