import Gateway.Proofs.Language.Nesting
import Gateway.Proofs.Stitching.Containment
import Gateway.Proofs.Stitching.Fates
import Mathlib.Data.List.Pairwise

/-!
# The plan of a round is the intended one

`MergedType.plan` folds over the selections and changes a plan as it goes. `IsPlan` says what the
plan is meant to be, position by position and without the fold: each selection has a fate, which
depends on the owners of its field, on the proxiable targets and on what the selections before it
were asked of; the plan is read off these fates. The folded plan is such a plan (`isPlan_plan`), and
there is no other one.

The fold is followed by reverse induction on the selections, because the fate of a selection depends
on those in front of it. That there is no other plan is the same induction over `Decides.unique`.
-/

namespace Gateway

/-! ## The intended fates -/

namespace MergedType

variable {ρ : Type}

/-- A subschema owns a field: as its only owner, or among its owners when there is no only one. -/
def Owns (merged : MergedType ρ) (owner : Subschema) (field : Name) : Prop :=
  match merged.uniqueFields.get? field with
  | some only => owner = only
  | none => ∃ owners, merged.sharedFields.get? field = some owners ∧ owner ∈ owners

/-- What a target needs of an object, for itself and for the fields that are requested, is
contained in the sources. -/
structure Proxiable (merged : MergedType ρ) (sources : List Subschema)
    (selections : List Selection) (target : Subschema) : Prop where
  /-- What it needs for itself. -/
  type : ∀ needed, merged.selections.get? target.name = some needed →
    merged.Contains sources needed
  /-- What it needs for a requested field. -/
  field : ∀ node, Selection.field node ∈ selections → ∀ needs,
    merged.fieldSelections.get? target.name = some needs → ∀ needed,
      needs.get? node.name = some needed → merged.Contains sources needed

/-- The fate of a selection behind others, given the proxiable targets. -/
inductive Decides (merged : MergedType ρ) (proxiable : List Subschema) (earlier : Fates) :
    Selection → Fate → Prop
  /-- The meta field is left out. -/
  | typename {node : Field} (named : node.name = typenameField) :
    Decides merged proxiable earlier (.field node) .dropped
  /-- A spread waits. -/
  | spread {fragment : Name} {directives : List Directive} :
    Decides merged proxiable earlier (.spread fragment directives) .waiting
  /-- An inline fragment waits. -/
  | inline {condition : Option Name} {directives : List Directive}
    {selections : List Selection} :
    Decides merged proxiable earlier (.inline condition directives selections) .waiting
  /-- A field waits when none of its owners is proxiable. -/
  | unowned {node : Field} (named : node.name ≠ typenameField)
    (none : ∀ owner, merged.Owns owner node.name → owner.isAmong proxiable = false) :
    Decides merged proxiable earlier (.field node) .waiting
  /-- A field is asked of its only owner. -/
  | only {node : Field} {owner : Subschema} (named : node.name ≠ typenameField)
    (owned : merged.uniqueFields.get? node.name = some owner)
    (can : owner.isAmong proxiable = true) :
    Decides merged proxiable earlier (.field node) (.asked owner)
  /-- A field of several owners is asked of the first proxiable one that is asked already. -/
  | again {node : Field} {owner : Subschema} {owners : List Subschema}
    (named : node.name ≠ typenameField) (shared : merged.uniqueFields.get? node.name = none)
    (owned : merged.sharedFields.get? node.name = some owners)
    (can : owners.find? (fun other => other.isAmong proxiable && earlier.asks other) =
      some owner) :
    Decides merged proxiable earlier (.field node) (.asked owner)
  /-- Or else it is asked of the first proxiable one. -/
  | first {node : Field} {owner : Subschema} {owners : List Subschema}
    (named : node.name ≠ typenameField) (shared : merged.uniqueFields.get? node.name = none)
    (owned : merged.sharedFields.get? node.name = some owners)
    (fresh : ∀ other ∈ owners, other.isAmong proxiable = true → earlier.asks other = false)
    (can : owners.find? (fun other => other.isAmong proxiable) = some owner) :
    Decides merged proxiable earlier (.field node) (.asked owner)

/-- The fates of selections, each decided behind those in front of it. -/
def Follows (merged : MergedType ρ) (proxiable : List Subschema) (fates : Fates) : Prop :=
  ∀ earlier selection fate later, fates = earlier ++ (selection, fate) :: later →
    merged.Decides proxiable earlier selection fate

end MergedType

namespace MergedType

variable {ρ : Type}

/-! ## The choice of an owner -/

/-- The check of a target decides whether it is proxiable. -/
theorem isProxiable_iff (merged : MergedType ρ) (sources : List Subschema)
    (selections : List Selection) (target : Subschema) :
    merged.isProxiable sources selections target = true ↔
      merged.Proxiable sources selections target := by
  have htype : merged.typeNeedsMet sources target = true ↔
      ∀ needed, merged.selections.get? target.name = some needed →
        merged.Contains sources needed := by
    unfold typeNeedsMet
    cases merged.selections.get? target.name with
    | none => simp
    | some needed => simp [sourcesContain_iff]
  have hfield : merged.fieldNeedsMet sources selections target = true ↔
      ∀ node, Selection.field node ∈ selections → ∀ needs,
        merged.fieldSelections.get? target.name = some needs → ∀ needed,
          needs.get? node.name = some needed → merged.Contains sources needed := by
    unfold fieldNeedsMet
    cases merged.fieldSelections.get? target.name with
    | none => simp
    | some needs =>
      simp only [List.all_eq_true, mem_directFields, Option.some.injEq, forall_eq']
      refine forall_congr' fun node => imp_congr_right fun _ => ?_
      cases needs.get? node.name with
      | none => simp
      | some needed => simp [sourcesContain_iff]
  unfold isProxiable
  rw [Bool.and_eq_true, htype, hfield]
  exact ⟨fun h => ⟨h.1, h.2⟩, fun h => ⟨h.type, h.field⟩⟩

/-- Whether a target is proxiable can be decided. -/
instance (merged : MergedType ρ) (sources : List Subschema) (selections : List Selection)
    (target : Subschema) : Decidable (merged.Proxiable sources selections target) :=
  decidable_of_iff _ (merged.isProxiable_iff sources selections target)

/-- The choice of an owner decides the fate of a field. -/
theorem choose?_decides (merged : MergedType ρ) (plan : Plan) (fates : Fates) (node : Field)
    (hasks : ∀ subschema, plan.asks subschema = fates.asks subschema)
    (hnamed : node.name ≠ typenameField) :
    merged.Decides plan.proxiable fates (.field node)
      (match merged.choose? plan node.name with
        | some owner => .asked owner
        | none => .waiting) := by
  have hasks' : plan.asks = fates.asks := funext hasks
  unfold choose?
  -- The cases are those of `Decides`: an only owner, then the first of several that is asked
  -- already, then the first one.
  cases hunique : merged.uniqueFields.get? node.name with
  | some owner =>
    cases hcan : owner.isAmong plan.proxiable with
    | true =>
      simp only [hcan, if_true]
      exact .only hnamed hunique hcan
    | false =>
      simp only [hcan, Bool.false_eq_true, if_false]
      refine .unowned hnamed fun other hother => ?_
      unfold Owns at hother
      rw [hunique] at hother
      rw [hother]
      exact hcan
  | none =>
    cases hshared : merged.sharedFields.get? node.name with
    | none =>
      simp only [Option.getD_none, List.filter_nil, List.find?_nil, List.head?_nil, Option.or_none]
      refine .unowned hnamed fun other hother => ?_
      unfold Owns at hother
      rw [hunique] at hother
      obtain ⟨owners, howners, -⟩ := hother
      rw [hshared] at howners
      exact absurd howners (by simp)
    | some owners =>
      simp only [Option.getD_some, List.find?_filter, List.head?_filter, hasks']
      cases hagain : owners.find? fun other =>
          decide (other.isAmong plan.proxiable = true ∧ fates.asks other = true) with
      | some owner =>
        refine .again hnamed hunique hshared ?_
        simp only [Bool.decide_and, Bool.decide_eq_true] at hagain
        exact hagain
      | none =>
        rw [Option.none_or]
        cases hfirst : owners.find? fun other => other.isAmong plan.proxiable with
        | some owner =>
          refine .first hnamed hunique hshared ?_ hfirst
          intro other hother hcan
          have hnot := List.find?_eq_none.mp hagain other hother
          rw [decide_eq_true_eq, not_and, Bool.not_eq_true] at hnot
          exact hnot hcan
        | none =>
          refine .unowned hnamed fun other hother => ?_
          unfold Owns at hother
          rw [hunique] at hother
          obtain ⟨owners', howners, hmem⟩ := hother
          rw [hshared, Option.some.injEq] at howners
          rw [← howners] at hmem
          exact Bool.eq_false_iff.mpr (List.find?_eq_none.mp hfirst other hmem)

/-- A field is asked only of a proxiable owner. -/
theorem Decides.asked_owner {merged : MergedType ρ} {proxiable : List Subschema} {earlier : Fates}
    {selection : Selection} {owner : Subschema}
    (h : merged.Decides proxiable earlier selection (.asked owner)) :
    ∃ node : Field, selection = .field node ∧ node.name ≠ typenameField ∧
      merged.Owns owner node.name ∧ owner.isAmong proxiable = true := by
  cases h with
  | @only node _ named owned can =>
    refine ⟨node, rfl, named, ?_, can⟩
    unfold Owns
    rw [owned]
  | @again node _ owners named shared owned can =>
    have hcan := List.find?_some can
    rw [Bool.and_eq_true] at hcan
    refine ⟨node, rfl, named, ?_, hcan.1⟩
    unfold Owns
    rw [shared]
    exact ⟨owners, owned, List.mem_of_find?_eq_some can⟩
  | @first node _ owners named shared owned _ can =>
    have hcan := List.find?_some can
    refine ⟨node, rfl, named, ?_, hcan⟩
    unfold Owns
    rw [shared]
    exact ⟨owners, owned, List.mem_of_find?_eq_some can⟩

/-- A field without proxiable owner is not asked. -/
theorem Decides.not_asked {merged : MergedType ρ} {proxiable : List Subschema} {earlier : Fates}
    {node : Field} {owner : Subschema}
    (none : ∀ owner, merged.Owns owner node.name → owner.isAmong proxiable = false) :
    ¬ merged.Decides proxiable earlier (.field node) (.asked owner) := by
  intro h
  obtain ⟨_, ⟨rfl⟩, -, howns, hcan⟩ := h.asked_owner
  rw [none owner howns] at hcan
  exact Bool.false_ne_true hcan

/-- Two subschemas that a field is asked of are the same. -/
theorem Decides.asked_unique {merged : MergedType ρ} {proxiable : List Subschema}
    {earlier : Fates} {selection : Selection} {owner owner' : Subschema}
    (h : merged.Decides proxiable earlier selection (.asked owner))
    (h' : merged.Decides proxiable earlier selection (.asked owner')) : owner = owner' := by
  cases h with
  | only _ owned _ =>
    cases h' with
    | only _ owned' _ => exact Option.some.inj (owned.symm.trans owned')
    | again _ shared' _ _ => exact absurd (owned.symm.trans shared') (by simp)
    | first _ shared' _ _ _ => exact absurd (owned.symm.trans shared') (by simp)
  | again _ shared owned can =>
    cases h' with
    | only _ owned' _ => exact absurd (shared.symm.trans owned') (by simp)
    | again _ _ owned' can' =>
      cases owned.symm.trans owned'
      exact Option.some.inj (can.symm.trans can')
    | first _ _ owned' fresh' _ =>
      -- The first owner that is asked already is no fresh one.
      cases owned.symm.trans owned'
      have hcan := List.find?_some can
      rw [Bool.and_eq_true] at hcan
      have hnot := fresh' owner (List.mem_of_find?_eq_some can) hcan.1
      exact absurd (hnot.symm.trans hcan.2) Bool.false_ne_true
  | first _ shared owned fresh can =>
    cases h' with
    | only _ owned' _ => exact absurd (shared.symm.trans owned') (by simp)
    | again _ _ owned' can' =>
      cases owned.symm.trans owned'
      have hcan := List.find?_some can'
      rw [Bool.and_eq_true] at hcan
      have hnot := fresh owner' (List.mem_of_find?_eq_some can') hcan.1
      exact absurd (hnot.symm.trans hcan.2) Bool.false_ne_true
    | first _ _ owned' _ can' =>
      cases owned.symm.trans owned'
      exact Option.some.inj (can.symm.trans can')

/-- Only the meta field is dropped. -/
theorem Decides.dropped_iff {merged : MergedType ρ} {proxiable : List Subschema}
    {earlier : Fates} {selection : Selection} {fate : Fate}
    (h : merged.Decides proxiable earlier selection fate) :
    fate = .dropped ↔ ∃ node : Field, selection = .field node ∧ node.name = typenameField := by
  cases h with
  | typename named => exact iff_of_true rfl ⟨_, rfl, named⟩
  | spread => simp
  | inline => simp
  | unowned named => simp [named]
  | only named => simp [named]
  | again named => simp [named]
  | first named => simp [named]

/-- A selection has one fate behind the same others. -/
theorem Decides.unique {merged : MergedType ρ} {proxiable : List Subschema} {earlier : Fates}
    {selection : Selection} {fate fate' : Fate}
    (h : merged.Decides proxiable earlier selection fate)
    (h' : merged.Decides proxiable earlier selection fate') : fate = fate' := by
  have hdropped := h.dropped_iff.trans h'.dropped_iff.symm
  cases fate with
  | dropped => exact (hdropped.mp rfl).symm
  | asked owner =>
    cases fate' with
    | dropped => exact hdropped.mpr rfl
    | asked owner' => rw [h.asked_unique h']
    | waiting =>
      cases h' with
      | spread => cases h
      | inline => cases h
      | unowned _ none => exact absurd h (Decides.not_asked none)
  | waiting =>
    cases fate' with
    | dropped => exact hdropped.mpr rfl
    | waiting => rfl
    | asked owner' =>
      cases h with
      | spread => cases h'
      | inline => cases h'
      | unowned _ none => exact absurd h' (Decides.not_asked none)

/-! ## The fold -/

/-- Fates are decided one behind the other. -/
theorem follows_concat {merged : MergedType ρ} {proxiable : List Subschema} {fates : Fates}
    {selection : Selection} {fate : Fate} :
    merged.Follows proxiable (fates ++ [(selection, fate)]) ↔
      merged.Follows proxiable fates ∧ merged.Decides proxiable fates selection fate := by
  constructor
  · intro h
    refine ⟨?_, h fates selection fate [] rfl⟩
    intro earlier other its later heq
    refine h earlier other its (later ++ [(selection, fate)]) ?_
    rw [heq, List.append_assoc, List.cons_append]
  · rintro ⟨hfates, hlast⟩ earlier other its later heq
    rcases List.eq_nil_or_concat later with rfl | ⟨later, last, rfl⟩
    · obtain ⟨rfl, hsame⟩ := List.append_inj' heq rfl
      cases hsame
      exact hlast
    · rw [List.concat_eq_append, ← List.cons_append, ← List.append_assoc] at heq
      obtain ⟨hinit, -⟩ := List.append_inj' heq rfl
      exact hfates earlier other its later hinit

/-- Selections have one list of fates. -/
theorem Follows.unique {merged : MergedType ρ} {proxiable : List Subschema} {fates : Fates} :
    ∀ {fates' : Fates}, merged.Follows proxiable fates → merged.Follows proxiable fates' →
      fates.map Prod.fst = fates'.map Prod.fst → fates = fates' := by
  induction fates using List.reverseRecOn with
  | nil =>
    intro fates' _ _ hsame
    rw [List.map_nil] at hsame
    exact (List.map_eq_nil_iff.mp hsame.symm).symm
  | append_singleton fates hand ih =>
    obtain ⟨selection, fate⟩ := hand
    intro fates' h h' hsame
    rcases List.eq_nil_or_concat fates' with rfl | ⟨init, ⟨selection', fate'⟩, rfl⟩
    · simp at hsame
    · rw [List.concat_eq_append] at h' hsame ⊢
      rw [List.map_append, List.map_append] at hsame
      obtain ⟨hinit, hlast⟩ := List.append_inj' hsame rfl
      cases hlast
      obtain ⟨hfates, hfate⟩ := follows_concat.mp h
      obtain ⟨hfates', hfate'⟩ := follows_concat.mp h'
      cases ih hfates hfates' hinit
      rw [hfate.unique hfate']

/-- A plan shows what has become of selections: what waits and what is asked. -/
structure Shows (plan : Plan) (fates : Fates) : Prop where
  /-- What waits. -/
  waiting : plan.waiting = fates.waiting
  /-- What is asked. -/
  delegations : plan.delegations = fates.delegations

/-- A plan that shows fates asks whom they ask. -/
theorem Shows.asks {plan : Plan} {fates : Fates} (h : Shows plan fates) (subschema : Subschema) :
    plan.asks subschema = fates.asks subschema := by
  unfold Plan.asks
  rw [h.delegations, ← Fates.any_owners]
  unfold Fates.delegations
  rw [List.any_map]
  rfl

/-- Routing a selection gives it its fate. -/
theorem route_shows (merged : MergedType ρ) {plan : Plan} {fates : Fates}
    (h : Shows plan fates) (selection : Selection) :
    ∃ fate, merged.Decides plan.proxiable fates selection fate ∧
      Shows (merged.route plan selection) (fates ++ [(selection, fate)]) ∧
      (merged.route plan selection).proxiable = plan.proxiable ∧
      (merged.route plan selection).nonProxiable = plan.nonProxiable := by
  -- Fragments wait, and so do fields without a proxiable owner.
  have hwait : Shows (plan.wait selection) (fates ++ [(selection, .waiting)]) := by
    constructor
    · rw [Fates.waiting_concat, ← h.waiting]
      rfl
    · rw [Fates.delegations_concat_unasked _ _ rfl]
      exact h.delegations
  cases selection with
  | spread fragment directives => exact ⟨.waiting, .spread, hwait, rfl, rfl⟩
  | inline condition directives selections => exact ⟨.waiting, .inline, hwait, rfl, rfl⟩
  | field node =>
    by_cases hnamed : node.name = typenameField
    · have hroute : merged.route plan (.field node) = plan := if_pos hnamed
      rw [hroute]
      refine ⟨.dropped, .typename hnamed, ⟨?_, ?_⟩, rfl, rfl⟩
      · rw [Fates.waiting_concat]
        exact h.waiting.trans (List.append_nil _).symm
      · rw [Fates.delegations_concat_unasked _ _ rfl]
        exact h.delegations
    · have hroute : merged.route plan (.field node) =
          match merged.choose? plan node.name with
          | some owner => plan.delegate owner (.field node)
          | none => plan.wait (.field node) := if_neg hnamed
      have hdecides := merged.choose?_decides plan fates node h.asks hnamed
      rw [hroute]
      cases hchoice : merged.choose? plan node.name with
      | none =>
        rw [hchoice] at hdecides
        exact ⟨.waiting, hdecides, hwait, rfl, rfl⟩
      | some owner =>
        rw [hchoice] at hdecides
        refine ⟨.asked owner, hdecides, ⟨?_, ?_⟩, rfl, rfl⟩
        · rw [Fates.waiting_concat]
          exact h.waiting.trans (List.append_nil _).symm
        · rw [Fates.delegations_concat_asked, ← h.delegations]
          rfl

/-- Routing selections one after another gives each its fate. -/
theorem foldl_route_shows (merged : MergedType ρ) (start : Plan) (hstart : Shows start [])
    (selections : List Selection) :
    ∃ fates : Fates, fates.map Prod.fst = selections ∧
      merged.Follows start.proxiable fates ∧
      Shows (selections.foldl merged.route start) fates ∧
      (selections.foldl merged.route start).proxiable = start.proxiable ∧
      (selections.foldl merged.route start).nonProxiable = start.nonProxiable := by
  induction selections using List.reverseRecOn with
  | nil =>
    refine ⟨[], rfl, ?_, hstart, rfl, rfl⟩
    intro earlier selection fate later heq
    exact absurd heq (by simp)
  | append_singleton selections last ih =>
    obtain ⟨fates, hsame, hfollows, hshows, hcan, hcannot⟩ := ih
    obtain ⟨fate, hdecides, hlast, hcan', hcannot'⟩ := merged.route_shows hshows last
    rw [hcan] at hdecides
    refine ⟨fates ++ [(last, fate)], ?_, follows_concat.mpr ⟨hfollows, hdecides⟩, ?_⟩
    · rw [List.map_append, hsame]
      rfl
    · rw [List.foldl_append]
      exact ⟨hlast, hcan'.trans hcan, hcannot'.trans hcannot⟩

/-- The plan that is meant for selections, sources and targets. -/
structure IsPlan (merged : MergedType ρ) (selections : List Selection)
    (sources targets : List Subschema) (plan : Plan) : Prop where
  /-- The proxiable targets in order. -/
  proxiable : plan.proxiable = targets.filter (merged.Proxiable sources selections ·)
  /-- The other targets in order. -/
  nonProxiable : plan.nonProxiable = targets.filter (¬ merged.Proxiable sources selections ·)
  /-- What waits and what is asked, by the fates of the selections. -/
  fates : ∃ fates : Fates, fates.map Prod.fst = selections ∧
    merged.Follows plan.proxiable fates ∧ Shows plan fates

/-- The fold makes the plan that is meant. -/
theorem isPlan_plan (merged : MergedType ρ) (selections : List Selection)
    (sources targets : List Subschema) :
    merged.IsPlan selections sources targets (merged.plan selections sources targets) := by
  have hcheck : ∀ target, merged.isProxiable sources selections target =
      decide (merged.Proxiable sources selections target) := by
    intro target
    rw [Bool.eq_iff_iff, decide_eq_true_iff]
    exact merged.isProxiable_iff sources selections target
  unfold plan
  obtain ⟨fates, hsame, hfollows, hshows, hcan, hcannot⟩ := merged.foldl_route_shows
    { proxiable := targets.filter (merged.isProxiable sources selections)
      nonProxiable := targets.filter fun target =>
        !merged.isProxiable sources selections target } ⟨rfl, rfl⟩ selections
  refine ⟨?_, ?_, fates, hsame, ?_, hshows⟩
  · rw [hcan]
    exact List.filter_congr fun target _ => hcheck target
  · rw [hcannot]
    refine List.filter_congr fun target _ => ?_
    rw [hcheck, decide_not]
  · rw [hcan]
    exact hfollows

/-- A plan is the one that is made for selections, sources and targets exactly when it is the one
that is meant: the proxiable targets and the others in order, each field asked of a proxiable owner,
of one that is asked already if there is a choice, and what has none left for a later round. -/
theorem eq_plan_iff_isPlan (merged : MergedType ρ) (selections : List Selection)
    (sources targets : List Subschema) (plan : Plan) :
    plan = merged.plan selections sources targets ↔
      merged.IsPlan selections sources targets plan := by
  constructor
  · rintro rfl
    exact merged.isPlan_plan selections sources targets
  · intro h
    have hmade := merged.isPlan_plan selections sources targets
    have hcan : plan.proxiable = (merged.plan selections sources targets).proxiable :=
      h.proxiable.trans hmade.proxiable.symm
    have hcannot : plan.nonProxiable = (merged.plan selections sources targets).nonProxiable :=
      h.nonProxiable.trans hmade.nonProxiable.symm
    obtain ⟨fates, hsame, hfollows, hshows⟩ := h.fates
    obtain ⟨fates', hsame', hfollows', hshows'⟩ := hmade.fates
    -- With the same proxiable targets the selections have the same fates.
    rw [hcan] at hfollows
    cases hfollows.unique hfollows' (hsame.trans hsame'.symm)
    have hdelegations := hshows.delegations.trans hshows'.delegations.symm
    have hwaiting := hshows.waiting.trans hshows'.waiting.symm
    cases plan
    simp only at hcan hcannot hdelegations hwaiting
    rw [hcan, hcannot, hdelegations, hwaiting]

end MergedType

end Gateway
