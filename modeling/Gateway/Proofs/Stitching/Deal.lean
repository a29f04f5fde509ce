import Gateway.Proofs.Stitching.Plan

/-!
# How selections are dealt out

A round deals selections to calls of resolvers and leaves the others. `Deals` is this without
rounds: a list of all selections but the meta field, in order, each labelled with the subschema
that it goes to or with none. A selection has one label, so it goes to one subschema or is left; a
call gets what has its label in the order of the list.

A plan is read off the fates of its selections, and these fates are such labels (`plan_deals`).
Dealing out what a deal leaves is a deal of all (`Deals.relay`), so deals go through any number of
rounds as long as their calls are of different subschemas.
-/

namespace Gateway

/-- A call of a resolver: the subschema that is asked and the selections that it is asked for. -/
abbrev Call := Subschema × List Selection

/-! ## The calls of a plan -/

namespace MergedType

variable {ρ : Type} {merged : MergedType ρ}

/-- Each of the fates is decided behind some others. -/
theorem Follows.decides {proxiable : List Subschema} {fates : Fates}
    (h : merged.Follows proxiable fates) {hand : Selection × Fate} (hmem : hand ∈ fates) :
    ∃ earlier, merged.Decides proxiable earlier hand.1 hand.2 := by
  obtain ⟨earlier, later, hsplit⟩ := List.append_of_mem hmem
  exact ⟨earlier, h earlier hand.1 hand.2 later hsplit⟩

/-- A subschema that is called owns a field, and it is a proxiable target. -/
theorem exists_owns_of_mem {selections : List Selection} {sources targets : List Subschema}
    {call : Call} (h : call ∈ (merged.plan selections sources targets).delegations) :
    ∃ field, merged.Owns call.1 field ∧
      call.1.isAmong (merged.plan selections sources targets).proxiable = true := by
  obtain ⟨fates, -, hfollows, hshows⟩ := (merged.isPlan_plan selections sources targets).fates
  rw [hshows.delegations] at h
  obtain ⟨owner, howner, rfl⟩ := List.mem_map.mp h
  obtain ⟨selection, hmem⟩ := Fates.exists_of_mem_owners howner
  obtain ⟨earlier, hdecides⟩ := hfollows.decides hmem
  obtain ⟨node, -, -, howns, hcan⟩ := hdecides.asked_owner
  exact ⟨node.name, howns, hcan⟩

/-- What a subschema is called for are fields that a subschema of its name owns. -/
theorem forall_called_owned {selections : List Selection} {sources targets : List Subschema}
    {call : Call} (h : call ∈ (merged.plan selections sources targets).delegations) :
    ∀ selection ∈ call.2, ∃ node : Field, selection = .field node ∧ node.name ≠ typenameField ∧
      ∃ owner, merged.Owns owner node.name ∧ owner.is call.1 = true := by
  intro selection hselection
  obtain ⟨fates, -, hfollows, hshows⟩ := (merged.isPlan_plan selections sources targets).fates
  rw [hshows.delegations] at h
  obtain ⟨called, -, rfl⟩ := List.mem_map.mp h
  obtain ⟨⟨_, fate⟩, hhand, rfl⟩ := List.mem_map.mp hselection
  obtain ⟨hmem, hasked⟩ := List.mem_filter.mp hhand
  obtain ⟨earlier, hdecides⟩ := hfollows.decides hmem
  cases fate with
  | dropped => exact absurd hasked Bool.false_ne_true
  | waiting => exact absurd hasked Bool.false_ne_true
  | asked owner =>
    obtain ⟨node, rfl, hname, howns, -⟩ := hdecides.asked_owner
    exact ⟨node, rfl, hname, owner, howns, hasked⟩

/-- No subschema is called twice in a round. -/
theorem pairwise_delegations (selections : List Selection) (sources targets : List Subschema) :
    (merged.plan selections sources targets).delegations.Pairwise
      fun call call' => call.1.name ≠ call'.1.name := by
  obtain ⟨fates, -, -, hshows⟩ := (merged.isPlan_plan selections sources targets).fates
  rw [hshows.delegations]
  unfold Fates.delegations
  rw [List.pairwise_map]
  refine fates.owners_pairwise.imp fun hdistinct hname => ?_
  unfold Subschema.is at hdistinct
  exact of_decide_eq_false hdistinct hname

/-- Whether a target is proxiable depends only on its name. -/
theorem Proxiable.congr {sources : List Subschema} {selections : List Selection}
    {target other : Subschema} (hname : target.name = other.name)
    (h : merged.Proxiable sources selections target) :
    merged.Proxiable sources selections other := by
  constructor
  · intro needed hneeded
    rw [← hname] at hneeded
    exact h.type needed hneeded
  · intro node hnode needs hneeds
    rw [← hname] at hneeds
    exact h.field node hnode needs hneeds

/-- The subschemas that are called in a round are targets. -/
theorem exists_target_of_mem {selections : List Selection} {sources targets : List Subschema}
    {call : Call} (h : call ∈ (merged.plan selections sources targets).delegations) :
    ∃ target ∈ targets, call.1.name = target.name ∧
      merged.Proxiable sources selections target := by
  obtain ⟨-, -, hcan⟩ := exists_owns_of_mem h
  unfold Subschema.isAmong at hcan
  obtain ⟨target, htarget, his⟩ := List.any_eq_true.mp hcan
  rw [(merged.isPlan_plan selections sources targets).proxiable, List.mem_filter] at htarget
  exact ⟨target, htarget.1, of_decide_eq_true his, of_decide_eq_true htarget.2⟩

/-- The targets that are left are no longer those that are called. -/
theorem name_ne_of_mem_nonProxiable {selections : List Selection}
    {sources targets : List Subschema} {call : Call} {target : Subschema}
    (hcall : call ∈ (merged.plan selections sources targets).delegations)
    (htarget : target ∈ (merged.plan selections sources targets).nonProxiable) :
    call.1.name ≠ target.name := by
  intro hname
  obtain ⟨other, -, hother, hcan⟩ := exists_target_of_mem hcall
  rw [(merged.isPlan_plan selections sources targets).nonProxiable, List.mem_filter] at htarget
  exact of_decide_eq_true htarget.2 (hcan.congr (hother.symm.trans hname))

/-- The targets that are left are targets. -/
theorem mem_of_mem_nonProxiable {selections : List Selection} {sources targets : List Subschema}
    {target : Subschema}
    (h : target ∈ (merged.plan selections sources targets).nonProxiable) : target ∈ targets := by
  rw [(merged.isPlan_plan selections sources targets).nonProxiable, List.mem_filter] at h
  exact h.1

/-- A round that calls uses up a target. -/
theorem nonProxiable_length_lt {selections : List Selection} {sources targets : List Subschema}
    (h : (merged.plan selections sources targets).delegations ≠ []) :
    (merged.plan selections sources targets).nonProxiable.length < targets.length := by
  obtain ⟨call, hcall⟩ := List.exists_mem_of_ne_nil _ h
  obtain ⟨target, htarget, -, hcan⟩ := exists_target_of_mem hcall
  rw [(merged.isPlan_plan selections sources targets).nonProxiable]
  refine List.length_filter_lt_length_iff_exists.mpr ⟨target, htarget, ?_⟩
  rw [decide_eq_true_iff]
  exact not_not_intro hcan

end MergedType

/-! ## Deals -/

/-- Whether a selection is the meta field. -/
def Selection.isTypename : Selection → Bool
  | .field node => decide (node.name = typenameField)
  | _ => false

/-- Selections in order, each with the name of the subschema that it goes to, if it goes to one. -/
abbrev Deal := List (Selection × Option String)

/-- The selections with a label. -/
def Deal.labelled (deal : Deal) (label : Option String) : List Selection :=
  (deal.filter fun hand => decide (hand.2 = label)).map Prod.fst

/-- A first hand has its label and no other one. -/
theorem Deal.labelled_cons (hand : Selection × Option String) (deal : Deal)
    (label : Option String) :
    Deal.labelled (hand :: deal) label =
      if hand.2 = label then hand.1 :: deal.labelled label else deal.labelled label := by
  unfold Deal.labelled
  rw [List.filter_cons]
  by_cases h : hand.2 = label
  · rw [if_pos (decide_eq_true h), if_pos h, List.map_cons]
  · rw [if_neg h, decide_eq_false h, if_neg Bool.false_ne_true]

/-- A deal of selections to calls and what is left. -/
structure Deals (deal : Deal) (selections : List Selection) (calls : List Call)
    (left : List Selection) : Prop where
  /-- Every occurrence of a selection but the meta field is dealt once, in order. -/
  dealt : deal.map Prod.fst = selections.filter fun selection => !selection.isTypename
  /-- A call gets what goes to its subschema, in order. -/
  called : ∀ call ∈ calls, call.2 = deal.labelled (some call.1.name)
  /-- What goes to a subschema goes to a call. -/
  reaches : ∀ hand ∈ deal, ∀ name, hand.2 = some name → ∃ call ∈ calls, call.1.name = name
  /-- What goes to none is left, in order. -/
  left : (left.filter fun selection => !selection.isTypename) = deal.labelled none

/-- Without calls everything is left. -/
theorem exists_deals_nil (selections : List Selection) :
    ∃ deal, Deals deal selections [] selections := by
  refine ⟨(selections.filter fun selection => !selection.isTypename).map fun selection =>
    (selection, none), ?_, by simp, ?_, ?_⟩
  · rw [List.map_map]
    exact List.map_id _
  · intro hand hhand name hlabel
    obtain ⟨selection, -, rfl⟩ := List.mem_map.mp hhand
    exact absurd hlabel (by simp)
  · induction selections.filter fun selection => !selection.isTypename with
    | nil => rfl
    | cons first rest ih => rw [List.map_cons, Deal.labelled_cons, if_pos rfl, ← ih]

/-- A call gets some of the selections, and never the meta field. -/
theorem Deals.mem_of_called {deal : Deal} {selections left : List Selection} {calls : List Call}
    (h : Deals deal selections calls left) {call : Call} (hcall : call ∈ calls)
    {selection : Selection} (hselection : selection ∈ call.2) :
    selection ∈ selections ∧ selection.isTypename = false := by
  rw [h.called call hcall] at hselection
  obtain ⟨hand, hhand, rfl⟩ := List.mem_map.mp hselection
  have hmem : hand.1 ∈ deal.map Prod.fst := List.mem_map_of_mem (List.mem_filter.mp hhand).1
  rw [h.dealt, List.mem_filter, Bool.not_eq_true'] at hmem
  exact hmem

/-- A selection goes to a call or is left. -/
theorem Deals.called_or_left {deal : Deal} {selections left : List Selection} {calls : List Call}
    (h : Deals deal selections calls left) {selection : Selection} (hmem : selection ∈ selections)
    (hname : selection.isTypename = false) :
    (∃ call ∈ calls, selection ∈ call.2) ∨ selection ∈ left := by
  have hdealt : selection ∈ deal.map Prod.fst := by
    rw [h.dealt, List.mem_filter, hname]
    exact ⟨hmem, rfl⟩
  obtain ⟨⟨selection, label⟩, hhand, rfl⟩ := List.mem_map.mp hdealt
  have hlabelled : selection ∈ deal.labelled label :=
    List.mem_map.mpr ⟨_, List.mem_filter.mpr ⟨hhand, decide_eq_true rfl⟩, rfl⟩
  cases label with
  | none =>
    rw [← h.left] at hlabelled
    exact .inr (List.mem_filter.mp hlabelled).1
  | some name =>
    obtain ⟨call, hcall, rfl⟩ := h.reaches _ hhand name rfl
    rw [← h.called call hcall] at hlabelled
    exact .inl ⟨call, hcall, hlabelled⟩

/-- The label for a fate; what is dropped has none. -/
def Fate.label? : Fate → Option (Option String)
  | .dropped => none
  | .waiting => some none
  | .asked owner => some (some owner.name)

/-- The deal by the fates of selections. -/
def Fates.deal (fates : Fates) : Deal :=
  fates.filterMap fun hand => hand.2.label?.map fun label => (hand.1, label)

/-- What waits by the fates is what goes to none. -/
theorem Fates.labelled_none (fates : Fates) : fates.deal.labelled none = fates.waiting := by
  induction fates with
  | nil => rfl
  | cons hand rest ih =>
    obtain ⟨selection, fate⟩ := hand
    unfold Fates.deal Deal.labelled Fates.waiting at ih ⊢
    cases fate with
    | dropped => exact ih
    | waiting => exact congrArg (selection :: ·) ih
    | asked owner => exact ih

/-- What is asked of a subschema by the fates is what goes to it. -/
theorem Fates.labelled_some (fates : Fates) (subschema : Subschema) :
    fates.deal.labelled (some subschema.name) = fates.askedOf subschema := by
  induction fates with
  | nil => rfl
  | cons hand rest ih =>
    obtain ⟨selection, fate⟩ := hand
    cases fate with
    | dropped => exact ih
    | waiting => exact ih
    | asked owner =>
      change Deal.labelled ((selection, some owner.name) :: Fates.deal rest) _ =
        Fates.askedOf ((selection, Fate.asked owner) :: rest) subschema
      unfold Fates.askedOf at ih ⊢
      rw [Deal.labelled_cons, ih, List.filter_cons]
      by_cases hname : owner.name = subschema.name
      · have his : Fate.isAskedOf subschema (.asked owner) = true := decide_eq_true hname
        rw [if_pos (congrArg some hname), if_pos his, List.map_cons]
      · have his : Fate.isAskedOf subschema (.asked owner) = false := decide_eq_false hname
        rw [if_neg fun h => hname (Option.some.inj h), his, if_neg Bool.false_ne_true]

/-- All selections but the dropped ones are dealt. -/
theorem Fates.map_fst_deal (fates : Fates)
    (hdropped : ∀ hand ∈ fates, hand.2 = .dropped ↔ hand.1.isTypename = true) :
    fates.deal.map Prod.fst =
      (fates.map Prod.fst).filter fun selection => !selection.isTypename := by
  induction fates with
  | nil => rfl
  | cons hand rest ih =>
    obtain ⟨selection, fate⟩ := hand
    have hrest := ih fun hand hmem => hdropped hand (List.mem_cons_of_mem _ hmem)
    have hhand := hdropped (selection, fate) List.mem_cons_self
    unfold Fates.deal at hrest ⊢
    rw [List.map_cons, List.filter_cons]
    have hkept : fate ≠ .dropped → selection.isTypename = false := by
      intro hfate
      rw [Bool.eq_false_iff]
      exact fun h => hfate (hhand.mpr h)
    cases fate with
    | dropped =>
      rw [hhand.mp rfl]
      exact hrest
    | waiting =>
      rw [hkept (by simp)]
      exact congrArg (selection :: ·) hrest
    | asked owner =>
      rw [hkept (by simp)]
      exact congrArg (selection :: ·) hrest

/-- A plan deals its selections to its calls and leaves what waits. -/
theorem MergedType.plan_deals {ρ : Type} (merged : MergedType ρ) (selections : List Selection)
    (sources targets : List Subschema) :
    ∃ deal, Deals deal selections (merged.plan selections sources targets).delegations
      (merged.plan selections sources targets).waiting := by
  obtain ⟨fates, hsame, hfollows, hshows⟩ := (merged.isPlan_plan selections sources targets).fates
  have hdropped : ∀ hand ∈ fates, hand.2 = Fate.dropped ↔ hand.1.isTypename = true := by
    intro hand hmem
    obtain ⟨earlier, hdecides⟩ := hfollows.decides hmem
    rw [hdecides.dropped_iff]
    cases hand.1 with
    | field node => simp [Selection.isTypename]
    | spread => simp [Selection.isTypename]
    | inline => simp [Selection.isTypename]
  have hdealt := fates.map_fst_deal hdropped
  rw [hsame] at hdealt
  refine ⟨fates.deal, hdealt, ?_, ?_, ?_⟩
  · intro call hcall
    rw [hshows.delegations] at hcall
    obtain ⟨owner, -, rfl⟩ := List.mem_map.mp hcall
    exact (fates.labelled_some owner).symm
  · rintro ⟨selection, label⟩ hmem name rfl
    unfold Fates.deal at hmem
    obtain ⟨⟨selection', fate⟩, hhand, hlabel⟩ := List.mem_filterMap.mp hmem
    cases fate with
    | dropped => exact absurd hlabel (by simp [Fate.label?])
    | waiting => exact absurd hlabel (by simp [Fate.label?])
    | asked owner =>
      cases hlabel
      -- The owner may stand among the owners as another subschema of its name.
      obtain ⟨call, hcall, his⟩ : ∃ call ∈ fates.delegations, call.1.is owner = true := by
        have hasks : fates.asks owner = true :=
          List.any_eq_true.mpr ⟨_, hhand, Subschema.is_self owner⟩
        rw [← Fates.any_owners, List.any_eq_true] at hasks
        obtain ⟨other, hother, his⟩ := hasks
        exact ⟨_, List.mem_map_of_mem hother, his⟩
      rw [hshows.delegations]
      exact ⟨call, hcall, of_decide_eq_true his⟩
  · rw [hshows.waiting, ← fates.labelled_none]
    -- What is dealt holds no meta field, and what waits is dealt.
    refine List.filter_eq_self.mpr fun selection hselection => ?_
    have hmem : selection ∈ fates.deal.map Prod.fst := by
      obtain ⟨hand, hhand, rfl⟩ := List.mem_map.mp hselection
      exact List.mem_map_of_mem (List.mem_filter.mp hhand).1
    rw [hdealt] at hmem
    exact (List.mem_filter.mp hmem).2

/-! ## Dealing out what is left -/

/-- The first deal with the hands of another one where nothing is dealt. -/
def Deal.relay : Deal → Deal → Deal
  | [], _ => []
  | (selection, some name) :: rest, later => (selection, some name) :: relay rest later
  | (_, none) :: rest, hand :: later => hand :: relay rest later
  | (selection, none) :: rest, [] => (selection, none) :: relay rest []

/-- A relayed deal has the selections of the first. -/
theorem Deal.map_fst_relay (deal later : Deal)
    (hlater : later.map Prod.fst = deal.labelled none) :
    (deal.relay later).map Prod.fst = deal.map Prod.fst := by
  fun_induction Deal.relay deal later with
  | case1 => rfl
  | case2 selection name rest later ih =>
    rw [Deal.labelled_cons, if_neg (by simp)] at hlater
    exact congrArg (selection :: ·) (ih hlater)
  | case3 selection rest hand later ih =>
    rw [Deal.labelled_cons, if_pos rfl, List.map_cons] at hlater
    obtain ⟨hhand, hrest⟩ := List.cons.inj hlater
    rw [List.map_cons, List.map_cons, ih hrest, hhand]
  | case4 selection rest ih =>
    rw [Deal.labelled_cons, if_pos rfl, List.map_nil] at hlater
    exact absurd hlater.symm (List.cons_ne_nil _ _)

/-- What a relayed deal gives to a label of the first that is none of the later one. -/
theorem Deal.labelled_relay_left (deal later : Deal) (name : String)
    (hlater : ∀ hand ∈ later, hand.2 ≠ some name) :
    (deal.relay later).labelled (some name) = deal.labelled (some name) := by
  fun_induction Deal.relay deal later with
  | case1 => rfl
  | case2 selection other rest later ih =>
    rw [Deal.labelled_cons, Deal.labelled_cons, ih hlater]
  | case3 selection rest hand later ih =>
    rw [Deal.labelled_cons, Deal.labelled_cons, if_neg (hlater hand List.mem_cons_self),
      if_neg (by simp)]
    exact ih fun other hother => hlater other (List.mem_cons_of_mem _ hother)
  | case4 selection rest ih =>
    rw [Deal.labelled_cons, Deal.labelled_cons, ih hlater]

/-- What a relayed deal gives to none and to a label of the later one that is none of the first. -/
theorem Deal.labelled_relay_right (deal later : Deal) (label : Option String)
    (hdeal : ∀ hand ∈ deal, ∀ name, hand.2 = some name → label ≠ some name)
    (hlater : later.map Prod.fst = deal.labelled none) :
    (deal.relay later).labelled label = later.labelled label := by
  fun_induction Deal.relay deal later with
  | case1 later =>
    cases List.map_eq_nil_iff.mp hlater
    rfl
  | case2 selection name rest later ih =>
    rw [Deal.labelled_cons, if_neg (by simp)] at hlater
    rw [Deal.labelled_cons, if_neg (hdeal _ List.mem_cons_self name rfl).symm]
    exact ih (fun hand hmem => hdeal hand (List.mem_cons_of_mem _ hmem)) hlater
  | case3 selection rest hand later ih =>
    rw [Deal.labelled_cons, if_pos rfl, List.map_cons] at hlater
    rw [Deal.labelled_cons, Deal.labelled_cons,
      ih (fun hand hmem => hdeal hand (List.mem_cons_of_mem _ hmem)) (List.cons.inj hlater).2]
  | case4 selection rest ih =>
    rw [Deal.labelled_cons, if_pos rfl, List.map_nil] at hlater
    exact absurd hlater.symm (List.cons_ne_nil _ _)

/-- A relayed deal has the hands of both deals. -/
theorem Deal.mem_relay {deal later : Deal} {hand : Selection × Option String}
    (h : hand ∈ deal.relay later) : hand ∈ deal ∨ hand ∈ later := by
  fun_induction Deal.relay deal later with
  | case1 => exact .inl h
  | case2 selection name rest later ih =>
    rcases List.mem_cons.mp h with rfl | hrest
    · exact .inl List.mem_cons_self
    · exact (ih hrest).imp_left (List.mem_cons_of_mem _)
  | case3 selection rest first later ih =>
    rcases List.mem_cons.mp h with rfl | hrest
    · exact .inr List.mem_cons_self
    · exact (ih hrest).imp (List.mem_cons_of_mem _) (List.mem_cons_of_mem _)
  | case4 selection rest ih =>
    rcases List.mem_cons.mp h with rfl | hrest
    · exact .inl List.mem_cons_self
    · exact (ih hrest).imp_left (List.mem_cons_of_mem _)

/-- Dealing out what a deal leaves, to calls of other subschemas, is a deal of all. -/
theorem Deals.relay {deal later : Deal} {selections left left' : List Selection}
    {calls calls' : List Call} (h : Deals deal selections calls left)
    (hlater : Deals later left calls' left')
    (hothers : ∀ call ∈ calls, ∀ call' ∈ calls', call.1.name ≠ call'.1.name) :
    Deals (deal.relay later) selections (calls ++ calls') left' := by
  have hrest : later.map Prod.fst = deal.labelled none := hlater.dealt.trans h.left
  refine ⟨?_, ?_, ?_, ?_⟩
  · rw [Deal.map_fst_relay deal later hrest]
    exact h.dealt
  · intro call hcall
    rcases List.mem_append.mp hcall with hcall | hcall
    · rw [Deal.labelled_relay_left]
      · exact h.called call hcall
      · intro hand hhand hlabel
        obtain ⟨call', hcall', hname⟩ := hlater.reaches hand hhand _ hlabel
        exact hothers call hcall call' hcall' hname.symm
    · -- No hand of the first deal has the label of a later call.
      rw [Deal.labelled_relay_right deal later _ _ hrest]
      · exact hlater.called call hcall
      · intro hand hhand name hlabel hsame
        obtain ⟨call', hcall', hname⟩ := h.reaches hand hhand name hlabel
        exact hothers call' hcall' call hcall (hname.trans (Option.some.inj hsame).symm)
  · intro hand hhand name hlabel
    rcases Deal.mem_relay hhand with hhand | hhand
    · obtain ⟨call, hcall, hname⟩ := h.reaches hand hhand name hlabel
      exact ⟨call, List.mem_append_left _ hcall, hname⟩
    · obtain ⟨call, hcall, hname⟩ := hlater.reaches hand hhand name hlabel
      exact ⟨call, List.mem_append_right _ hcall, hname⟩
  · rw [Deal.labelled_relay_right deal later none (by simp) hrest]
    exact hlater.left

end Gateway
