import Gateway.Proofs.Operation.Gather
import Gateway.Proofs.Operation.Search

/-!
# What is collected

On objects of a type a selection set is a list of steps: its inline fragments are opened where they
stand, and its spreads are to be followed (`Scope.steps`). Collecting is the search along them
(`Scope.Searches`) for every bound that is not less than the number of fragments to be visited: each
spread that is followed takes one of them away (`Scope.searches_collectWithin`).

So nothing that is selected is missed (`Scope.subFields_complete`): the collected nodes are those
that are reached through inline fragments and spreads that are included and apply
(`Scope.Reaches`), whichever fragments spread each other.
-/

namespace Gateway

namespace Scope

/-! ## The steps of selections -/

mutual

/-- The steps of a selection on objects of the type. -/
def stepsOf (scope : Scope) (type : Name) : Selection → List (Step Field)
  | .field ⟨alias?, name, arguments, directives, selections⟩ =>
    if scope.includes directives scope.vars then
      [.node ⟨alias?, name, arguments, directives, selections⟩]
    else []
  | .inline condition directives selections =>
    if scope.includes directives scope.vars && scope.applies type condition then
      steps scope type selections
    else []
  | .spread fragment directives =>
    if scope.includes directives scope.vars then [.follow fragment] else []

/-- The steps of selections on objects of the type, in order. -/
def steps (scope : Scope) (type : Name) : List Selection → List (Step Field)
  | [] => []
  | selection :: rest => stepsOf scope type selection ++ steps scope type rest

end

/-- The steps of a fragment that is defined and applies to objects of the type. -/
def fragmentSteps? (scope : Scope) (type fragment : Name) : Option (List (Step Field)) :=
  (scope.fragments.get? fragment).bind fun definition =>
    if scope.applies type (some definition.condition) then
      some (scope.steps type definition.selections)
    else none

section Steps

variable {scope : Scope} {type : Name}

/-- A field is a step when it is included. -/
theorem stepsOf_field (node : Field) :
    scope.stepsOf type (.field node) =
      if scope.includes node.directives scope.vars then [.node node] else [] := by
  obtain ⟨alias?, name, arguments, directives, selections⟩ := node
  rw [stepsOf]

/-- A fragment has steps when it is defined and applies. -/
theorem fragmentSteps?_eq_some_iff {fragment : Name} {inner : List (Step Field)} :
    scope.fragmentSteps? type fragment = some inner ↔
      ∃ definition, scope.fragments.get? fragment = some definition ∧
        scope.applies type (some definition.condition) = true ∧
        scope.steps type definition.selections = inner := by
  unfold fragmentSteps?
  rw [Option.bind_eq_some_iff]
  refine exists_congr fun definition => and_congr_right fun _ => ?_
  by_cases happlies : scope.applies type (some definition.condition) = true
  · rw [if_pos happlies, Option.some.injEq]
    exact (and_iff_right happlies).symm
  · rw [if_neg happlies]
    exact ⟨fun h => absurd h (by simp), fun h => absurd h.1 happlies⟩

/-- Only a fragment by a known name has steps. -/
theorem mem_keys_of_fragmentSteps? (fragment : Name)
    (h : (scope.fragmentSteps? type fragment).isSome) : fragment ∈ scope.fragments.keys := by
  obtain ⟨inner, hinner⟩ := Option.isSome_iff_exists.mp h
  obtain ⟨definition, hfound, -⟩ := fragmentSteps?_eq_some_iff.mp hinner
  exact List.mem_map_of_mem (Entries.mem_of_get? hfound)

/-- The steps of selections are those of each. -/
theorem steps_eq_flatMap (selections : List Selection) :
    scope.steps type selections = selections.flatMap (scope.stepsOf type) := by
  induction selections with
  | nil => rfl
  | cons first rest ih => rw [steps, List.flatMap_cons, ih]

/-- The steps of a selection are among those of the selections in which it stands. -/
theorem stepsOf_subset {selection : Selection} {selections : List Selection}
    (hmem : selection ∈ selections) :
    scope.stepsOf type selection ⊆ scope.steps type selections := by
  rw [steps_eq_flatMap]
  exact fun step hstep => List.mem_flatMap.mpr ⟨selection, hmem, hstep⟩

end Steps

/-! ## Collecting is a search -/

/-- Collected fields become others by a search along the steps: what is found is added by its
response key. -/
def Searches (scope : Scope) (type : Name) (steps : List (Step Field))
    (before after : Collected) : Prop :=
  ∃ found, Visits (scope.fragmentSteps? type) steps before.visited found after.visited ∧
    after.fields = found.foldl (fun fields node => fields.push node.responseKey node) before.fields

section Searches

variable {scope : Scope} {type : Name} {steps others : List (Step Field)}
  {before between after : Collected} {follow : Fragment → Collected → Collected} {bound : Nat}

/-- Without a step nothing is collected. -/
theorem Searches.nil : scope.Searches type [] before before :=
  ⟨[], .done, rfl⟩

/-- Searches follow each other. -/
theorem Searches.append (h : scope.Searches type steps before between)
    (h' : scope.Searches type others between after) :
    scope.Searches type (steps ++ others) before after := by
  obtain ⟨found, hvisits, hfields⟩ := h
  obtain ⟨more, hvisits', hfields'⟩ := h'
  refine ⟨found ++ more, hvisits.append hvisits', ?_⟩
  rw [List.foldl_append, ← hfields]
  exact hfields'

/-- A search leaves no more fragments to visit than there were. -/
theorem Searches.unseen_le (h : scope.Searches type steps before after) (known : List Name) :
    unseen known after.visited ≤ unseen known before.visited := by
  obtain ⟨found, hvisits, -⟩ := h
  exact Gateway.unseen_le hvisits.subset

/-- Collecting from selections is a search when this holds for each of them. -/
theorem searches_collectSelections_of_forall {known : List Name} {selections : List Selection}
    (h : ∀ selection ∈ selections, ∀ collected : Collected,
      unseen known collected.visited ≤ bound →
        scope.Searches type (scope.stepsOf type selection) collected
          (scope.collectSelection type follow selection collected))
    (collected : Collected) (hbound : unseen known collected.visited ≤ bound) :
    scope.Searches type (scope.steps type selections) collected
      (scope.collectSelections type follow selections collected) := by
  induction selections generalizing collected with
  | nil =>
    rw [collectSelections, Scope.steps]
    exact .nil
  | cons first rest ih =>
    rw [collectSelections, Scope.steps]
    have hfirst := h first List.mem_cons_self collected hbound
    exact hfirst.append (ih (fun selection hmem => h selection (List.mem_cons_of_mem _ hmem)) _
      ((hfirst.unseen_le known).trans hbound))

/-- Collecting from a selection is a search when following a fragment is one, as long as fewer
fragments are to be visited. -/
theorem searches_collectSelection
    (hfollow : ∀ (definition : Fragment) (collected : Collected),
      unseen scope.fragments.keys collected.visited < bound →
        scope.Searches type (scope.steps type definition.selections) collected
          (follow definition collected))
    (selection : Selection) (collected : Collected)
    (hbound : unseen scope.fragments.keys collected.visited ≤ bound) :
    scope.Searches type (scope.stepsOf type selection) collected
      (scope.collectSelection type follow selection collected) := by
  induction selection using Selection.nestedInduction generalizing collected with
  | field node =>
    obtain ⟨alias?, name, arguments, directives, selections⟩ := node
    rw [collectSelection, stepsOf]
    split
    · exact ⟨[_], .node .done, rfl⟩
    · exact .nil
  | inline condition directives selections ih =>
    rw [collectSelection, stepsOf]
    split
    · exact searches_collectSelections_of_forall ih collected hbound
    · exact .nil
  | spread fragment directives =>
    rw [collectSelection, stepsOf]
    by_cases hincluded : scope.includes directives scope.vars = true
    · rw [if_pos hincluded, hincluded, Bool.true_and]
      by_cases hvisited : fragment ∈ collected.visited
      · rw [if_neg (by simpa using hvisited)]
        exact ⟨[], .again hvisited .done, rfl⟩
      · rw [if_pos (by simpa using hvisited)]
        cases hfound : scope.fragments.get? fragment with
        | none =>
          have hblocked : scope.fragmentSteps? type fragment = none := by
            rw [fragmentSteps?, hfound, Option.bind_none]
          exact ⟨[], .blocked hvisited hblocked .done, rfl⟩
        | some definition =>
          by_cases happlies : scope.applies type (some definition.condition) = true
          · have hsteps := fragmentSteps?_eq_some_iff.mpr ⟨definition, hfound, happlies, rfl⟩
            have hknown : fragment ∈ scope.fragments.keys :=
              List.mem_map_of_mem (Entries.mem_of_get? hfound)
            -- The fragment is visited before it is followed, so there is one less to visit.
            obtain ⟨found, hvisits, hfields⟩ := hfollow definition (collected.visit fragment)
              (Nat.lt_of_lt_of_le (unseen_cons_lt hknown hvisited) hbound)
            dsimp only
            rw [if_pos happlies]
            refine ⟨found ++ [], .follow hvisited hsteps hvisits .done, ?_⟩
            rw [List.append_nil]
            exact hfields
          · have hblocked : scope.fragmentSteps? type fragment = none := by
              rw [fragmentSteps?, hfound, Option.bind_some, if_neg happlies]
            dsimp only
            rw [if_neg happlies]
            exact ⟨[], .blocked hvisited hblocked .done, rfl⟩
    · rw [if_neg hincluded, if_neg fun h => hincluded (Bool.and_eq_true_iff.mp h).1]
      exact .nil

/-- Collecting is a search when the fragments to be visited are not more than the fuel. -/
theorem searches_collectWithin (fuel : Nat) (selections : List Selection) (collected : Collected)
    (hfuel : unseen scope.fragments.keys collected.visited ≤ fuel) :
    scope.Searches type (scope.steps type selections) collected
      (scope.collectWithin type fuel selections collected) := by
  induction fuel generalizing selections collected with
  | zero =>
    exact searches_collectSelections_of_forall (fun selection _ =>
      searches_collectSelection (fun _ _ h => absurd h (Nat.not_lt_zero _)) selection)
      collected hfuel
  | succ fuel ih =>
    exact searches_collectSelections_of_forall (fun selection _ =>
      searches_collectSelection (fun definition collected h =>
        ih definition.selections collected (Nat.le_of_lt_succ h)) selection)
      collected hfuel

/-- Collecting under nodes one after another is the search along the steps of all of them. -/
theorem searches_foldl (scope : Scope) (type : Name) (nodes : List Field)
    (collected : Collected) :
    scope.Searches type (nodes.flatMap fun node => scope.steps type node.selections) collected
      (nodes.foldl (fun collected node => scope.collect type node.selections collected)
        collected) := by
  have henough (collected : Collected) :
      unseen scope.fragments.keys collected.visited ≤ scope.fragments.length :=
    (List.length_filter_le _ _).trans (Nat.le_of_eq (List.length_map _))
  induction nodes generalizing collected with
  | nil => exact .nil
  | cons first rest ih =>
    rw [List.foldl_cons, List.flatMap_cons]
    exact (searches_collectWithin _ first.selections collected (henough collected)).append (ih _)

end Searches

/-! ## What is reached -/

/-- A selection is reached from selections on objects of the type, through inline fragments and
spreads that are included and apply. -/
inductive Reaches (scope : Scope) (type : Name) (selection : Selection) : List Selection → Prop
  /-- It is one of the selections. -/
  | here {selections : List Selection} (mem : selection ∈ selections) :
    Reaches scope type selection selections
  /-- It is reached from an inline fragment. -/
  | inline {selections inner : List Selection} {condition : Option Name}
    {directives : List Directive} (mem : .inline condition directives inner ∈ selections)
    (included : scope.includes directives scope.vars = true)
    (applies : scope.applies type condition = true)
    (within : Reaches scope type selection inner) : Reaches scope type selection selections
  /-- It is reached from a fragment that is spread. -/
  | spread {selections : List Selection} {fragment : Name} {directives : List Directive}
    {definition : Fragment} (mem : .spread fragment directives ∈ selections)
    (included : scope.includes directives scope.vars = true)
    (found : scope.fragments.get? fragment = some definition)
    (applies : scope.applies type (some definition.condition) = true)
    (within : Reaches scope type selection definition.selections) :
    Reaches scope type selection selections

/-- What stands for a step is reached and included. -/
def Stands (scope : Scope) (type : Name) (selections : List Selection) : Step Field → Prop
  | .node node => scope.Reaches type (.field node) selections ∧
    scope.includes node.directives scope.vars = true
  | .follow fragment => ∃ directives, scope.Reaches type (.spread fragment directives) selections ∧
    scope.includes directives scope.vars = true

section Reaches

variable {scope : Scope} {type : Name} {selection : Selection} {selections others : List Selection}
  {step : Step Field}

/-- What selections reach, more of them reach. -/
theorem Reaches.mono (h : scope.Reaches type selection selections) (hsub : selections ⊆ others) :
    scope.Reaches type selection others := by
  cases h with
  | here mem => exact .here (hsub mem)
  | inline mem included applies within => exact .inline (hsub mem) included applies within
  | spread mem included found applies within =>
    exact .spread (hsub mem) included found applies within

/-- From a spread that is reached the selections of its fragment are reached. -/
theorem Reaches.follow {fragment : Name} {directives : List Directive} {definition : Fragment}
    (h : scope.Reaches type (.spread fragment directives) selections)
    (hincluded : scope.includes directives scope.vars = true)
    (hfound : scope.fragments.get? fragment = some definition)
    (happlies : scope.applies type (some definition.condition) = true)
    (hwithin : scope.Reaches type selection definition.selections) :
    scope.Reaches type selection selections := by
  induction h with
  | here mem => exact .spread mem hincluded hfound happlies hwithin
  | inline mem included applies _ ih => exact .inline mem included applies ih
  | spread mem included found applies _ ih => exact .spread mem included found applies ih

/-- What is reached in one way stands for a step in every way that reaches as much. -/
theorem Stands.imp (h : scope.Stands type selections step)
    (himp : ∀ selection, scope.Reaches type selection selections →
      scope.Reaches type selection others) : scope.Stands type others step := by
  cases step with
  | node node => exact ⟨himp _ h.1, h.2⟩
  | follow fragment =>
    obtain ⟨directives, hreaches, hincluded⟩ := h
    exact ⟨directives, himp _ hreaches, hincluded⟩

/-- A step of a selection stands for what the selection reaches. -/
theorem stands_of_mem_stepsOf (hstep : step ∈ scope.stepsOf type selection) :
    scope.Stands type [selection] step := by
  induction selection using Selection.nestedInduction with
  | field node =>
    rw [stepsOf_field] at hstep
    split at hstep
    next hincluded =>
      rw [List.mem_singleton.mp hstep]
      exact ⟨.here List.mem_cons_self, hincluded⟩
    next => exact absurd hstep List.not_mem_nil
  | inline condition directives selections ih =>
    rw [stepsOf] at hstep
    split at hstep
    next h =>
      obtain ⟨hincluded, happlies⟩ := Bool.and_eq_true_iff.mp h
      rw [steps_eq_flatMap] at hstep
      obtain ⟨inner, hmem, hstep⟩ := List.mem_flatMap.mp hstep
      refine (ih inner hmem hstep).imp fun selection hreaches => ?_
      exact .inline List.mem_cons_self hincluded happlies
        (hreaches.mono (List.cons_subset.mpr ⟨hmem, List.nil_subset _⟩))
    next => exact absurd hstep List.not_mem_nil
  | spread fragment directives =>
    rw [stepsOf] at hstep
    split at hstep
    next hincluded =>
      rw [List.mem_singleton.mp hstep]
      exact ⟨directives, .here List.mem_cons_self, hincluded⟩
    next => exact absurd hstep List.not_mem_nil

/-- A step of selections stands for what they reach. -/
theorem stands_of_mem_steps (hstep : step ∈ scope.steps type selections) :
    scope.Stands type selections step := by
  rw [steps_eq_flatMap] at hstep
  obtain ⟨selection, hmem, hstep⟩ := List.mem_flatMap.mp hstep
  refine (stands_of_mem_stepsOf hstep).imp fun other hreaches => ?_
  exact hreaches.mono (List.cons_subset.mpr ⟨hmem, List.nil_subset _⟩)

/-- Where steps lead, the selections that they stand in reach. -/
theorem exists_reaches_of_leads {node : Field} {steps : List (Step Field)} {nodes : List Field}
    (h : Leads (scope.fragmentSteps? type) node steps)
    (hstands : ∀ step ∈ steps, ∃ parent ∈ nodes, scope.Stands type parent.selections step) :
    ∃ parent ∈ nodes, scope.Stands type parent.selections (.node node) := by
  induction h with
  | here mem => exact hstands _ mem
  | follow mem opened _ ih =>
    refine ih fun step hstep => ?_
    obtain ⟨parent, hparent, directives, hreaches, hincluded⟩ := hstands _ mem
    obtain ⟨definition, hfound, happlies, rfl⟩ := fragmentSteps?_eq_some_iff.mp opened
    exact ⟨parent, hparent, (stands_of_mem_steps hstep).imp fun _ hwithin =>
      hreaches.follow hincluded hfound happlies hwithin⟩

/-- The steps of selections lead to every field that they reach, if it is included. -/
theorem Reaches.leads {node : Field} (h : scope.Reaches type (.field node) selections)
    (hincluded : scope.includes node.directives scope.vars = true) :
    Leads (scope.fragmentSteps? type) node (scope.steps type selections) := by
  induction h with
  | here mem =>
    refine .here (stepsOf_subset mem ?_)
    rw [stepsOf_field, if_pos hincluded]
    exact List.mem_cons_self
  | @inline selections inner condition directives mem included applies _ ih =>
    have hinner : scope.stepsOf type (.inline condition directives inner) =
        scope.steps type inner := by
      rw [stepsOf, if_pos (Bool.and_eq_true_iff.mpr ⟨included, applies⟩)]
    exact ih.mono (hinner ▸ stepsOf_subset mem)
  | @spread selections fragment directives definition mem included found applies _ ih =>
    have hspread : scope.stepsOf type (.spread fragment directives) = [.follow fragment] := by
      rw [stepsOf, if_pos included]
    exact .follow (stepsOf_subset mem (hspread ▸ List.mem_cons_self))
      (fragmentSteps?_eq_some_iff.mpr ⟨definition, found, applies, rfl⟩) ih

end Reaches

/-- Collecting under nodes on objects of a type, for whatever fragments there are: the search along
their steps ends, and comes out with the collected nodes. Under a response key are the included
nodes with this key that are reached from the selections of one of the nodes. They are the nodes in
these selections, and those in the fragments that are visited, each once. The response keys stand in
the order of the first node of each when every fragment is followed that is not open already. -/
theorem subFields_complete (scope : Scope) (type : Name) (nodes : List Field) :
    ∃ found visited,
      Visits (scope.fragmentSteps? type)
          (nodes.flatMap fun node => scope.steps type node.selections) [] found visited ∧
        scope.subFields type nodes = byResponseKey found ∧
      (∀ key node, node ∈ ((scope.subFields type nodes).get? key).getD [] ↔
        node.responseKey = key ∧ scope.includes node.directives scope.vars = true ∧
          ∃ parent ∈ nodes, scope.Reaches type (.field node) parent.selections) ∧
      (visited.Nodup ∧
        found.Perm (nodesOf (nodes.flatMap fun node => scope.steps type node.selections) ++
          visited.flatMap fun fragment =>
            nodesOf ((scope.fragmentSteps? type fragment).getD []))) ∧
      ∃ listed,
        Unfolds (scope.fragmentSteps? type) []
            (nodes.flatMap fun node => scope.steps type node.selections) listed ∧
          (scope.subFields type nodes).keys = (listed.map FieldOf.responseKey).eraseDups := by
  obtain ⟨found, hvisits, hfields⟩ := searches_foldl scope type nodes {}
  have hcollected : scope.subFields type nodes = byResponseKey found := hfields
  obtain ⟨listed, hunfolds⟩ := exists_unfolds mem_keys_of_fragmentSteps? []
    (nodes.flatMap fun node => scope.steps type node.selections)
  refine ⟨found, _, hvisits, hcollected, fun key node => ?_, hvisits.perm, listed, hunfolds, ?_⟩
  · rw [hcollected, get?_byResponseKey, List.mem_filter, decide_eq_true_eq, hvisits.mem_iff,
      and_comm]
    refine and_congr_right fun _ => ⟨fun hleads => ?_, ?_⟩
    · have hstands : ∀ step ∈ nodes.flatMap fun node => scope.steps type node.selections,
          ∃ parent ∈ nodes, scope.Stands type parent.selections step := by
        intro step hstep
        obtain ⟨parent, hparent, hstep⟩ := List.mem_flatMap.mp hstep
        exact ⟨parent, hparent, stands_of_mem_steps hstep⟩
      obtain ⟨parent, hparent, hreaches, hincluded⟩ := exists_reaches_of_leads hleads hstands
      exact ⟨hincluded, parent, hparent, hreaches⟩
    · rintro ⟨hincluded, parent, hparent, hreaches⟩
      exact (hreaches.leads hincluded).mono fun step hstep =>
        List.mem_flatMap.mpr ⟨parent, hparent, hstep⟩
  · rw [hcollected, keys_byResponseKey, hvisits.eraseDups_eq FieldOf.responseKey hunfolds]

end Scope

end Gateway
