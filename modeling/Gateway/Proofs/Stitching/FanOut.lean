import Gateway.Proofs.Stitching.Enlarged
import Mathlib.Data.List.Perm.Basic

/-!
# Which subschemas a round asks

A plan asks subschemas as the selections come: a field that has a proxiable owner which is asked
already adds none, and any other field adds its first proxiable owner. Only the names count here, so
the fold of a plan is the fold `takeAll` over the names of these owners (`names_routed`).

Which names are taken depends on the order of the selections. It does not exactly when every first
choice is settled (`takeAll_perm_iff`): a field must hold to it, that is, prefer it and have no
other choice that is preferred by a field. The field that prefers a name takes it when it comes
first of all, so every order has to take all first choices. A name to which no field holds is not
taken when the fields that prefer it come last.
-/

namespace Gateway

/-! ## Taking first choices -/

/-- The names that are taken with one more list of choices: none is new when one of the choices is
taken already, and otherwise the first choice is. -/
def takeChoice (taken choices : List String) : List String :=
  if choices.any taken.contains then taken else taken ++ choices.head?.toList

/-- The names that are taken for lists of choices, one after another. -/
def takeAll (lists : List (List String)) : List String :=
  lists.foldl takeChoice []

/-- The first choices. -/
def firstChoices (lists : List (List String)) : List String :=
  lists.filterMap List.head?

/-- Every first choice is that of some list which has no other choice that comes first in a list. -/
def Settled (lists : List (List String)) : Prop :=
  ∀ first ∈ firstChoices lists, ∃ choices ∈ lists, choices.head? = some first ∧
    ∀ other ∈ choices, other ∈ firstChoices lists → other = first

section Take

variable {lists others : List (List String)} {taken choices : List String} {name : String}

/-- Nothing is taken when one of the choices is taken already. -/
theorem takeChoice_of_mem {choice : String} (hchoice : choice ∈ choices) (htaken : choice ∈ taken) :
    takeChoice taken choices = taken :=
  if_pos (List.any_eq_true.mpr ⟨choice, hchoice, List.contains_iff_mem.mpr htaken⟩)

/-- The first choice is taken when none of the choices is taken already. -/
theorem takeChoice_of_forall_not_mem (h : ∀ choice ∈ choices, choice ∉ taken) :
    takeChoice taken choices = taken ++ choices.head?.toList := by
  refine if_neg fun hany => ?_
  obtain ⟨choice, hchoice, htaken⟩ := List.any_eq_true.mp hany
  exact h choice hchoice (List.contains_iff_mem.mp htaken)

/-- What is taken with one more list was taken already or is its first choice. -/
theorem mem_takeChoice_iff : name ∈ takeChoice taken choices ↔
    name ∈ taken ∨ (∀ choice ∈ choices, choice ∉ taken) ∧ choices.head? = some name := by
  by_cases hnone : ∀ choice ∈ choices, choice ∉ taken
  · rw [takeChoice_of_forall_not_mem hnone, List.mem_append, Option.mem_toList,
      and_iff_right hnone]
  · obtain ⟨choice, hchoice, htaken⟩ : ∃ choice ∈ choices, choice ∈ taken := by
      simpa only [not_forall, not_not, exists_prop] using hnone
    rw [takeChoice_of_mem hchoice htaken]
    simp only [hnone, false_and, or_false]

/-- The last list is taken last. -/
theorem takeAll_concat (lists : List (List String)) (choices : List String) :
    takeAll (lists ++ [choices]) = takeChoice (takeAll lists) choices :=
  List.foldl_append

/-- What is taken stays taken. -/
theorem mem_takeAll_append (h : name ∈ takeAll lists) (others : List (List String)) :
    name ∈ takeAll (lists ++ others) := by
  induction others using List.reverseRecOn with
  | nil => rwa [List.append_nil]
  | append_singleton others last ih =>
    rw [← List.append_assoc, takeAll_concat, mem_takeChoice_iff]
    exact .inl ih

/-- The first choices are those that come first in a list. -/
theorem mem_firstChoices_iff :
    name ∈ firstChoices lists ↔ ∃ choices ∈ lists, choices.head? = some name :=
  List.mem_filterMap

/-- What more lists take is among their first choices. -/
theorem mem_takeAll_or_of_append (h : name ∈ takeAll (lists ++ others)) :
    name ∈ takeAll lists ∨ name ∈ firstChoices others := by
  induction others using List.reverseRecOn with
  | nil => exact .inl (by rwa [List.append_nil] at h)
  | append_singleton others last ih =>
    rw [← List.append_assoc, takeAll_concat, mem_takeChoice_iff] at h
    rw [mem_firstChoices_iff] at ih ⊢
    rcases h with h | ⟨-, hhead⟩
    · refine (ih h).imp_right ?_
      rintro ⟨choices, hmem, hhead⟩
      exact ⟨choices, List.mem_append_left _ hmem, hhead⟩
    · exact .inr ⟨last, List.mem_append_right _ (List.mem_singleton_self _), hhead⟩

/-- Only first choices are taken. -/
theorem mem_firstChoices_of_mem_takeAll (h : name ∈ takeAll lists) :
    name ∈ firstChoices lists := by
  have h' : name ∈ takeAll ([] ++ lists) := h
  exact (mem_takeAll_or_of_append h').resolve_left List.not_mem_nil

/-- From a list that has a choice, one is taken. -/
theorem exists_mem_takeAll (hmem : choices ∈ lists) {first : String}
    (hfirst : choices.head? = some first) : ∃ choice ∈ choices, choice ∈ takeAll lists := by
  obtain ⟨before, after, rfl⟩ := List.append_of_mem hmem
  -- The list finds one of its choices taken, or it takes its first choice.
  suffices h : ∃ choice ∈ choices, choice ∈ takeAll (before ++ [choices]) by
    obtain ⟨choice, hchoice, htaken⟩ := h
    refine ⟨choice, hchoice, ?_⟩
    rw [List.append_cons]
    exact mem_takeAll_append htaken after
  rw [takeAll_concat]
  by_cases hany : ∃ choice ∈ choices, choice ∈ takeAll before
  · obtain ⟨choice, hchoice, htaken⟩ := hany
    exact ⟨choice, hchoice, mem_takeChoice_iff.mpr (.inl htaken)⟩
  · refine ⟨first, List.mem_of_head? hfirst, mem_takeChoice_iff.mpr (.inr ⟨?_, hfirst⟩)⟩
    exact fun choice hchoice htaken => hany ⟨choice, hchoice, htaken⟩

/-- Lists in another order have the same first choices. -/
theorem mem_firstChoices_of_perm (h : others.Perm lists) :
    name ∈ firstChoices others ↔ name ∈ firstChoices lists :=
  (h.filterMap _).mem_iff

/-- When the first choices are settled, all of them are taken, in whatever order. -/
theorem mem_takeAll_of_settled (hsettled : Settled lists) (hperm : others.Perm lists) :
    name ∈ takeAll others ↔ name ∈ firstChoices lists := by
  constructor
  · intro htaken
    exact (mem_firstChoices_of_perm hperm).mp (mem_firstChoices_of_mem_takeAll htaken)
  · intro hfirst
    obtain ⟨choices, hmem, hhead, honly⟩ := hsettled name hfirst
    obtain ⟨choice, hchoice, htaken⟩ := exists_mem_takeAll (hperm.mem_iff.mpr hmem) hhead
    have hchoiceFirst : choice ∈ firstChoices lists :=
      (mem_firstChoices_of_perm hperm).mp (mem_firstChoices_of_mem_takeAll htaken)
    rwa [honly choice hchoice hchoiceFirst] at htaken

/-- A first choice is taken when its list comes first. -/
theorem exists_perm_takes (hfirst : name ∈ firstChoices lists) :
    ∃ others, others.Perm lists ∧ name ∈ takeAll others := by
  obtain ⟨choices, hmem, hhead⟩ := mem_firstChoices_iff.mp hfirst
  obtain ⟨before, after, rfl⟩ := List.append_of_mem hmem
  have hperm : ([choices] ++ (before ++ after)).Perm (before ++ choices :: after) := by
    rw [List.singleton_append]
    exact List.perm_middle.symm
  refine ⟨_, hperm, mem_takeAll_append ?_ _⟩
  rw [← List.nil_append [choices], takeAll_concat, mem_takeChoice_iff]
  exact .inr ⟨fun _ _ => List.not_mem_nil, hhead⟩

/-- Lists that each have a choice which is taken take nothing more. -/
theorem takeAll_append_of_forall
    (h : ∀ choices ∈ others, ∃ choice ∈ choices, choice ∈ takeAll lists) :
    takeAll (lists ++ others) = takeAll lists := by
  induction others using List.reverseRecOn with
  | nil => rw [List.append_nil]
  | append_singleton others last ih =>
    have hothers := ih fun choices hmem => h choices (List.mem_append_left _ hmem)
    obtain ⟨choice, hchoice, htaken⟩ := h last (List.mem_append_right _ (List.mem_singleton_self _))
    rw [← List.append_assoc, takeAll_concat, hothers, takeChoice_of_mem hchoice htaken]

/-- When all first choices are taken in all orders, they are settled. -/
theorem settled_of_forall_perm
    (hall : ∀ others : List (List String), others.Perm lists →
      ∀ name ∈ firstChoices lists, name ∈ takeAll others) : Settled lists := by
  intro first hfirst
  by_contra hnone
  -- In this order the lists that prefer the name come last. None of them holds to it, so each finds
  -- another first choice taken, and the name is not taken after all.
  let prefers : List String → Bool := fun choices => choices.head? == some first
  have hperm :
      (lists.filter (fun choices => !prefers choices) ++ lists.filter prefers).Perm lists :=
    List.perm_append_comm.trans (List.filter_append_perm prefers lists)
  have htaken := hall _ hperm first hfirst
  rw [takeAll_append_of_forall] at htaken
  · obtain ⟨choices, hmem, hhead⟩ :=
      mem_firstChoices_iff.mp (mem_firstChoices_of_mem_takeAll htaken)
    have hprefers : prefers choices = true := beq_iff_eq.mpr hhead
    simp [hprefers] at hmem
  · intro choices hmem
    obtain ⟨hmem, hprefers⟩ := List.mem_filter.mp hmem
    have hnot : ¬ ∀ other ∈ choices, other ∈ firstChoices lists → other = first := fun honly =>
      hnone ⟨choices, hmem, beq_iff_eq.mp hprefers, honly⟩
    simp only [not_forall] at hnot
    obtain ⟨other, hother, hotherFirst, hne⟩ := hnot
    refine ⟨other, hother, ?_⟩
    rcases mem_takeAll_or_of_append (hall _ hperm other hotherFirst) with htaken | hlast
    · exact htaken
    · obtain ⟨last, hmemLast, hhead⟩ := mem_firstChoices_iff.mp hlast
      have hlastFirst : last.head? = some first := beq_iff_eq.mp (List.mem_filter.mp hmemLast).2
      exact absurd (Option.some.inj (hhead.symm.trans hlastFirst)) hne

/-- The same names are taken in all orders exactly when the first choices are settled. -/
theorem takeAll_perm_iff :
    (∀ one other : List (List String), one.Perm lists → other.Perm lists →
      ∀ name, name ∈ takeAll one ↔ name ∈ takeAll other) ↔ Settled lists := by
  constructor
  · intro hsame
    refine settled_of_forall_perm fun others hperm name hname => ?_
    obtain ⟨one, hone, htaken⟩ := exists_perm_takes hname
    exact (hsame one others hone hperm name).mp htaken
  · intro hsettled one other hone hother name
    rw [mem_takeAll_of_settled hsettled hone, mem_takeAll_of_settled hsettled hother]

end Take

/-! ## The subschemas that a plan asks -/

namespace Plan

variable {plan : Plan} {subschema owner : Subschema}

/-- The names of the subschemas that a plan asks. -/
def names (plan : Plan) : List String :=
  plan.delegations.map fun entry => entry.1.name

/-- A subschema is asked when its name is among the names. -/
theorem asks_iff : plan.asks subschema = true ↔ subschema.name ∈ plan.names := by
  unfold asks names Subschema.is
  simp only [List.any_eq_true, decide_eq_true_eq, List.mem_map]

/-- A selection that is asked of a subschema takes its name. -/
theorem names_delegate (plan : Plan) (owner : Subschema) (selection : Selection) :
    (plan.delegate owner selection).names = takeChoice plan.names [owner.name] := by
  have hadd : ∀ calls : List Call,
      (addDelegation owner selection calls).map (fun entry => entry.1.name) =
        takeChoice (calls.map fun entry => entry.1.name) [owner.name] := by
    intro calls
    induction calls with
    | nil => rfl
    | cons first rest ih =>
      rw [addDelegation]
      by_cases his : first.1.is owner = true
      · have hname : first.1.name = owner.name := of_decide_eq_true his
        rw [if_pos his, takeChoice_of_mem (List.mem_singleton_self _)]
        · rfl
        · exact List.mem_map.mpr ⟨first, List.mem_cons_self, hname⟩
      · have hname : owner.name ≠ first.1.name := fun h => his (decide_eq_true h.symm)
        rw [if_neg his, List.map_cons, ih]
        unfold takeChoice
        simp only [List.map_cons, List.any_cons, List.any_nil, Bool.or_false, List.contains_cons,
          beq_eq_false_iff_ne.mpr hname, Bool.false_or]
        split_ifs <;> rfl
  exact hadd plan.delegations

end Plan

namespace MergedType

variable {ρ : Type}

/-- The owners of a field: the only one, or else those that share it. -/
def owners (merged : MergedType ρ) (field : Name) : List Subschema :=
  match merged.uniqueFields.get? field with
  | some only => [only]
  | none => (merged.sharedFields.get? field).getD []

/-- The names of the proxiable owners of what is selected, in the order of the owners. Fragments and
the meta field have none. -/
def choices (merged : MergedType ρ) (proxiable : List Subschema) : Selection → List String
  | .field node =>
    if node.name = typenameField then []
    else ((merged.owners node.name).filter (·.isAmong proxiable)).map Subschema.name
  | _ => []

/-- The plan of a round once the first selections are routed. -/
def routed (merged : MergedType ρ) (selections : List Selection) (sources targets : List Subschema)
    (first : List Selection) : Plan :=
  first.foldl merged.route
    { proxiable := targets.filter (merged.isProxiable sources selections)
      nonProxiable := targets.filter fun target => !merged.isProxiable sources selections target }

variable {merged : MergedType ρ} {plan : Plan} {selections selections' : List Selection}
  {sources targets : List Subschema}

/-- The owners are those that own a field. -/
theorem mem_owners_iff {owner : Subschema} {field : Name} :
    owner ∈ merged.owners field ↔ merged.Owns owner field := by
  unfold owners Owns
  cases merged.uniqueFields.get? field with
  | some only => exact List.mem_singleton
  | none => cases merged.sharedFields.get? field <;> simp

/-- A field is asked of the first of its proxiable owners that is asked already, or else of the
first of them. -/
theorem choose?_eq (merged : MergedType ρ) (plan : Plan) (field : Name) :
    merged.choose? plan field =
      let owners := (merged.owners field).filter (·.isAmong plan.proxiable)
      (owners.find? plan.asks).or owners.head? := by
  unfold choose? owners
  cases merged.uniqueFields.get? field with
  | none => rfl
  | some only =>
    cases hcan : only.isAmong plan.proxiable with
    | false => simp [hcan]
    | true => cases hasks : plan.asks only <;> simp [hcan, hasks]

/-- Routing a selection takes one of the names of its proxiable owners. -/
theorem names_route (merged : MergedType ρ) (plan : Plan) (selection : Selection) :
    (merged.route plan selection).names =
      takeChoice plan.names (merged.choices plan.proxiable selection) := by
  have hwait : (plan.wait selection).names = takeChoice plan.names [] :=
    (List.append_nil _).symm
  cases selection with
  | spread => exact hwait
  | inline => exact hwait
  | field node =>
    unfold route choices
    dsimp only
    split_ifs with hname
    · exact (List.append_nil _).symm
    rw [choose?_eq]
    dsimp only
    generalize (merged.owners node.name).filter (·.isAmong plan.proxiable) = owners
    cases hasked : owners.find? plan.asks with
    | some owner =>
      have htaken : owner.name ∈ plan.names := Plan.asks_iff.mp (List.find?_some hasked)
      have hmem : owner.name ∈ owners.map Subschema.name :=
        List.mem_map_of_mem (List.mem_of_find?_eq_some hasked)
      rw [Option.some_or]
      dsimp only
      rw [Plan.names_delegate, takeChoice_of_mem (List.mem_singleton_self _) htaken,
        takeChoice_of_mem hmem htaken]
    | none =>
      have hnone : ∀ choice ∈ owners.map Subschema.name, choice ∉ plan.names := by
        intro choice hchoice htaken
        obtain ⟨owner, howner, rfl⟩ := List.mem_map.mp hchoice
        exact List.find?_eq_none.mp hasked owner howner (Plan.asks_iff.mpr htaken)
      rw [takeChoice_of_forall_not_mem hnone, Option.none_or]
      cases owners with
      | nil => exact hwait
      | cons first rest =>
        dsimp only [List.head?_cons, List.map_cons]
        rw [Plan.names_delegate, takeChoice_of_forall_not_mem]
        · rfl
        · intro choice hchoice
          rw [List.mem_singleton.mp hchoice]
          exact hnone _ List.mem_cons_self

/-- Routing changes no proxiable target. -/
theorem proxiable_foldl_route (merged : MergedType ρ) (plan : Plan)
    (selections : List Selection) :
    (selections.foldl merged.route plan).proxiable = plan.proxiable :=
  (merged.foldl_route_grows plan selections).proxiable

/-- A plan asks what is taken of the choices of its selections. -/
theorem names_routed (merged : MergedType ρ) (selections : List Selection)
    (sources targets : List Subschema) (first : List Selection) :
    (merged.routed selections sources targets first).names =
      takeAll (first.map (merged.choices
        (targets.filter (merged.isProxiable sources selections)))) := by
  induction first using List.reverseRecOn with
  | nil => rfl
  | append_singleton first last ih =>
    unfold routed at ih ⊢
    rw [List.foldl_append, List.foldl_cons, List.foldl_nil, names_route, ih,
      proxiable_foldl_route, List.map_append, List.map_singleton, takeAll_concat]

/-- Selections in another order have the same proxiable targets. -/
theorem isProxiable_perm (h : selections'.Perm selections) :
    merged.isProxiable sources selections' = merged.isProxiable sources selections := by
  funext target
  rw [Bool.eq_iff_iff, isProxiable_iff, isProxiable_iff]
  constructor
  · exact fun hcan => ⟨hcan.type, fun node hnode => hcan.field node (h.mem_iff.mpr hnode)⟩
  · exact fun hcan => ⟨hcan.type, fun node hnode => hcan.field node (h.mem_iff.mp hnode)⟩

/-- The plan of selections in another order asks what is taken of the same choices in that
order. -/
theorem asks_plan_iff (h : selections'.Perm selections) (subschema : Subschema) :
    (merged.plan selections' sources targets).asks subschema = true ↔
      subschema.name ∈ takeAll (selections'.map (merged.choices
        (targets.filter (merged.isProxiable sources selections)))) := by
  have hnames := merged.names_routed selections' sources targets selections'
  rw [isProxiable_perm h] at hnames
  rw [← hnames]
  exact Plan.asks_iff

/-- A field with a proxiable owner that is asked already makes no other subschema asked. -/
theorem asks_routed_concat {first : List Selection} {node : Field} {owner : Subschema}
    (howns : merged.Owns owner node.name)
    (hcan : owner.isAmong (targets.filter (merged.isProxiable sources selections)) = true)
    (hasks : (merged.routed selections sources targets first).asks owner = true)
    (subschema : Subschema) :
    (merged.routed selections sources targets (first ++ [.field node])).asks subschema =
      (merged.routed selections sources targets first).asks subschema := by
  rw [Plan.asks_iff, names_routed] at hasks
  rw [Bool.eq_iff_iff, Plan.asks_iff, Plan.asks_iff, names_routed, names_routed, List.map_append,
    List.map_singleton, takeAll_concat, choices]
  split_ifs with hname
  · rw [takeChoice_of_forall_not_mem (List.forall_mem_nil _), List.head?_nil, Option.toList_none,
      List.append_nil]
  · have hchoice : owner.name ∈ ((merged.owners node.name).filter (·.isAmong
        (targets.filter (merged.isProxiable sources selections)))).map Subschema.name :=
      List.mem_map_of_mem (List.mem_filter.mpr ⟨mem_owners_iff.mpr howns, hcan⟩)
    rw [takeChoice_of_mem hchoice hasks]

/-- The plans of selections in all orders ask the same subschemas exactly when the first choices
are settled: every subschema that is the first proxiable owner of a field is so for a field that has
no other proxiable owner that comes first for a field. In every order, a field adds no subschema
when one of its proxiable owners is asked in front of it. -/
theorem asks_plan_perm_iff (merged : MergedType ρ) (selections : List Selection)
    (sources targets : List Subschema) :
    ((∀ one other : List Selection, one.Perm selections → other.Perm selections → ∀ subschema,
        (merged.plan one sources targets).asks subschema =
          (merged.plan other sources targets).asks subschema) ↔
      Settled (selections.map (merged.choices
        (targets.filter (merged.Proxiable sources selections ·))))) ∧
    ∀ earlier node, earlier ++ [Selection.field node] <+: selections → ∀ owner,
      merged.Owns owner node.name →
      owner.isAmong (targets.filter (merged.Proxiable sources selections ·)) = true →
      (merged.routed selections sources targets earlier).asks owner = true → ∀ subschema,
        (merged.routed selections sources targets (earlier ++ [.field node])).asks subschema =
          (merged.routed selections sources targets earlier).asks subschema := by
  have hproxiable : targets.filter (merged.Proxiable sources selections ·) =
      targets.filter (merged.isProxiable sources selections) := by
    refine List.filter_congr fun target _ => ?_
    rw [Bool.eq_iff_iff, decide_eq_true_iff]
    exact (merged.isProxiable_iff sources selections target).symm
  rw [hproxiable]
  refine ⟨?_, fun earlier node _ owner howns hcan hasks => asks_routed_concat howns hcan hasks⟩
  rw [← takeAll_perm_iff]
  constructor
  · intro hsame lists lists' hlists hlists' name
    -- Every order of the choices is that of the selections in some order.
    obtain ⟨one, rfl, hone⟩ := (congrFun₂ (List.eq_map_comp_perm _) _ _).mpr hlists
    obtain ⟨other, rfl, hother⟩ := (congrFun₂ (List.eq_map_comp_perm _) _ _).mpr hlists'
    have hasks := hsame one other hone hother
      { name, schema := { types := [], directives := [], roots := [] } }
    rw [Bool.eq_iff_iff, asks_plan_iff hone, asks_plan_iff hother] at hasks
    exact hasks
  · intro hsame one other hone hother subschema
    rw [Bool.eq_iff_iff, asks_plan_iff hone, asks_plan_iff hother]
    exact hsame _ _ (hone.map _) (hother.map _) subschema.name

/-- Items whose name two subschemas declare, and whose price only the second one declares. -/
def itemType : MergedType Unit where
  typeName? := some "Item"
  uniqueFields := [("price", orderSubschema "stock" "price")]
  sharedFields := [("name", [orderSubschema "labels" "name", orderSubschema "stock" "name"])]

/-- The name is asked of its first owner when it is requested in front of the price, although its
other owner is asked for the price, and of that other owner when it is requested behind. -/
theorem asks_plan_item :
    let name := Selection.field { name := "name" }
    let price := Selection.field { name := "price" }
    let targets := [orderSubschema "labels" "name", orderSubschema "stock" "name"]
    [price, name].Perm [name, price] ∧
      (itemType.plan [name, price] [] targets).asks (orderSubschema "labels" "name") = true ∧
      (itemType.plan [price, name] [] targets).asks (orderSubschema "labels" "name") = false ∧
      (itemType.plan [name, price] [] targets).asks (orderSubschema "stock" "name") = true :=
  ⟨List.Perm.swap _ _ _, by decide, by decide, by decide⟩

end MergedType

end Gateway
