import Gateway.Proofs.Transform.Kept
import Gateway.Proofs.Entries

/-!
# Fragments that are reached

Spreads are followed depth first from those that wait. `Explores` is this search without a bound: it
has one outcome (`Explores.unique`), which depends only on what the names that are met lead to
(`Explores.congr`), and it comes out with the names that can be reached (`Explores.mem_iff`). The
bound that the search of a filter starts with is enough for it (`explores_reachWithin`): a step
takes a waiting name away and adds at most what its fragment spreads, which is counted as pending
until the fragment is opened.
-/

namespace Gateway

/-! ## Searching depth first -/

/-- The search from waiting names, with the names that have been reached so far and those at the
end. A known name leads to further ones. -/
inductive Explores (next : Name → Option (List Name)) :
    List Name → List Name → List Name → Prop
  /-- No name waits. -/
  | done {reached : List Name} : Explores next [] reached reached
  /-- A name has been reached already. -/
  | again {name : Name} {waiting reached result : List Name} (mem : name ∈ reached)
    (rest : Explores next waiting reached result) :
    Explores next (name :: waiting) reached result
  /-- A name is not known. -/
  | unknown {name : Name} {waiting reached result : List Name} (fresh : name ∉ reached)
    (unknown : next name = none) (rest : Explores next waiting reached result) :
    Explores next (name :: waiting) reached result
  /-- A name is reached, and what it leads to comes first. -/
  | opened {name : Name} {names waiting reached result : List Name} (fresh : name ∉ reached)
    (known : next name = some names)
    (rest : Explores next (names ++ waiting) (reached ++ [name]) result) :
    Explores next (name :: waiting) reached result

/-- The names that some names lead to, step by step. -/
inductive Reachable (next : Name → Option (List Name)) (start : List Name) : Name → Prop
  /-- The names themselves. -/
  | start {name : Name} (mem : name ∈ start) : Reachable next start name
  /-- What a reachable name leads to. -/
  | step {name other : Name} {names : List Name} (reachable : Reachable next start name)
    (known : next name = some names) (mem : other ∈ names) : Reachable next start other

section Explores

variable {next next' : Name → Option (List Name)} {waiting reached result : List Name}

/-- A search has one outcome. -/
theorem Explores.unique (h : Explores next waiting reached result) {result' : List Name}
    (h' : Explores next waiting reached result') : result = result' := by
  induction h with
  | done =>
    cases h'
    rfl
  | again mem _ ih =>
    cases h' with
    | again _ rest => exact ih rest
    | unknown fresh => exact absurd mem fresh
    | opened fresh => exact absurd mem fresh
  | unknown fresh unknown _ ih =>
    cases h' with
    | again mem => exact absurd mem fresh
    | unknown _ _ rest => exact ih rest
    | opened _ known => exact absurd (unknown.symm.trans known) (by simp)
  | opened fresh known _ ih =>
    cases h' with
    | again mem => exact absurd mem fresh
    | unknown _ unknown => exact absurd (unknown.symm.trans known) (by simp)
    | opened _ known' rest =>
      cases known.symm.trans known'
      exact ih rest

/-- A search depends only on what the names that it meets lead to. -/
theorem Explores.congr (h : Explores next waiting reached result) {P : Name → Prop}
    (hsame : ∀ name, P name → next name = next' name)
    (hclosed : ∀ name, P name → ∀ names, next name = some names → ∀ other ∈ names, P other)
    (hwaiting : ∀ name ∈ waiting, P name) : Explores next' waiting reached result := by
  -- Whatever waits has the property: a name that is opened passes it on to what it leads to.
  induction h with
  | done => exact .done
  | again mem _ ih =>
    exact .again mem (ih fun name hmem => hwaiting name (List.mem_cons_of_mem _ hmem))
  | @unknown name _ _ _ fresh unknown _ ih =>
    have hname : next' name = none := by
      rw [← hsame name (hwaiting name List.mem_cons_self)]
      exact unknown
    exact .unknown fresh hname (ih fun name hmem => hwaiting name (List.mem_cons_of_mem _ hmem))
  | @opened name names _ _ _ fresh known _ ih =>
    have hP := hwaiting name List.mem_cons_self
    have hname : next' name = some names := by
      rw [← hsame name hP]
      exact known
    refine .opened fresh hname (ih fun other hmem => ?_)
    rcases List.mem_append.mp hmem with hmem | hmem
    · exact hclosed name hP names known other hmem
    · exact hwaiting other (List.mem_cons_of_mem _ hmem)

/-- What has been reached stays reached. -/
theorem Explores.subset (h : Explores next waiting reached result) : reached ⊆ result := by
  induction h with
  | done => exact List.Subset.refl _
  | again _ _ ih => exact ih
  | unknown _ _ _ ih => exact ih
  | opened _ _ _ ih => exact fun name hmem => ih (List.mem_append_left _ hmem)

/-- A new name can be reached from the waiting ones, and it is known. -/
theorem Explores.reachable (h : Explores next waiting reached result) {start : List Name}
    (hwaiting : ∀ name ∈ waiting, Reachable next start name)
    (hreached : ∀ name ∈ reached, Reachable next start name ∧ (next name).isSome) :
    ∀ name ∈ result, Reachable next start name ∧ (next name).isSome := by
  induction h with
  | done => exact hreached
  | again _ _ ih =>
    exact ih (fun name hmem => hwaiting name (List.mem_cons_of_mem _ hmem)) hreached
  | unknown _ _ _ ih =>
    exact ih (fun name hmem => hwaiting name (List.mem_cons_of_mem _ hmem)) hreached
  | @opened name names _ _ _ _ known _ ih =>
    have hname := hwaiting name List.mem_cons_self
    refine ih (fun other hmem => ?_) (fun other hmem => ?_)
    · rcases List.mem_append.mp hmem with hmem | hmem
      · exact .step hname known hmem
      · exact hwaiting other (List.mem_cons_of_mem _ hmem)
    · rcases List.mem_append.mp hmem with hmem | hmem
      · exact hreached other hmem
      · rw [List.mem_singleton.mp hmem, known]
        exact ⟨hname, rfl⟩

/-- A known name that waits is reached. -/
theorem Explores.mem_of_waiting (h : Explores next waiting reached result) :
    ∀ name ∈ waiting, (next name).isSome → name ∈ result := by
  induction h with
  | done => exact fun _ hmem => absurd hmem List.not_mem_nil
  | again mem rest ih =>
    intro name hmem hknown
    rcases List.mem_cons.mp hmem with rfl | hmem
    · exact rest.subset mem
    · exact ih name hmem hknown
  | unknown _ unknown _ ih =>
    intro name hmem hknown
    rcases List.mem_cons.mp hmem with rfl | hmem
    · rw [unknown] at hknown
      exact absurd hknown (by simp)
    · exact ih name hmem hknown
  | opened _ _ rest ih =>
    intro name hmem hknown
    rcases List.mem_cons.mp hmem with rfl | hmem
    · exact rest.subset (List.mem_append_right _ List.mem_cons_self)
    · exact ih name (List.mem_append_right _ hmem) hknown

/-- The known names that a new name leads to are reached. -/
theorem Explores.mem_of_opened (h : Explores next waiting reached result) :
    ∀ name ∈ result, name ∉ reached → ∀ names, next name = some names →
      ∀ other ∈ names, (next other).isSome → other ∈ result := by
  induction h with
  | done => exact fun name hmem hnot => absurd hmem hnot
  | again _ _ ih => exact ih
  | unknown _ _ _ ih => exact ih
  | @opened first firstNames _ reached _ _ known rest ih =>
    intro name hmem hnot names hnames other hother hknown
    by_cases hfirst : name = first
    · -- What the opened name leads to waits next, so it is reached in the rest of the search.
      rw [hfirst, known, Option.some.injEq] at hnames
      rw [← hnames] at hother
      exact rest.mem_of_waiting other (List.mem_append_left _ hother) hknown
    · refine ih name hmem (fun h => ?_) names hnames other hother hknown
      rcases List.mem_append.mp h with h | h
      · exact hnot h
      · exact hfirst (List.mem_singleton.mp h)

/-- A search reaches the known names that can be reached. -/
theorem Explores.mem_iff (h : Explores next waiting [] result) {name : Name} :
    name ∈ result ↔ Reachable next waiting name ∧ (next name).isSome := by
  constructor
  · exact h.reachable (fun name hmem => .start hmem)
      (fun name hmem => absurd hmem List.not_mem_nil) name
  · rintro ⟨hreachable, hknown⟩
    -- Step by step from the waiting names: what leads on is known, because it leads somewhere.
    induction hreachable with
    | start mem => exact h.mem_of_waiting _ mem hknown
    | step _ known mem ih =>
      refine h.mem_of_opened _ (ih ?_) List.not_mem_nil _ known _ mem hknown
      rw [known]
      rfl

end Explores

/-! ## The search of a filter -/

/-- Taking away repetitions makes no list longer. -/
theorem length_eraseDups_le (names : List Name) : names.eraseDups.length ≤ names.length := by
  cases names with
  | nil => exact Nat.le_of_eq (congrArg List.length List.eraseDups_nil)
  | cons first rest =>
    have hrest := length_eraseDups_le (rest.filter fun name => !name == first)
    have hle : (rest.filter fun name => !name == first).length ≤ rest.length :=
      List.length_filter_le _ _
    rw [List.eraseDups_cons, List.length_cons, List.length_cons]
    omega
termination_by names.length
decreasing_by
  rw [List.length_cons]
  exact Nat.lt_succ_of_le (List.length_filter_le _ _)

namespace Transform.Filter

/-- The names that a fragment leads to, if it can be spread. -/
def spreadsOf (filter : Filter) (name : Name) : Option (List Name) :=
  (filter.fragments.get? name).map fun definition =>
    (usedFragmentsOfAll (filter.fragment definition).selections).eraseDups

/-- How many names the fragments that have not been reached lead to. -/
def pending (filter : Filter) (entries : Entries Fragment) (reached : List Name) : Nat :=
  ((entries.filter fun entry => !reached.contains entry.1).map fun entry =>
    (usedFragmentsOfAll (filter.fragment entry.2).selections).length).foldr (· + ·) 0

/-- What a fragment leads to is no longer pending once it is reached. -/
theorem pending_append_add_le (filter : Filter) {entries : Entries Fragment}
    {reached : List Name} {name : Name} {definition : Fragment}
    (hfound : entries.get? name = some definition) (hfresh : name ∉ reached) :
    filter.pending entries (reached ++ [name]) +
        (usedFragmentsOfAll (filter.fragment definition).selections).length ≤
      filter.pending entries reached :=
  Entries.totalWithout_concat_add_le
    (fun definition => (usedFragmentsOfAll (filter.fragment definition).selections).length)
    hfound hfresh

/-- The search of a filter is the search along its spreads when the bound is more than all that
waits and is pending. -/
theorem explores_reachWithin (filter : Filter) {fuel : Nat} {waiting reached : List Name}
    (h : waiting.length + filter.pending filter.fragments reached < fuel) :
    Explores filter.spreadsOf waiting reached (filter.reachWithin fuel waiting reached) := by
  induction fuel generalizing waiting reached with
  | zero => exact absurd h (Nat.not_lt_zero _)
  | succ fuel ih =>
    cases waiting with
    | nil =>
      rw [reachWithin]
      exact .done
    | cons name waiting =>
      rw [List.length_cons] at h
      rw [reachWithin]
      by_cases hmem : name ∈ reached
      · rw [if_pos (List.contains_iff_mem.mpr hmem)]
        exact .again hmem (ih (by omega))
      · rw [if_neg fun hcontains => hmem (List.contains_iff_mem.mp hcontains)]
        cases hfound : filter.fragments.get? name with
        | none =>
          have hnone : filter.spreadsOf name = none := by rw [spreadsOf, hfound, Option.map_none]
          exact .unknown hmem hnone (ih (by omega))
        | some definition =>
          have hsome : filter.spreadsOf name =
              some (usedFragmentsOfAll (filter.fragment definition).selections).eraseDups := by
            rw [spreadsOf, hfound, Option.map_some]
          have hpending := filter.pending_append_add_le hfound hmem
          have hlength :=
            length_eraseDups_le (usedFragmentsOfAll (filter.fragment definition).selections)
          refine .opened hmem hsome (ih ?_)
          rw [List.length_append]
          omega

/-- The names of the fragments that are reached from selections. -/
def reachedNames (filter : Filter) (selections : List Selection) : List Name :=
  let start := (usedFragmentsOfAll selections).eraseDups
  filter.reachWithin (filter.reachBound start) start []

/-- They are found by a search from what the selections spread. -/
theorem explores_reachedNames (filter : Filter) (selections : List Selection) :
    Explores filter.spreadsOf (usedFragmentsOfAll selections).eraseDups []
      (filter.reachedNames selections) := by
  refine filter.explores_reachWithin ?_
  have hpending : filter.pending filter.fragments [] =
      (filter.fragments.values.map fun definition =>
        (usedFragmentsOfAll (filter.fragment definition).selections).length).foldr
          (· + ·) 0 :=
    Entries.totalWithout_nil
      (fun definition => (usedFragmentsOfAll (filter.fragment definition).selections).length) _
  rw [hpending]
  exact Nat.lt_succ_self _

/-- What is reached are the fragments of the reached names, as the filter leaves them. -/
theorem mem_reached_iff (filter : Filter) {selections : List Selection} {fragment : Fragment} :
    fragment ∈ filter.reached selections ↔ ∃ name ∈ filter.reachedNames selections,
      ∃ definition, filter.fragments.get? name = some definition ∧
        filter.fragment definition = fragment := by
  unfold reached reachedNames
  simp only [List.mem_filterMap, Option.map_eq_some_iff]

/-- What is left of a selection spreads only fragments that can be spread. -/
theorem Leaves.exists_spread {filter : Filter} {parent : Name} {selection kept : Selection}
    (h : filter.Leaves parent selection kept) :
    ∀ name ∈ usedFragments kept, ∃ definition, filter.fragments.get? name = some definition := by
  induction selection using Selection.nestedInduction generalizing parent kept with
  | field node ih =>
    cases h with
    | typename named =>
      rw [usedFragments_field, if_pos named]
      exact fun _ hname => absurd hname List.not_mem_nil
    | leaf named =>
      rw [usedFragments_field, if_neg named]
      exact fun _ hname => absurd hname List.not_mem_nil
    | composite named =>
      rw [usedFragments_field, if_neg named]
      intro name hname
      obtain ⟨inner, hmem, kept, hleaves, hname⟩ := exists_leaves_of_spread hname
      exact ih inner hmem hleaves name hname
  | spread fragment directives =>
    cases h with
    | spread found =>
      intro name hname
      rw [usedFragments, List.mem_singleton] at hname
      rw [hname]
      exact ⟨_, found⟩
  | inline condition directives selections ih =>
    cases h with
    | inline =>
      rw [usedFragments]
      intro name hname
      obtain ⟨inner, hmem, kept, hleaves, hname⟩ := exists_leaves_of_spread hname
      exact ih inner hmem hleaves name hname

/-- What is left of selections spreads only fragments that can be spread. -/
theorem exists_spread_filterAll (filter : Filter) {parent : Name} {selections : List Selection}
    {name : Name} (hname : name ∈ usedFragmentsOfAll (filter.filterAll parent selections)) :
    ∃ definition, filter.fragments.get? name = some definition := by
  obtain ⟨selection, -, kept, hleaves, hname⟩ := exists_leaves_of_spread hname
  exact hleaves.exists_spread name hname

/-- The fragments that are left of selections spread are reached. -/
theorem mem_reachedNames_of_spread (filter : Filter) {parent : Name} {selections : List Selection}
    {name : Name} (hname : name ∈ usedFragmentsOfAll (filter.filterAll parent selections)) :
    name ∈ filter.reachedNames (filter.filterAll parent selections) := by
  obtain ⟨definition, hfound⟩ := filter.exists_spread_filterAll hname
  refine (filter.explores_reachedNames _).mem_of_waiting name (List.mem_eraseDups.mpr hname) ?_
  rw [spreadsOf, hfound]
  rfl

/-- The fragments that a reached fragment spreads are reached. -/
theorem mem_reachedNames_of_fragment (filter : Filter) {selections : List Selection}
    {name other : Name} (hname : name ∈ filter.reachedNames selections) {definition : Fragment}
    (hfound : filter.fragments.get? name = some definition)
    (hother : other ∈ usedFragmentsOfAll (filter.fragment definition).selections) :
    other ∈ filter.reachedNames selections := by
  obtain ⟨otherDefinition, hotherFound⟩ := filter.exists_spread_filterAll hother
  refine (filter.explores_reachedNames selections).mem_of_opened name hname List.not_mem_nil _ ?_
    other (List.mem_eraseDups.mpr hother) ?_
  · rw [spreadsOf, hfound, Option.map_some]
  · rw [spreadsOf, hotherFound]
    rfl

end Transform.Filter

end Gateway
