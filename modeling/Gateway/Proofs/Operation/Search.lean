import Gateway.Language.Name
import Mathlib.Algebra.Order.Group.Multiset
import Mathlib.Data.List.Dedup
import Mathlib.Tactic.Abel

/-!
# Depth-first search with a visited set

A search takes steps in order: it finds a node, or it follows a fragment, whose steps come before
the rest. A fragment that was visited before is passed over wherever it stands, also far from where
it was visited. `Visits` is this search without a bound.

What is left out by it is nowhere missed. A visited fragment whose steps are not being taken any
more has all of them taken (`Exhausted`), so a search from nothing finds every node to which its
steps lead (`Visits.mem_iff`). It takes the steps of a fragment once (`Visits.perm`). The keys of
its nodes first occur in the order in which they do when fragments are followed again and again,
unless they are open already (`Unfolds`, `Visits.eraseDups_eq`).
-/

namespace Gateway

/-! ## The search -/

/-- A step of a search. -/
inductive Step (α : Type)
  /-- A node is found. -/
  | node (node : α)
  /-- A fragment is to be followed. -/
  | follow (fragment : Name)

namespace Step

variable {α : Type}

/-- The node that a step finds. -/
def node? : Step α → Option α
  | .node item => some item
  | .follow _ => none

/-- A step has been taken: its node is found, or its fragment is visited. -/
def Taken (found : List α) (visited : List Name) : Step α → Prop
  | .node item => item ∈ found
  | .follow fragment => fragment ∈ visited

/-- A step that has been taken stays taken. -/
theorem Taken.mono {found more : List α} {visited others : List Name} {step : Step α}
    (h : step.Taken found visited) (hfound : found ⊆ more) (hvisited : visited ⊆ others) :
    step.Taken more others := by
  cases step with
  | node node => exact hfound h
  | follow fragment => exact hvisited h

end Step

/-- The nodes that steps find without following a fragment. -/
def nodesOf {α : Type} (steps : List (Step α)) : List α :=
  steps.filterMap Step.node?

/-- No step finds no node. -/
theorem nodesOf_nil {α : Type} : nodesOf ([] : List (Step α)) = [] :=
  rfl

/-- Following a fragment finds no node by itself. -/
theorem nodesOf_follow {α : Type} (fragment : Name) (steps : List (Step α)) :
    nodesOf (.follow fragment :: steps) = nodesOf steps :=
  rfl

/-- A search takes steps, with the fragments that are visited before, the nodes that it finds and
the fragments that are visited in the end. A fragment is blocked when it has no steps to follow. -/
inductive Visits {α : Type} (next? : Name → Option (List (Step α))) :
    List (Step α) → List Name → List α → List Name → Prop
  /-- No step is left. -/
  | done {visited : List Name} : Visits next? [] visited [] visited
  /-- A node is found. -/
  | node {node : α} {steps : List (Step α)} {visited visited' : List Name} {found : List α}
    (rest : Visits next? steps visited found visited') :
    Visits next? (.node node :: steps) visited (node :: found) visited'
  /-- A fragment was visited before. -/
  | again {fragment : Name} {steps : List (Step α)} {visited visited' : List Name}
    {found : List α} (mem : fragment ∈ visited)
    (rest : Visits next? steps visited found visited') :
    Visits next? (.follow fragment :: steps) visited found visited'
  /-- A fragment is visited, but not followed. -/
  | blocked {fragment : Name} {steps : List (Step α)} {visited visited' : List Name}
    {found : List α} (fresh : fragment ∉ visited) (blocked : next? fragment = none)
    (rest : Visits next? steps (fragment :: visited) found visited') :
    Visits next? (.follow fragment :: steps) visited found visited'
  /-- A fragment is visited, and its steps are taken first. -/
  | follow {fragment : Name} {inner steps : List (Step α)}
    {visited between visited' : List Name} {found more : List α} (fresh : fragment ∉ visited)
    (opened : next? fragment = some inner)
    (within : Visits next? inner (fragment :: visited) found between)
    (rest : Visits next? steps between more visited') :
    Visits next? (.follow fragment :: steps) visited (found ++ more) visited'

/-- Steps lead to a node, themselves or through fragments. -/
inductive Leads {α : Type} (next? : Name → Option (List (Step α))) (node : α) :
    List (Step α) → Prop
  /-- A step finds the node. -/
  | here {steps : List (Step α)} (mem : .node node ∈ steps) : Leads next? node steps
  /-- The steps of a fragment lead to the node. -/
  | follow {fragment : Name} {inner steps : List (Step α)} (mem : .follow fragment ∈ steps)
    (opened : next? fragment = some inner) (within : Leads next? node inner) :
    Leads next? node steps

section Visits

variable {α : Type} {next? : Name → Option (List (Step α))} {steps others : List (Step α)}
  {visited visited' : List Name} {found : List α} {node : α}

/-- A search has one outcome. -/
theorem Visits.unique (h : Visits next? steps visited found visited') {found' : List α}
    {visited'' : List Name} (h' : Visits next? steps visited found' visited'') :
    found = found' ∧ visited' = visited'' := by
  induction h generalizing found' visited'' with
  | done =>
    cases h'
    exact ⟨rfl, rfl⟩
  | node _ ih =>
    cases h' with
    | node rest =>
      obtain ⟨rfl, rfl⟩ := ih rest
      exact ⟨rfl, rfl⟩
  | again mem _ ih =>
    cases h' with
    | again _ rest => exact ih rest
    | blocked fresh => exact absurd mem fresh
    | follow fresh => exact absurd mem fresh
  | blocked fresh blocked _ ih =>
    cases h' with
    | again mem => exact absurd mem fresh
    | blocked _ _ rest => exact ih rest
    | follow _ opened => exact absurd (blocked.symm.trans opened) (by simp)
  | follow fresh opened _ _ ihwithin ihrest =>
    cases h' with
    | again mem => exact absurd mem fresh
    | blocked _ blocked => exact absurd (blocked.symm.trans opened) (by simp)
    | follow _ opened' within rest =>
      cases opened.symm.trans opened'
      obtain ⟨rfl, rfl⟩ := ihwithin within
      obtain ⟨rfl, rfl⟩ := ihrest rest
      exact ⟨rfl, rfl⟩

/-- What is visited stays visited. -/
theorem Visits.subset (h : Visits next? steps visited found visited') : visited ⊆ visited' := by
  induction h with
  | done => exact List.Subset.refl _
  | node _ ih => exact ih
  | again _ _ ih => exact ih
  | blocked _ _ _ ih => exact fun name hmem => ih (List.mem_cons_of_mem _ hmem)
  | follow _ _ _ _ ihwithin ihrest =>
    exact fun name hmem => ihrest (ihwithin (List.mem_cons_of_mem _ hmem))

/-- No fragment is visited twice. -/
theorem Visits.nodup (h : Visits next? steps visited found visited') (hvisited : visited.Nodup) :
    visited'.Nodup := by
  induction h with
  | done => exact hvisited
  | node _ ih => exact ih hvisited
  | again _ _ ih => exact ih hvisited
  | blocked fresh _ _ ih => exact ih (List.nodup_cons.mpr ⟨fresh, hvisited⟩)
  | follow fresh _ _ _ ihwithin ihrest =>
    exact ihrest (ihwithin (List.nodup_cons.mpr ⟨fresh, hvisited⟩))

/-- A search goes on where another one ended. -/
theorem Visits.append (h : Visits next? steps visited found visited') {more : List α}
    {visited'' : List Name} (h' : Visits next? others visited' more visited'') :
    Visits next? (steps ++ others) visited (found ++ more) visited'' := by
  induction h with
  | done => exact h'
  | node _ ih => exact .node (ih h')
  | again mem _ ih => exact .again mem (ih h')
  | blocked fresh blocked _ ih => exact .blocked fresh blocked (ih h')
  | follow fresh opened within _ _ ih =>
    rw [List.append_assoc]
    exact .follow fresh opened within (ih h')

/-- More steps lead to all that steps lead to. -/
theorem Leads.mono (h : Leads next? node steps) (hsub : steps ⊆ others) :
    Leads next? node others := by
  cases h with
  | here mem => exact .here (hsub mem)
  | follow mem opened within => exact .follow (hsub mem) opened within

/-- What a search finds, its steps lead to. -/
theorem Visits.leads (h : Visits next? steps visited found visited') :
    ∀ node ∈ found, Leads next? node steps := by
  induction h with
  | done => exact fun node hmem => absurd hmem List.not_mem_nil
  | node _ ih =>
    refine List.forall_mem_cons.mpr ⟨.here List.mem_cons_self, fun node hmem => ?_⟩
    exact (ih node hmem).mono (List.subset_cons_self _ _)
  | again _ _ ih => exact fun node hmem => (ih node hmem).mono (List.subset_cons_self _ _)
  | blocked _ _ _ ih => exact fun node hmem => (ih node hmem).mono (List.subset_cons_self _ _)
  | follow _ opened _ _ ihwithin ihrest =>
    intro node hmem
    rcases List.mem_append.mp hmem with hmem | hmem
    · exact .follow List.mem_cons_self opened (ihwithin node hmem)
    · exact (ihrest node hmem).mono (List.subset_cons_self _ _)

/-! ## What a search does not miss -/

/-- The visited fragments that are not open any more have all their steps taken. -/
def Exhausted (next? : Name → Option (List (Step α))) (above : List Name) (found : List α)
    (visited : List Name) : Prop :=
  ∀ fragment ∈ visited, fragment ∉ above → ∀ inner, next? fragment = some inner →
    ∀ step ∈ inner, step.Taken found visited

section Exhausted

variable {above : List Name} {before : List α}

/-- In the beginning nothing is visited. -/
theorem exhausted_nil (above : List Name) (before : List α) : Exhausted next? above before [] :=
  fun _ hmem => absurd hmem List.not_mem_nil

/-- More nodes may be found. -/
theorem Exhausted.mono (h : Exhausted next? above before visited) {more : List α}
    (hsub : before ⊆ more) : Exhausted next? above more visited :=
  fun fragment hmem hclosed inner hinner step hstep =>
    (h fragment hmem hclosed inner hinner step hstep).mono hsub (List.Subset.refl _)

/-- A blocked fragment may be visited. -/
theorem Exhausted.blocked (h : Exhausted next? above before visited) {fragment : Name}
    (hblocked : next? fragment = none) :
    Exhausted next? above before (fragment :: visited) := by
  intro other hmem hclosed inner hinner step hstep
  rcases List.mem_cons.mp hmem with rfl | hmem
  · exact absurd (hblocked.symm.trans hinner) (by simp)
  · exact (h other hmem hclosed inner hinner step hstep).mono (List.Subset.refl _)
      (List.subset_cons_self _ _)

/-- A fragment may be opened. -/
theorem Exhausted.opened (h : Exhausted next? above before visited) (fragment : Name) :
    Exhausted next? (fragment :: above) before (fragment :: visited) := by
  intro other hmem hclosed inner hinner step hstep
  obtain ⟨hother, hclosed⟩ := not_or.mp (mt List.mem_cons.mpr hclosed)
  rcases List.mem_cons.mp hmem with rfl | hmem
  · exact absurd rfl hother
  · exact (h other hmem hclosed inner hinner step hstep).mono (List.Subset.refl _)
      (List.subset_cons_self _ _)

/-- A fragment may be closed when its steps are taken. -/
theorem Exhausted.closed {fragment : Name} {inner : List (Step α)}
    (h : Exhausted next? (fragment :: above) before visited)
    (hopened : next? fragment = some inner)
    (htaken : ∀ step ∈ inner, step.Taken before visited) :
    Exhausted next? above before visited := by
  intro other hmem hclosed inner' hinner step hstep
  by_cases hother : other = fragment
  · rw [hother, hopened, Option.some.injEq] at hinner
    rw [← hinner] at hstep
    exact htaken step hstep
  · have houtside : other ∉ fragment :: above :=
      fun hmem => (List.mem_cons.mp hmem).elim hother hclosed
    exact h other hmem houtside inner' hinner step hstep

/-- A search takes all its steps, and leaves no fragment that it closes with a step to take. -/
theorem Visits.exhausted (h : Visits next? steps visited found visited')
    (hexhausted : Exhausted next? above before visited) :
    Exhausted next? above (before ++ found) visited' ∧
      ∀ step ∈ steps, step.Taken (before ++ found) visited' := by
  induction h generalizing above before with
  | done =>
    rw [List.append_nil]
    exact ⟨hexhausted, fun step hmem => absurd hmem List.not_mem_nil⟩
  | @node node _ _ _ found _ ih =>
    obtain ⟨hexhausted, htaken⟩ := ih (hexhausted.mono (List.subset_append_left before [node]))
    rw [List.append_assoc, List.singleton_append] at hexhausted htaken
    refine ⟨hexhausted, List.forall_mem_cons.mpr ⟨?_, htaken⟩⟩
    exact List.mem_append_right _ List.mem_cons_self
  | again mem rest ih =>
    obtain ⟨hexhausted, htaken⟩ := ih hexhausted
    exact ⟨hexhausted, List.forall_mem_cons.mpr ⟨rest.subset mem, htaken⟩⟩
  | blocked _ blocked rest ih =>
    obtain ⟨hexhausted, htaken⟩ := ih (hexhausted.blocked blocked)
    exact ⟨hexhausted, List.forall_mem_cons.mpr ⟨rest.subset List.mem_cons_self, htaken⟩⟩
  | @follow fragment _ _ _ _ _ _ _ _ opened within rest ihwithin ihrest =>
    -- The fragment is open only while its own steps are taken. For what follows it is closed, so
    -- it may be passed over there.
    obtain ⟨hwithin, hinner⟩ := ihwithin (hexhausted.opened fragment)
    obtain ⟨hexhausted, htaken⟩ := ihrest (hwithin.closed opened hinner)
    rw [List.append_assoc] at hexhausted htaken
    refine ⟨hexhausted, List.forall_mem_cons.mpr ⟨?_, htaken⟩⟩
    exact rest.subset (within.subset List.mem_cons_self)

/-- When nothing is open, steps that are taken lead only to nodes that are found. -/
theorem Exhausted.mem_of_leads (h : Exhausted next? [] before visited)
    (hleads : Leads next? node steps) (htaken : ∀ step ∈ steps, step.Taken before visited) :
    node ∈ before := by
  induction hleads with
  | here mem => exact htaken _ mem
  | follow mem opened _ ih =>
    exact ih (h _ (htaken _ mem) List.not_mem_nil _ opened)

end Exhausted

/-- A search from nothing finds the nodes to which its steps lead. -/
theorem Visits.mem_iff (h : Visits next? steps [] found visited') :
    node ∈ found ↔ Leads next? node steps := by
  constructor
  · exact h.leads node
  · intro hleads
    obtain ⟨hexhausted, htaken⟩ := h.exhausted (exhausted_nil [] [])
    exact hexhausted.mem_of_leads hleads htaken

/-! ## What a search takes once -/

/-- The steps that find the nodes of a search are its own, and those of the fragments that it
visits, each once. -/
theorem Visits.exists_perm (h : Visits next? steps visited found visited') :
    ∃ new, visited' = new ++ visited ∧
      found.Perm (nodesOf steps ++ new.flatMap fun name => nodesOf ((next? name).getD [])) := by
  induction h with
  | done => exact ⟨[], rfl, .refl _⟩
  | node _ ih =>
    obtain ⟨new, hnew, hperm⟩ := ih
    exact ⟨new, hnew, hperm.cons _⟩
  | again _ _ ih => exact ih
  | @blocked fragment _ _ _ _ _ blocked _ ih =>
    obtain ⟨new, hnew, hperm⟩ := ih
    refine ⟨new ++ [fragment], by rw [hnew, List.append_assoc, List.singleton_append], ?_⟩
    rw [nodesOf_follow, List.flatMap_append, List.flatMap_singleton, blocked, Option.getD_none,
      nodesOf_nil, List.append_nil]
    exact hperm
  | @follow fragment inner steps _ _ _ _ _ _ opened _ _ ihwithin ihrest =>
    obtain ⟨first, hfirst, hwithin⟩ := ihwithin
    obtain ⟨new, hnew, hrest⟩ := ihrest
    -- The search finds the nodes of the fragment before those of the steps behind it, and the
    -- fragment is visited before those that its steps spread.
    refine ⟨new ++ (first ++ [fragment]), by simp [hnew, hfirst], ?_⟩
    rw [nodesOf_follow, List.flatMap_append, List.flatMap_append, List.flatMap_singleton, opened,
      Option.getD_some]
    refine (hwithin.append hrest).trans (Multiset.coe_eq_coe.mp ?_)
    simp only [← Multiset.coe_add]
    abel

/-- The nodes of a search from nothing are those of its own steps and those of the fragments that it
visits, and no fragment is visited twice. -/
theorem Visits.perm (h : Visits next? steps [] found visited') :
    visited'.Nodup ∧
      found.Perm
        (nodesOf steps ++ visited'.flatMap fun name => nodesOf ((next? name).getD [])) := by
  obtain ⟨new, hnew, hperm⟩ := h.exists_perm
  rw [List.append_nil] at hnew
  exact ⟨h.nodup List.nodup_nil, hnew ▸ hperm⟩

end Visits

/-! ## Where a search would pass without its visited set -/

/-- Steps list nodes when every fragment is followed, unless it is open already. -/
inductive Unfolds {α : Type} (next? : Name → Option (List (Step α))) :
    List Name → List (Step α) → List α → Prop
  /-- No step is left. -/
  | done {above : List Name} : Unfolds next? above [] []
  /-- A node is listed. -/
  | node {above : List Name} {node : α} {steps : List (Step α)} {listed : List α}
    (rest : Unfolds next? above steps listed) :
    Unfolds next? above (.node node :: steps) (node :: listed)
  /-- A fragment is open already. -/
  | within {above : List Name} {fragment : Name} {steps : List (Step α)} {listed : List α}
    (mem : fragment ∈ above) (rest : Unfolds next? above steps listed) :
    Unfolds next? above (.follow fragment :: steps) listed
  /-- A fragment is not followed. -/
  | blocked {above : List Name} {fragment : Name} {steps : List (Step α)} {listed : List α}
    (outside : fragment ∉ above) (blocked : next? fragment = none)
    (rest : Unfolds next? above steps listed) :
    Unfolds next? above (.follow fragment :: steps) listed
  /-- A fragment is opened, and its nodes are listed first. -/
  | follow {above : List Name} {fragment : Name} {inner steps : List (Step α)}
    {listed more : List α} (outside : fragment ∉ above) (opened : next? fragment = some inner)
    (inside : Unfolds next? (fragment :: above) inner listed)
    (rest : Unfolds next? above steps more) :
    Unfolds next? above (.follow fragment :: steps) (listed ++ more)

/-- How many of the known names are not among the given ones. -/
def unseen (known names : List Name) : Nat :=
  (known.filter (· ∉ names)).length

/-- Among more names fewer known ones are missing. -/
theorem unseen_le {known names others : List Name} (hsub : names ⊆ others) :
    unseen known others ≤ unseen known names := by
  refine (List.monotone_filter_right known fun name h => ?_).length_le
  exact decide_eq_true fun hmem => of_decide_eq_true h (hsub hmem)

/-- One known name less is missing when it is added. -/
theorem unseen_cons_lt {known names : List Name} {name : Name} (hknown : name ∈ known)
    (hfresh : name ∉ names) : unseen known (name :: names) < unseen known names := by
  have hsub : unseen known (name :: names) =
      ((known.filter (· ∉ names)).filter (· ≠ name)).length := by
    unfold unseen
    rw [List.filter_filter]
    congr 1
    refine List.filter_congr fun other _ => ?_
    simp [List.mem_cons]
  rw [hsub]
  refine List.length_filter_lt_length_iff_exists.mpr ⟨name, ?_, by simp⟩
  exact List.mem_filter.mpr ⟨hknown, decide_eq_true hfresh⟩

section Unfolds

variable {α : Type} {next? : Name → Option (List (Step α))} {steps : List (Step α)}
  {above visited visited' : List Name} {before found listed : List α}

/-- Steps list nodes in one way. -/
theorem Unfolds.unique (h : Unfolds next? above steps listed) {listed' : List α}
    (h' : Unfolds next? above steps listed') : listed = listed' := by
  induction h generalizing listed' with
  | done =>
    cases h'
    rfl
  | node _ ih =>
    cases h' with
    | node rest => rw [ih rest]
  | within mem _ ih =>
    cases h' with
    | within _ rest => exact ih rest
    | blocked outside => exact absurd mem outside
    | follow outside => exact absurd mem outside
  | blocked outside blocked _ ih =>
    cases h' with
    | within mem => exact absurd mem outside
    | blocked _ _ rest => exact ih rest
    | follow _ opened => exact absurd (blocked.symm.trans opened) (by simp)
  | follow outside opened _ _ ihinside ihrest =>
    cases h' with
    | within mem => exact absurd mem outside
    | blocked _ blocked => exact absurd (blocked.symm.trans opened) (by simp)
    | follow _ opened' inside rest =>
      cases opened.symm.trans opened'
      rw [ihinside inside, ihrest rest]

/-- Steps list nodes however fragments follow each other when only known fragments have steps: a
fragment that is opened is missing above from then on. -/
theorem exists_unfolds {known : List Name}
    (hknown : ∀ fragment, (next? fragment).isSome → fragment ∈ known) (above : List Name)
    (steps : List (Step α)) : ∃ listed, Unfolds next? above steps listed := by
  -- Inside a fragment less is missing above. Behind it as much is missing as before, so there the
  -- induction is on the steps.
  induction hbound : unseen known above using Nat.strong_induction_on generalizing above steps with
  | _ bound ihbound =>
    induction steps with
    | nil => exact ⟨[], .done⟩
    | cons step rest ih =>
      obtain ⟨more, hmore⟩ := ih
      cases step with
      | node node => exact ⟨node :: more, .node hmore⟩
      | follow fragment =>
        by_cases hmem : fragment ∈ above
        · exact ⟨more, .within hmem hmore⟩
        · cases hnext : next? fragment with
          | none => exact ⟨more, .blocked hmem hnext hmore⟩
          | some inner =>
            have hlt : unseen known (fragment :: above) < bound := by
              rw [← hbound]
              exact unseen_cons_lt (hknown fragment (hnext ▸ rfl)) hmem
            obtain ⟨listed, hlisted⟩ := ihbound _ hlt (fragment :: above) inner rfl
            exact ⟨listed ++ more, .follow hmem hnext hlisted hmore⟩

/-- Steps that are taken list only nodes that are found when all that is open is above. -/
theorem Exhausted.subset_of_unfolds (h : Exhausted next? above before visited) {others : List Name}
    (hunfolds : Unfolds next? others steps listed) (hsub : above ⊆ others)
    (htaken : ∀ step ∈ steps, step.Taken before visited) : listed ⊆ before := by
  induction hunfolds with
  | done => exact List.nil_subset _
  | node _ ih =>
    obtain ⟨hnode, hrest⟩ := List.forall_mem_cons.mp htaken
    exact List.cons_subset.mpr ⟨hnode, ih hsub hrest⟩
  | within _ _ ih => exact ih hsub (List.forall_mem_cons.mp htaken).2
  | blocked _ _ _ ih => exact ih hsub (List.forall_mem_cons.mp htaken).2
  | follow outside opened _ _ ihinside ihrest =>
    obtain ⟨hvisited, hrest⟩ := List.forall_mem_cons.mp htaken
    have hinner := h _ hvisited (fun hmem => outside (hsub hmem)) _ opened
    exact List.append_subset.mpr
      ⟨ihinside (fun name hmem => List.mem_cons_of_mem _ (hsub hmem)) hinner, ihrest hsub hrest⟩

end Unfolds

/-! ## The order of keys -/

/-- The keys of nodes first occur in the same order. -/
def SameOrder {α : Type} (key : α → Name) (nodes others : List α) : Prop :=
  (nodes.map key).eraseDups = (others.map key).eraseDups

section SameOrder

variable {α : Type} {key : α → Name} {nodes others : List α}

/-- The same nodes may follow. -/
theorem SameOrder.append (h : SameOrder key nodes others) (more : List α) :
    SameOrder key (nodes ++ more) (others ++ more) := by
  unfold SameOrder at h ⊢
  have hmem : ∀ name, name ∈ nodes.map key ↔ name ∈ others.map key := by
    intro name
    rw [← List.mem_eraseDups, h, List.mem_eraseDups]
  have hremove : (more.map key).removeAll (nodes.map key) =
      (more.map key).removeAll (others.map key) := by
    refine List.filter_congr fun name _ => ?_
    simp only [List.elem_eq_mem, hmem]
  rw [List.map_append, List.map_append, List.eraseDups_append, List.eraseDups_append, h, hremove]

/-- Nodes that occur already add no key. -/
theorem sameOrder_append_of_subset (key : α → Name) (hsub : others ⊆ nodes) :
    SameOrder key (nodes ++ others) nodes := by
  unfold SameOrder
  have hremove : (others.map key).removeAll (nodes.map key) = [] := by
    refine List.filter_eq_nil_iff.mpr fun name hname => ?_
    obtain ⟨node, hnode, rfl⟩ := List.mem_map.mp hname
    simpa using ⟨node, hsub hnode, rfl⟩
  rw [List.map_append, List.eraseDups_append, hremove, List.eraseDups_nil, List.append_nil]

end SameOrder

section Order

variable {α : Type} {next? : Name → Option (List (Step α))} {steps : List (Step α)}
  {above visited visited' : List Name} {before found listed : List α}

/-- What a search finds brings keys in the order in which its steps list them. -/
theorem Visits.sameOrder (key : α → Name) (h : Visits next? steps visited found visited')
    (hunfolds : Unfolds next? above steps listed) (hopen : above ⊆ visited)
    (hexhausted : Exhausted next? above before visited) :
    SameOrder key (before ++ found) (before ++ listed) := by
  -- What is open has been visited. So where the search passes over a fragment that is listed again,
  -- the fragment is exhausted, and all its nodes were found before.
  induction h generalizing above before listed with
  | done =>
    cases hunfolds
    rfl
  | @node node _ _ _ _ _ ih =>
    cases hunfolds with
    | node rest =>
      have hnode := ih rest hopen (hexhausted.mono (List.subset_append_left before [node]))
      rw [List.append_assoc, List.append_assoc] at hnode
      exact hnode
  | again mem _ ih =>
    cases hunfolds with
    | within _ rest => exact ih rest hopen hexhausted
    | blocked _ _ rest => exact ih rest hopen hexhausted
    | follow outside opened inside rest =>
      have hlisted := hexhausted.subset_of_unfolds inside (List.subset_cons_self _ _)
        (hexhausted _ mem outside _ opened)
      have hpassed := (sameOrder_append_of_subset key hlisted).append
      rw [← List.append_assoc]
      exact (ih rest hopen hexhausted).trans (hpassed _).symm
  | @blocked fragment _ _ _ _ fresh blocked _ ih =>
    have hvisited := List.Subset.trans hopen (List.subset_cons_self fragment _)
    cases hunfolds with
    | within mem => exact absurd (hopen mem) fresh
    | blocked _ _ rest => exact ih rest hvisited (hexhausted.blocked blocked)
    | follow _ opened => exact absurd (blocked.symm.trans opened) (by simp)
  | @follow fragment _ _ _ _ _ found _ fresh opened within _ ihwithin ihrest =>
    cases hunfolds with
    | within mem => exact absurd (hopen mem) fresh
    | blocked _ blocked => exact absurd (blocked.symm.trans opened) (by simp)
    | follow _ opened' inside rest =>
      cases opened.symm.trans opened'
      have hfirst := ihwithin inside (List.cons_subset_cons fragment hopen)
        (hexhausted.opened fragment)
      obtain ⟨hwithin, hinner⟩ := within.exhausted (hexhausted.opened fragment)
      have hbetween := List.Subset.trans hopen
        (List.Subset.trans (List.subset_cons_self fragment _) within.subset)
      have hlast := ihrest rest hbetween (hwithin.closed opened hinner)
      rw [← List.append_assoc, ← List.append_assoc]
      exact hlast.trans (hfirst.append _)

/-- The keys of the nodes of a search from nothing stand in the order of the first node of each when
fragments are followed again and again. -/
theorem Visits.eraseDups_eq (key : α → Name) (h : Visits next? steps [] found visited')
    (hunfolds : Unfolds next? [] steps listed) :
    (found.map key).eraseDups = (listed.map key).eraseDups :=
  h.sameOrder key hunfolds (List.nil_subset _) (exhausted_nil [] [])

end Order

end Gateway
