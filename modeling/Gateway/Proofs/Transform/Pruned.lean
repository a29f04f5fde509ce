import Gateway.Proofs.Entries
import Gateway.Proofs.Transform.Kept
import Gateway.Schema.Builtin
import Mathlib.Data.List.Nodup

/-!
# Fragments that keep selections

The fragments of a filter are found in rounds (`PrunesIn`). Each round drops the fragments of which
nothing is left when only the present ones can be spread, and when none is dropped the others are
kept.

With more fragments to spread, no less is left (`left_of_subset`). So fragments that sustain each
other (`Sustained`), be it in a cycle of spreads, stay through every round
(`PrunesIn.subset_of_sustained`), and what is kept at the end is the largest sustained part of what
was given (`isLargestSustained_prune`). That part does not depend on the order of the fragments.
-/

namespace Gateway.Transform.Filter

variable {schema : Schema} {fragments others kept : Entries Fragment}

/-! ## One round -/

/-- A fragment is kept in a round when something is left of it. -/
theorem mem_nonEmpty_iff {entry : Name × Fragment} :
    entry ∈ nonEmpty schema fragments ↔ entry ∈ fragments ∧
      (Filter.mk schema fragments).filterAll entry.2.condition entry.2.selections ≠ [] := by
  unfold nonEmpty
  rw [List.mem_filter, Bool.not_eq_true', List.isEmpty_eq_false_iff]
  rfl

/-- Fragments that sustain each other: something is left of each when only they can be spread. -/
def Sustained (schema : Schema) (fragments : Entries Fragment) : Prop :=
  ∀ entry ∈ fragments,
    (Filter.mk schema fragments).filterAll entry.2.condition entry.2.selections ≠ []

/-- Whether fragments sustain each other can be checked one by one. -/
instance (schema : Schema) (fragments : Entries Fragment) :
    Decidable (Sustained schema fragments) :=
  inferInstanceAs (Decidable (∀ entry ∈ fragments,
    (Filter.mk schema fragments).filterAll entry.2.condition entry.2.selections ≠ []))

/-- Fragments sustain each other exactly when a round drops none of them. -/
theorem sustained_iff : Sustained schema fragments ↔ nonEmpty schema fragments = fragments := by
  constructor
  · intro h
    refine List.filter_eq_self.mpr fun entry hmem => ?_
    exact (List.mem_filter.mp (mem_nonEmpty_iff.mpr ⟨hmem, h entry hmem⟩)).2
  · intro h entry hmem
    rw [← h] at hmem
    exact (mem_nonEmpty_iff.mp hmem).2

/-- A round keeps as many fragments as there are exactly when they sustain each other. -/
theorem sustained_iff_length :
    Sustained schema fragments ↔ (nonEmpty schema fragments).length = fragments.length := by
  rw [sustained_iff]
  constructor
  · exact congrArg List.length
  · exact fun h => List.filter_eq_self.mpr (List.length_filter_eq_length_iff.mp h)

/-- Among fragments of different names those of a part are alike. -/
theorem hasAlike_of_subset (h : others ⊆ fragments) (hdistinct : fragments.keys.Nodup)
    (name : Name) : HasAlike others fragments name := by
  intro definition hfound
  exact ⟨definition, Entries.get?_of_mem hdistinct (h (Entries.mem_of_get? hfound)), rfl⟩

/-- What is left with a part of the fragments is left with all of them. -/
theorem left_of_subset (h : others ⊆ fragments) (hdistinct : fragments.keys.Nodup) {parent : Name}
    {selections : List Selection}
    (hleft : (Filter.mk schema others).filterAll parent selections ≠ []) :
    (Filter.mk schema fragments).filterAll parent selections ≠ [] :=
  fun hempty => hleft (filterAll_eq_nil_of_alike (hasAlike_of_subset h hdistinct) hempty)

/-- A round keeps every part that is sustained. -/
theorem Sustained.subset_nonEmpty (hsustained : Sustained schema others)
    (hdistinct : fragments.keys.Nodup) (h : others ⊆ fragments) :
    others ⊆ nonEmpty schema fragments := by
  intro entry hmem
  exact mem_nonEmpty_iff.mpr
    ⟨h hmem, left_of_subset h hdistinct (hsustained entry hmem)⟩

/-! ## All rounds -/

/-- How fragments are pruned: so many rounds drop some of them, and the others are kept because they
sustain each other. -/
inductive PrunesIn (schema : Schema) : ℕ → Entries Fragment → Entries Fragment → Prop
  /-- Fragments that sustain each other are kept. -/
  | done {fragments : Entries Fragment} (sustained : Sustained schema fragments) :
    PrunesIn schema 0 fragments fragments
  /-- From others those are dropped of which nothing is left, before the next round. -/
  | round {rounds : ℕ} {fragments kept : Entries Fragment}
    (unsustained : ¬ Sustained schema fragments)
    (further : PrunesIn schema rounds (nonEmpty schema fragments) kept) :
    PrunesIn schema (rounds + 1) fragments kept

section PrunesIn

variable {rounds : ℕ}

/-- Rounds only drop fragments. -/
theorem PrunesIn.sublist (h : PrunesIn schema rounds fragments kept) : kept.Sublist fragments := by
  induction h with
  | done => exact List.Sublist.refl _
  | round _ _ ih => exact ih.trans List.filter_sublist

/-- What is kept at the end is sustained. -/
theorem PrunesIn.sustained (h : PrunesIn schema rounds fragments kept) :
    Sustained schema kept := by
  induction h with
  | done sustained => exact sustained
  | round _ _ ih => exact ih

/-- Every part that is sustained is kept to the end. -/
theorem PrunesIn.subset_of_sustained (h : PrunesIn schema rounds fragments kept)
    (hdistinct : fragments.keys.Nodup) (hsustained : Sustained schema others)
    (hsubset : others ⊆ fragments) : others ⊆ kept := by
  induction h with
  | done => exact hsubset
  | round _ _ ih =>
    have hnext : (nonEmpty schema _).keys.Nodup :=
      hdistinct.sublist (List.filter_sublist.map _)
    exact ih hnext (hsustained.subset_nonEmpty hdistinct hsubset)

/-- Each round drops at least one fragment. -/
theorem PrunesIn.rounds_add_length_le (h : PrunesIn schema rounds fragments kept) :
    rounds + kept.length ≤ fragments.length := by
  induction h with
  | done => exact Nat.le_of_eq (Nat.zero_add _)
  | @round rounds fragments kept unsustained _ ih =>
    have hle : (nonEmpty schema fragments).length ≤ fragments.length :=
      List.length_filter_le _ _
    have hne := mt sustained_iff_length.mpr unsustained
    omega

/-- The rounds and their outcome are determined. -/
theorem PrunesIn.unique (h : PrunesIn schema rounds fragments kept) {rounds' : ℕ}
    {kept' : Entries Fragment} (h' : PrunesIn schema rounds' fragments kept') :
    rounds' = rounds ∧ kept' = kept := by
  induction h generalizing rounds' with
  | done sustained =>
    cases h' with
    | done => exact ⟨rfl, rfl⟩
    | round unsustained => exact absurd sustained unsustained
  | round unsustained _ ih =>
    cases h' with
    | done sustained => exact absurd sustained unsustained
    | round _ further =>
      obtain ⟨hrounds, hkept⟩ := ih further
      exact ⟨congrArg (· + 1) hrounds, hkept⟩

/-- As many rounds as there are fragments are enough. -/
theorem exists_prunesIn_pruneWithin {fuel : ℕ} {fragments : Entries Fragment}
    (h : fragments.length ≤ fuel) :
    ∃ rounds, PrunesIn schema rounds fragments (pruneWithin schema fuel fragments) := by
  induction fuel generalizing fragments with
  | zero =>
    rw [List.eq_nil_of_length_eq_zero (Nat.le_zero.mp h)]
    exact ⟨0, .done fun _ hmem => absurd hmem List.not_mem_nil⟩
  | succ fuel ih =>
    rw [pruneWithin]
    split
    · rename_i hsame
      exact ⟨0, .done (sustained_iff_length.mpr hsame)⟩
    · rename_i hdropped
      have hle : (nonEmpty schema fragments).length ≤ fragments.length :=
        List.length_filter_le _ _
      obtain ⟨rounds, hrounds⟩ := ih (by omega : (nonEmpty schema fragments).length ≤ fuel)
      exact ⟨rounds + 1, .round (mt sustained_iff_length.mp hdropped) hrounds⟩

/-- Pruning comes to its end in some rounds. -/
theorem exists_prunesIn_prune (schema : Schema) (fragments : Entries Fragment) :
    ∃ rounds, PrunesIn schema rounds fragments (prune schema fragments) :=
  exists_prunesIn_pruneWithin (Nat.le_refl _)

end PrunesIn

/-- Pruning only drops fragments. -/
theorem prune_sublist (schema : Schema) (fragments : Entries Fragment) :
    (prune schema fragments).Sublist fragments := by
  obtain ⟨rounds, hrounds⟩ := exists_prunesIn_prune schema fragments
  exact hrounds.sublist

/-- Something is left of each fragment that is kept. -/
theorem left_of_mem_prune {entry : Name × Fragment} (h : entry ∈ prune schema fragments) :
    (Filter.mk schema (prune schema fragments)).filterAll entry.2.condition
      entry.2.selections ≠ [] := by
  obtain ⟨rounds, hrounds⟩ := exists_prunesIn_prune schema fragments
  exact hrounds.sustained entry h

/-- Fragments that all keep selections are kept. -/
theorem prune_eq_self (h : ∀ entry ∈ fragments,
    (Filter.mk schema fragments).filterAll entry.2.condition entry.2.selections ≠ []) :
    prune schema fragments = fragments := by
  obtain ⟨rounds, hrounds⟩ := exists_prunesIn_prune schema fragments
  exact (PrunesIn.unique (.done h) hrounds).2

/-! ## The largest sustained part -/

/-- The largest part of some fragments whose members sustain each other. -/
structure IsLargestSustained (schema : Schema) (fragments kept : Entries Fragment) : Prop where
  /-- It consists of given fragments. -/
  given : kept ⊆ fragments
  /-- Something is left of each when only they can be spread. -/
  sustained : Sustained schema kept
  /-- It includes every other such part. -/
  largest : ∀ others ⊆ fragments, Sustained schema others → others ⊆ kept

/-- Pruning keeps the largest sustained part. -/
theorem isLargestSustained_prune (hdistinct : fragments.keys.Nodup) :
    IsLargestSustained schema fragments (prune schema fragments) := by
  obtain ⟨rounds, hrounds⟩ := exists_prunesIn_prune schema fragments
  constructor
  case given => exact hrounds.sublist.subset
  case sustained => exact hrounds.sustained
  case largest => exact fun _ h hsustained => hrounds.subset_of_sustained hdistinct hsustained h

/-- The order of the given fragments does not count. -/
theorem IsLargestSustained.of_perm (h : IsLargestSustained schema fragments kept)
    (hperm : fragments.Perm others) : IsLargestSustained schema others kept where
  given := List.Subset.trans h.given hperm.subset
  sustained := h.sustained
  largest more hmore := h.largest more (List.Subset.trans hmore hperm.symm.subset)

/-- There is only one such part, up to its order. -/
theorem IsLargestSustained.perm (h : IsLargestSustained schema fragments kept)
    (h' : IsLargestSustained schema fragments others) (hkept : kept.Nodup) (hothers : others.Nodup) :
    kept.Perm others := by
  refine (List.perm_ext_iff_of_nodup hkept hothers).mpr fun entry => ⟨fun hmem => ?_, fun hmem => ?_⟩
  · exact h'.largest kept h.given h.sustained hmem
  · exact h.largest others h'.given h'.sustained hmem

/-- Nothing is left of a given fragment outside of it. -/
theorem IsLargestSustained.filterAll_eq_nil (h : IsLargestSustained schema fragments kept)
    (hdistinct : fragments.keys.Nodup) {entry : Name × Fragment} (hmem : entry ∈ fragments)
    (hnot : entry ∉ kept) :
    (Filter.mk schema kept).filterAll entry.2.condition entry.2.selections = [] := by
  by_contra hleft
  -- Together with this fragment the others would be a larger such part.
  have hsubset : kept ⊆ fragments.filter (· ∈ entry :: kept) := fun _ hkept =>
    List.mem_filter.mpr ⟨h.given hkept, decide_eq_true (List.mem_cons_of_mem _ hkept)⟩
  have hsustained : Sustained schema (fragments.filter (· ∈ entry :: kept)) := by
    intro other hother
    refine left_of_subset hsubset (hdistinct.sublist (List.filter_sublist.map _)) ?_
    rcases List.mem_cons.mp (of_decide_eq_true (List.mem_filter.mp hother).2) with rfl | hkept
    · exact hleft
    · exact h.sustained other hkept
  exact hnot (h.largest _ List.filter_sublist.subset hsustained
    (List.mem_filter.mpr ⟨hmem, decide_eq_true List.mem_cons_self⟩))

/-- Nothing is left of a fragment that is not kept. -/
theorem filterAll_eq_nil_of_not_mem_prune (hdistinct : fragments.keys.Nodup)
    {entry : Name × Fragment} (hmem : entry ∈ fragments) (hnot : entry ∉ prune schema fragments) :
    (Filter.mk schema (prune schema fragments)).filterAll entry.2.condition
      entry.2.selections = [] :=
  (isLargestSustained_prune hdistinct).filterAll_eq_nil hdistinct hmem hnot

/-- Pruning fragments of different names comes to an end, after no more rounds than it drops
fragments, and has one outcome: the largest part whose members sustain each other, which is the same
for every order of the fragments. -/
theorem prune_largest (schema : Schema) {fragments : Entries Fragment}
    (hdistinct : fragments.keys.Nodup) :
    (∃ rounds, rounds + (prune schema fragments).length ≤ fragments.length ∧
      ∀ count kept, PrunesIn schema count fragments kept ↔
        count = rounds ∧ kept = prune schema fragments) ∧
    IsLargestSustained schema fragments (prune schema fragments) ∧
    ∀ others : Entries Fragment, fragments.Perm others →
      (prune schema fragments).Perm (prune schema others) := by
  obtain ⟨rounds, hrounds⟩ := exists_prunesIn_prune schema fragments
  have hlargest : IsLargestSustained schema fragments (prune schema fragments) :=
    isLargestSustained_prune hdistinct
  have hnodup : ∀ {given : Entries Fragment}, given.keys.Nodup → (prune schema given).Nodup :=
    fun h => (List.Nodup.of_map _ h).sublist (prune_sublist schema _)
  refine ⟨⟨rounds, hrounds.rounds_add_length_le, fun count kept => ⟨hrounds.unique, ?_⟩⟩,
    hlargest, fun others hperm => ?_⟩
  · rintro ⟨rfl, rfl⟩
    exact hrounds
  · have hothers : others.keys.Nodup := (hperm.map Prod.fst).nodup_iff.mp hdistinct
    exact (hlargest.of_perm hperm).perm (isLargestSustained_prune hothers) (hnodup hdistinct)
      (hnodup hothers)

/-- The types of a service of persons with addresses. -/
def residentSchema : Schema where
  types := [Builtin.scalar "String",
    Builtin.object "Query" [Builtin.field "resident" (.named "Person")],
    Builtin.object "Person"
      [Builtin.field "name" (.named "String"), Builtin.field "address" (.named "Address")],
    Builtin.object "Address" [Builtin.field "city" (.named "String")]]
  directives := []
  roots := [(.query, "Query")]

/-- Two fragments that only spread each other, and a chain of fragments of which the last one
selects a field that is not declared. -/
def residentFragments : Entries Fragment := [
  ("Far", { name := "Far", condition := "Person", selections := [.spread "Near" []] }),
  ("Ring", { name := "Ring", condition := "Person", selections := [.spread "Back" []] }),
  ("Near", {
    name := "Near", condition := "Person"
    selections := [.field { name := "address", selections := [.spread "Zip" []] }] }),
  ("Back", {
    name := "Back", condition := "Person"
    selections := [.inline (some "Person") [] [.spread "Ring" []]] }),
  ("Zip", { name := "Zip", condition := "Address", selections := [.field { name := "zip" }] })]

/-- In three rounds the chain is dropped from its end. The cycle of spreads is the largest sustained
part, also when the fragments are given the other way round. -/
theorem prune_largest_resident :
    residentFragments.keys.Nodup ∧
      (prune residentSchema residentFragments).keys = ["Ring", "Back"] ∧
      PrunesIn residentSchema 3 residentFragments (prune residentSchema residentFragments) ∧
      IsLargestSustained residentSchema residentFragments
        (prune residentSchema residentFragments) ∧
      (prune residentSchema residentFragments).Perm
        (prune residentSchema residentFragments.reverse) := by
  have hdistinct : residentFragments.keys.Nodup := by decide
  obtain ⟨⟨rounds, -, hends⟩, hlargest, hperm⟩ := prune_largest residentSchema hdistinct
  have hthree : PrunesIn residentSchema 3 residentFragments
      (nonEmpty residentSchema (nonEmpty residentSchema
        (nonEmpty residentSchema residentFragments))) :=
    .round (by decide +kernel) <| .round (by decide +kernel) <| .round (by decide +kernel) <|
      .done (by decide +kernel)
  obtain ⟨-, hkept⟩ := (hends 3 _).mp hthree
  rw [hkept] at hthree
  exact ⟨hdistinct, by decide +kernel, hthree, hlargest, hperm _ (List.reverse_perm _).symm⟩

end Gateway.Transform.Filter
