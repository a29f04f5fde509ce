import Gateway.Stitching.Plan
import Mathlib.Data.List.Induction
import Mathlib.Tactic.Common

/-!
# Fates of selections

In a round every selection is dropped, waits or is asked of a subschema. `Fates` lists what becomes
of each selection in order, and the delegations of a plan are read off such a list: the subschemas
that are asked, each where it is asked first, with all that it is asked for. The lemmas here say
what one more fate at the end changes about this, which is what one more routed selection changes
about a plan.
-/

namespace Gateway

/-! ## Fates of selections -/

/-- What becomes of a selection in a round. -/
inductive Fate
  /-- It is neither asked nor waits. -/
  | dropped
  /-- It waits for a later round. -/
  | waiting
  /-- It is asked of a subschema. -/
  | asked (owner : Subschema)

namespace Fate

/-- Whether a selection of this fate waits. -/
def isWaiting : Fate → Bool
  | .waiting => true
  | _ => false

/-- Whether a selection of this fate is asked of a subschema. -/
def isAskedOf (subschema : Subschema) : Fate → Bool
  | .asked owner => owner.is subschema
  | _ => false

/-- The subschema that is asked. -/
def owner? : Fate → Option Subschema
  | .asked owner => some owner
  | _ => none

end Fate

/-- Selections in order, each with its fate. -/
abbrev Fates := List (Selection × Fate)

namespace Fates

/-- The selections that wait. -/
def waiting (fates : Fates) : List Selection :=
  (fates.filter fun hand => hand.2.isWaiting).map Prod.fst

/-- The selections that are asked of a subschema. -/
def askedOf (fates : Fates) (subschema : Subschema) : List Selection :=
  (fates.filter fun hand => hand.2.isAskedOf subschema).map Prod.fst

/-- Whether some selection is asked of a subschema. -/
def asks (fates : Fates) (subschema : Subschema) : Bool :=
  fates.any fun hand => hand.2.isAskedOf subschema

/-- The subschemas that are asked, each where it is asked first. -/
def owners (fates : Fates) : List Subschema :=
  (fates.filterMap fun hand => hand.2.owner?).eraseDupsBy Subschema.is

/-- The subschemas that are asked, each with all that it is asked for. -/
def delegations (fates : Fates) : List (Subschema × List Selection) :=
  fates.owners.map fun owner => (owner, fates.askedOf owner)

end Fates

/-! ## Reading a plan off fates -/

/-- A subschema is itself. -/
theorem Subschema.is_self (subschema : Subschema) : subschema.is subschema = true :=
  decide_eq_true rfl

/-- Subschemas are compared by name. -/
theorem Subschema.is_comm (subschema other : Subschema) :
    subschema.is other = other.is subschema := by
  unfold Subschema.is
  exact decide_eq_decide.mpr eq_comm

/-- Subschemas that are the same one are the same as the same others. -/
theorem Subschema.is_congr {subschema other : Subschema} (h : subschema.is other = true)
    (third : Subschema) : subschema.is third = other.is third := by
  unfold Subschema.is at h ⊢
  rw [of_decide_eq_true h]

/-- A last element is kept unless one like it is kept already. -/
theorem eraseDupsBy_concat {α : Type} (same : α → α → Bool) (elements : List α) (last : α) :
    (elements ++ [last]).eraseDupsBy same =
      if (elements.eraseDupsBy same).any (same last) then elements.eraseDupsBy same
      else elements.eraseDupsBy same ++ [last] := by
  have loop : ∀ (elements kept : List α),
      List.eraseDupsBy.loop same (elements ++ [last]) kept =
        if (List.eraseDupsBy.loop same elements kept).any (same last) then
          List.eraseDupsBy.loop same elements kept
        else List.eraseDupsBy.loop same elements kept ++ [last] := by
    intro elements
    induction elements with
    | nil =>
      intro kept
      rw [List.nil_append, List.eraseDupsBy.loop, List.eraseDupsBy.loop, List.any_reverse]
      cases kept.any (same last) with
      | true => rw [if_pos rfl, List.eraseDupsBy.loop]
      | false => simp [List.eraseDupsBy.loop]
    | cons first rest ih =>
      intro kept
      rw [List.cons_append, List.eraseDupsBy.loop, List.eraseDupsBy.loop]
      cases kept.any (same first) with
      | true => exact ih kept
      | false => exact ih (first :: kept)
  exact loop elements []

namespace Fates

/-- The owners with a last fate: an owner is added unless it is asked already. -/
theorem owners_concat (fates : Fates) (selection : Selection) (fate : Fate) :
    Fates.owners (fates ++ [(selection, fate)]) =
      match fate with
      | .asked owner => if fates.owners.any owner.is then fates.owners else fates.owners ++ [owner]
      | _ => fates.owners := by
  unfold Fates.owners
  rw [List.filterMap_append]
  cases fate with
  | asked owner => exact eraseDupsBy_concat _ _ _
  | dropped => simp [Fate.owner?]
  | waiting => simp [Fate.owner?]

/-- No two of the owners are the same one. -/
theorem owners_pairwise (fates : Fates) :
    fates.owners.Pairwise fun owner other => owner.is other = false := by
  induction fates using List.reverseRecOn with
  | nil => exact List.Pairwise.nil
  | append_singleton fates hand ih =>
    obtain ⟨selection, fate⟩ := hand
    rw [owners_concat]
    cases fate with
    | dropped => exact ih
    | waiting => exact ih
    | asked owner =>
      by_cases hany : (Fates.owners fates).any owner.is = true
      · simp only [if_pos hany]
        exact ih
      · simp only [if_neg hany]
        rw [List.pairwise_append]
        refine ⟨ih, List.pairwise_singleton _ _, ?_⟩
        intro other hother last hlast
        rw [List.mem_singleton.mp hlast, Subschema.is_comm]
        rw [List.any_eq_true] at hany
        exact Bool.eq_false_iff.mpr fun his => hany ⟨other, hother, his⟩

/-- The owners are those that are asked. -/
theorem any_owners (fates : Fates) (subschema : Subschema) :
    (fates.owners.any fun owner => owner.is subschema) = fates.asks subschema := by
  induction fates using List.reverseRecOn with
  | nil => rfl
  | append_singleton fates hand ih =>
    obtain ⟨selection, fate⟩ := hand
    rw [owners_concat]
    unfold Fates.asks at ih ⊢
    rw [List.any_append, List.any_cons, List.any_nil, Bool.or_false, ← ih]
    cases fate with
    | dropped => rw [Fate.isAskedOf, Bool.or_false]; simp
    | waiting => rw [Fate.isAskedOf, Bool.or_false]; simp
    | asked owner =>
      rw [Fate.isAskedOf]
      by_cases hany : (Fates.owners fates).any owner.is = true
      · simp only [if_pos hany]
        -- An owner of the same name is there, and it is as good as this one.
        obtain ⟨other, hother, his⟩ := List.any_eq_true.mp hany
        cases hsub : owner.is subschema with
        | false => rw [Bool.or_false]
        | true =>
          rw [Bool.or_true, List.any_eq_true]
          exact ⟨other, hother, by rw [← Subschema.is_congr his]; exact hsub⟩
      · simp only [if_neg hany]
        rw [List.any_append, List.any_cons, List.any_nil, Bool.or_false]

/-- What is asked of a subschema, with a last fate. -/
theorem askedOf_concat (fates : Fates) (selection : Selection) (fate : Fate)
    (subschema : Subschema) :
    Fates.askedOf (fates ++ [(selection, fate)]) subschema =
      fates.askedOf subschema ++ bif fate.isAskedOf subschema then [selection] else [] := by
  unfold Fates.askedOf
  rw [List.filter_append, List.map_append]
  cases h : fate.isAskedOf subschema <;> simp [h]

/-- What waits, with a last fate. -/
theorem waiting_concat (fates : Fates) (selection : Selection) (fate : Fate) :
    Fates.waiting (fates ++ [(selection, fate)]) =
      fates.waiting ++ bif fate.isWaiting then [selection] else [] := by
  unfold Fates.waiting
  rw [List.filter_append, List.map_append]
  cases h : fate.isWaiting <;> simp [h]

/-- Nothing is asked of a subschema that is not asked. -/
theorem askedOf_eq_nil {fates : Fates} {subschema : Subschema}
    (h : fates.asks subschema = false) : fates.askedOf subschema = [] := by
  unfold Fates.asks at h
  unfold Fates.askedOf
  rw [List.any_eq_false] at h
  rw [List.map_eq_nil_iff, List.filter_eq_nil_iff]
  exact h

end Fates

/-- An owner of fates is asked for one of the selections. -/
theorem Fates.exists_of_mem_owners {fates : Fates} {owner : Subschema} (h : owner ∈ fates.owners) :
    ∃ selection, (selection, Fate.asked owner) ∈ fates := by
  induction fates using List.reverseRecOn with
  | nil => exact absurd h List.not_mem_nil
  | append_singleton fates hand ih =>
    obtain ⟨selection, fate⟩ := hand
    have hkept : owner ∈ Fates.owners fates →
        ∃ selection', (selection', Fate.asked owner) ∈ fates ++ [(selection, fate)] := by
      intro hmem
      obtain ⟨selection', hmem'⟩ := ih hmem
      exact ⟨selection', List.mem_append_left _ hmem'⟩
    rw [Fates.owners_concat] at h
    cases fate with
    | dropped => exact hkept h
    | waiting => exact hkept h
    | asked last =>
      by_cases hany : (Fates.owners fates).any last.is = true
      · simp only [if_pos hany] at h
        exact hkept h
      · simp only [if_neg hany] at h
        rcases List.mem_append.mp h with hmem | hlast
        · exact hkept hmem
        · rw [List.mem_singleton.mp hlast]
          exact ⟨selection, List.mem_append_right _ (List.mem_singleton.mpr rfl)⟩

/-- A selection is added behind those that are asked of its subschema, or with its subschema at the
end. -/
theorem Plan.addDelegation_map (owner : Subschema) (selection : Selection)
    (asked : Subschema → List Selection) (owners : List Subschema)
    (hdistinct : owners.Pairwise fun one other => one.is other = false) :
    Plan.addDelegation owner selection (owners.map fun one => (one, asked one)) =
      if owners.any owner.is then
        owners.map fun one => (one, asked one ++ bif owner.is one then [selection] else [])
      else owners.map (fun one => (one, asked one)) ++ [(owner, [selection])] := by
  induction owners with
  | nil => rfl
  | cons first rest ih =>
    obtain ⟨hfirst, hrest⟩ := List.pairwise_cons.mp hdistinct
    rw [List.map_cons, Plan.addDelegation, List.any_cons, Subschema.is_comm first owner]
    cases his : owner.is first with
    | true =>
      -- No other owner is the same one, so the rest stays.
      have hstay : ∀ one ∈ rest, owner.is one = false := by
        intro one hone
        rw [Subschema.is_congr his]
        exact hfirst one hone
      rw [if_pos rfl, Bool.true_or, if_pos rfl, List.map_cons, his, cond_true]
      congr 1
      refine List.map_congr_left fun one hone => ?_
      rw [hstay one hone, cond_false, List.append_nil]
    | false =>
      rw [if_neg Bool.false_ne_true, Bool.false_or, ih hrest]
      split
      · rw [List.map_cons, his, cond_false, List.append_nil]
      · rfl

/-- A selection that is asked of a subschema is added to the delegations. -/
theorem Fates.delegations_concat_asked (fates : Fates) (selection : Selection)
    (owner : Subschema) :
    Fates.delegations (fates ++ [(selection, .asked owner)]) =
      Plan.addDelegation owner selection fates.delegations := by
  unfold Fates.delegations
  rw [Plan.addDelegation_map _ _ _ _ fates.owners_pairwise, Fates.owners_concat]
  simp only [Fates.askedOf_concat, Fate.isAskedOf]
  split
  · rfl
  · rename_i hnone
    have hnew : fates.asks owner = false := by
      rw [← Fates.any_owners, Bool.eq_false_iff]
      intro hany
      apply hnone
      rw [List.any_eq_true] at hany ⊢
      obtain ⟨one, hone, his⟩ := hany
      exact ⟨one, hone, by rw [Subschema.is_comm]; exact his⟩
    rw [List.map_append, List.map_singleton, Fates.askedOf_eq_nil hnew]
    congr 1
    · refine List.map_congr_left fun one hone => ?_
      have his : owner.is one = false := by
        rw [Bool.not_eq_true, List.any_eq_false] at hnone
        exact Bool.eq_false_iff.mpr (hnone one hone)
      rw [his, cond_false, List.append_nil]
    · rw [Subschema.is_self, cond_true, List.nil_append]

/-- A selection that is not asked leaves the delegations as they are. -/
theorem Fates.delegations_concat_unasked (fates : Fates) (selection : Selection) {fate : Fate}
    (h : fate.owner? = none) :
    Fates.delegations (fates ++ [(selection, fate)]) = fates.delegations := by
  unfold Fates.delegations
  rw [Fates.owners_concat]
  cases fate with
  | asked owner => exact absurd h (by simp [Fate.owner?])
  | dropped => simp [Fates.askedOf_concat, Fate.isAskedOf]
  | waiting => simp [Fates.askedOf_concat, Fate.isAskedOf]

end Gateway
