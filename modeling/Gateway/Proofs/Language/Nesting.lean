import Gateway.Language.Syntax
import Mathlib.Tactic.Common

/-!
# Nested selections

Selections hold selections, so what holds of all of them is shown from the inside outwards
(`Selection.nestedInduction`). A selection occurs in a selection set when it stands in it at any
depth.
-/

namespace Gateway

mutual

/-- A selection has what it has whenever the selections directly inside of it have it. -/
theorem Selection.nestedInduction {motive : Selection → Prop}
    (field : ∀ node : Field, (∀ selection ∈ node.selections, motive selection) →
      motive (.field node))
    (spread : ∀ fragment directives, motive (.spread fragment directives))
    (inline : ∀ condition directives selections, (∀ selection ∈ selections, motive selection) →
      motive (.inline condition directives selections)) :
    ∀ selection, motive selection
  | .field ⟨alias?, name, arguments, directives, selections⟩ =>
    field ⟨alias?, name, arguments, directives, selections⟩
      (nestedInductionAll field spread inline selections)
  | .spread fragment directives => spread fragment directives
  | .inline condition directives selections =>
    inline condition directives selections (nestedInductionAll field spread inline selections)

/-- So do all selections of a list. -/
theorem Selection.nestedInductionAll {motive : Selection → Prop}
    (field : ∀ node : Field, (∀ selection ∈ node.selections, motive selection) →
      motive (.field node))
    (spread : ∀ fragment directives, motive (.spread fragment directives))
    (inline : ∀ condition directives selections, (∀ selection ∈ selections, motive selection) →
      motive (.inline condition directives selections)) :
    ∀ selections : List Selection, ∀ selection ∈ selections, motive selection
  | [] => fun _ h => absurd h List.not_mem_nil
  | first :: rest => List.forall_mem_cons.mpr
    ⟨nestedInduction field spread inline first, nestedInductionAll field spread inline rest⟩

end

/-- The fields among selections are the field selections. -/
theorem mem_directFields {selections : List Selection} {node : Field} :
    node ∈ directFields selections ↔ Selection.field node ∈ selections := by
  unfold directFields
  rw [List.mem_filterMap]
  constructor
  · rintro ⟨selection, hmem, hfield⟩
    cases selection with
    | field other =>
      rw [Selection.asField?, Option.some.injEq] at hfield
      rw [← hfield]
      exact hmem
    | spread => exact absurd hfield (by simp [Selection.asField?])
    | inline => exact absurd hfield (by simp [Selection.asField?])
  · intro hmem
    exact ⟨_, hmem, rfl⟩

/-- A selection stands in a selection set, at any depth. -/
inductive Occurs (selection : Selection) : List Selection → Prop
  /-- It is one of the selections. -/
  | here {selections : List Selection} (mem : selection ∈ selections) :
    Occurs selection selections
  /-- It stands in what is selected under a field. -/
  | field {selections : List Selection} {node : Field} (mem : .field node ∈ selections)
    (within : Occurs selection node.selections) : Occurs selection selections
  /-- It stands in an inline fragment. -/
  | inline {selections inner : List Selection} {condition : Option Name}
    {directives : List Directive} (mem : .inline condition directives inner ∈ selections)
    (within : Occurs selection inner) : Occurs selection selections

section Occurs

variable {selection : Selection} {selections : List Selection}

/-- What occurs in selections occurs in more of them. -/
theorem Occurs.mono {others : List Selection} (h : Occurs selection selections)
    (hsub : selections ⊆ others) : Occurs selection others := by
  cases h with
  | here mem => exact .here (hsub mem)
  | field mem within => exact .field (hsub mem) within
  | inline mem within => exact .inline (hsub mem) within

/-- Nothing occurs where nothing is selected. -/
theorem not_occurs_nil : ¬ Occurs selection [] := by
  intro h
  cases h with
  | here mem => exact absurd mem List.not_mem_nil
  | field mem => exact absurd mem List.not_mem_nil
  | inline mem => exact absurd mem List.not_mem_nil

/-- What occurs in selections occurs in one of them. -/
theorem occurs_iff_exists :
    Occurs selection selections ↔ ∃ first ∈ selections, Occurs selection [first] := by
  constructor
  · intro h
    cases h with
    | here mem => exact ⟨_, mem, .here List.mem_cons_self⟩
    | field mem within => exact ⟨_, mem, .field List.mem_cons_self within⟩
    | inline mem within => exact ⟨_, mem, .inline List.mem_cons_self within⟩
  · rintro ⟨first, hmem, h⟩
    exact h.mono (List.cons_subset.mpr ⟨hmem, List.nil_subset _⟩)

/-- In a field occur the field itself and what occurs below it. -/
theorem occurs_field_iff {node : Field} :
    Occurs selection [.field node] ↔
      selection = .field node ∨ Occurs selection node.selections := by
  constructor
  · intro h
    cases h with
    | here mem => exact .inl (List.mem_singleton.mp mem)
    | field mem within =>
      cases List.mem_singleton.mp mem
      exact .inr within
    | inline mem => exact absurd (List.mem_singleton.mp mem) (by simp)
  · rintro (rfl | h)
    · exact .here List.mem_cons_self
    · exact .field List.mem_cons_self h

/-- In a spread only the spread itself occurs. -/
theorem occurs_spread_iff {fragment : Name} {directives : List Directive} :
    Occurs selection [.spread fragment directives] ↔ selection = .spread fragment directives := by
  constructor
  · intro h
    cases h with
    | here mem => exact List.mem_singleton.mp mem
    | field mem => exact absurd (List.mem_singleton.mp mem) (by simp)
    | inline mem => exact absurd (List.mem_singleton.mp mem) (by simp)
  · rintro rfl
    exact .here List.mem_cons_self

/-- In an inline fragment occur the fragment itself and what occurs in its selections. -/
theorem occurs_inline_iff {condition : Option Name} {directives : List Directive} :
    Occurs selection [.inline condition directives selections] ↔
      selection = .inline condition directives selections ∨ Occurs selection selections := by
  constructor
  · intro h
    cases h with
    | here mem => exact .inl (List.mem_singleton.mp mem)
    | field mem => exact absurd (List.mem_singleton.mp mem) (by simp)
    | inline mem within =>
      cases List.mem_singleton.mp mem
      exact .inr within
  · rintro (rfl | h)
    · exact .here List.mem_cons_self
    · exact .inline List.mem_cons_self h

end Occurs

end Gateway
