import Gateway.Stitching.MergedType
import Mathlib.Tactic.Common

/-!
# What sources contain

`typesHave` walks a selection over several schemas at once. `Has` says which selections it accepts:
a field has to be declared by one of the types, and what is selected below it by the types that the
field has there. The sources of a merged type contain a selection set when the table of one of them
says so or when their types have all of it; `sourcesContain_iff` states this without the walk.
-/

namespace Gateway

/-- The types of a field, for those of the types that declare it. -/
def innerTypes (types : List (Schema × Name)) (field : Name) : List (Schema × Name) :=
  types.filterMap fun type => (type.1.fieldTypeName? type.2 field).map fun inner => (type.1, inner)

/-- At least one of the types has what a selection selects. The meta field is everywhere, spreads
do not count, and an inline fragment counts only when its condition is the type itself. -/
inductive Has : List (Schema × Name) → Selection → Prop
  /-- The meta field. -/
  | typename {types : List (Schema × Name)} {node : Field} (named : node.name = typenameField) :
    Has types (.field node)
  /-- A field that one of the types declares, with what is selected below it. -/
  | field {types : List (Schema × Name)} {node : Field}
    (declared : ∃ type ∈ types, (type.1.fieldTypeName? type.2 node.name).isSome)
    (nested : ∀ selection ∈ node.selections, Has (innerTypes types node.name) selection) :
    Has types (.field node)
  /-- A spread. -/
  | spread {types : List (Schema × Name)} {fragment : Name} {directives : List Directive} :
    Has types (.spread fragment directives)
  /-- An inline fragment for another type. -/
  | elsewhere {schema : Schema} {type condition : Name} {rest : List (Schema × Name)}
    {directives : List Directive} {selections : List Selection} (other : condition ≠ type) :
    Has ((schema, type) :: rest) (.inline (some condition) directives selections)
  /-- An inline fragment for the type itself. -/
  | inline {types : List (Schema × Name)} {condition : Option Name} {directives : List Directive}
    {selections : List Selection} (nested : ∀ selection ∈ selections, Has types selection) :
    Has types (.inline condition directives selections)

/-- Some type has the field exactly when its types are not none. -/
theorem innerTypes_isEmpty (types : List (Schema × Name)) (field : Name) :
    (innerTypes types field).isEmpty = false ↔
      ∃ type ∈ types, (type.1.fieldTypeName? type.2 field).isSome := by
  rw [List.isEmpty_eq_false_iff]
  unfold innerTypes
  rw [ne_eq, List.filterMap_eq_nil_iff]
  constructor
  · intro h
    by_contra hnone
    apply h
    intro type htype
    rw [Option.map_eq_none_iff, ← Option.not_isSome_iff_eq_none]
    intro hsome
    exact hnone ⟨type, htype, hsome⟩
  · rintro ⟨type, htype, hsome⟩ h
    have hnone := h type htype
    rw [Option.map_eq_none_iff] at hnone
    rw [hnone] at hsome
    exact absurd hsome (by simp)

/-- Without condition an inline fragment is walked for the types. -/
theorem typesHave_inline_none (types : List (Schema × Name)) (directives : List Directive)
    (selections : List Selection) :
    typesHave types (.inline none directives selections) = typesHaveAll types selections :=
  rfl

/-- Without types there is none to compare a condition with. -/
theorem typesHave_inline_nil (condition : Name) (directives : List Directive)
    (selections : List Selection) :
    typesHave [] (.inline (some condition) directives selections) = typesHaveAll [] selections :=
  rfl

/-- The condition of an inline fragment is compared with the first type. -/
theorem typesHave_inline_cons (type : Schema × Name) (rest : List (Schema × Name))
    (condition : Name) (directives : List Directive) (selections : List Selection) :
    typesHave (type :: rest) (.inline (some condition) directives selections) =
      if condition = type.2 then typesHaveAll (type :: rest) selections else true :=
  rfl

mutual

/-- The walk accepts the selections that the types have. -/
theorem typesHave_iff :
    ∀ (types : List (Schema × Name)) (selection : Selection),
      typesHave types selection = true ↔ Has types selection
  | types, .field ⟨alias?, name, arguments, directives, selections⟩ => by
    have ih := typesHaveAll_iff (innerTypes types name) selections
    by_cases hname : name = typenameField
    · rw [typesHave, if_pos hname]
      exact iff_of_true rfl (.typename hname)
    · rw [typesHave, if_neg hname]
      change (!(innerTypes types name).isEmpty
        && (selections.isEmpty || typesHaveAll (innerTypes types name) selections)) = true ↔ _
      rw [Bool.and_eq_true, Bool.or_eq_true, Bool.not_eq_true', innerTypes_isEmpty, ih]
      constructor
      · rintro ⟨hdeclared, hnested⟩
        refine .field hdeclared fun selection hmem => ?_
        rcases hnested with hempty | hall
        · rw [List.isEmpty_iff.mp hempty] at hmem
          exact absurd hmem List.not_mem_nil
        · exact hall selection hmem
      · intro h
        cases h with
        | typename named => exact absurd named hname
        | field hdeclared hnested => exact ⟨hdeclared, .inr hnested⟩
  | types, .spread fragment directives => by
    rw [typesHave]
    exact iff_of_true rfl .spread
  | types, .inline condition directives selections => by
    have ih := typesHaveAll_iff types selections
    -- Both for the type itself and without a type to compare with, the inner selections decide.
    have hinner (hno : ∀ c schema type rest, condition = some c → types = (schema, type) :: rest →
        c = type) : typesHaveAll types selections = true ↔
          Has types (.inline condition directives selections) := by
      rw [ih]
      constructor
      · exact .inline
      · intro h
        cases h with
        | elsewhere other => exact absurd (hno _ _ _ _ rfl rfl) other
        | inline nested => exact nested
    cases condition with
    | none =>
      rw [typesHave_inline_none]
      exact hinner (by simp)
    | some condition =>
      cases types with
      | nil =>
        rw [typesHave_inline_nil]
        exact hinner (by simp)
      | cons type rest =>
        rw [typesHave_inline_cons]
        by_cases hsame : condition = type.2
        · rw [if_pos hsame]
          refine hinner ?_
          rintro c s t r ⟨rfl⟩ ⟨rfl⟩
          exact hsame
        · rw [if_neg hsame]
          exact iff_of_true rfl (.elsewhere hsame)

/-- The walk accepts a selection set when the types have each of its selections. -/
theorem typesHaveAll_iff :
    ∀ (types : List (Schema × Name)) (selections : List Selection),
      typesHaveAll types selections = true ↔ ∀ selection ∈ selections, Has types selection
  | types, [] => by
    rw [typesHaveAll]
    exact iff_of_true rfl fun _ h => absurd h List.not_mem_nil
  | types, selection :: rest => by
    rw [typesHaveAll, Bool.and_eq_true, typesHave_iff types selection, typesHaveAll_iff types rest,
      List.forall_mem_cons]

end

namespace MergedType

variable {ρ : Type}

/-- The table of one of the sources says that objects of it have what is selected. -/
def Knows (merged : MergedType ρ) (sources : List Subschema) (needed : List Selection) : Prop :=
  ∃ source ∈ sources, ∃ table, merged.contains.get? source.name = some table ∧
    table.get? (selectionSetKey needed) = some true

/-- Objects fetched from the sources have what is selected: a table says so, or the types that the
sources declare have each selection. -/
def Contains (merged : MergedType ρ) (sources : List Subschema) (needed : List Selection) : Prop :=
  merged.Knows sources needed ∨ ∃ type, merged.typeName? = some type ∧
    ∀ selection ∈ needed, Has (sources.map fun source => (source.view, type)) selection

/-- The look-up over all sources finds what one of their tables says. -/
theorem isKnown_iff (merged : MergedType ρ) (sources : List Subschema)
    (needed : List Selection) :
    merged.isKnown sources needed = true ↔ merged.Knows sources needed := by
  unfold isKnown Knows
  rw [List.any_eq_true]
  refine exists_congr fun source => and_congr_right fun _ => ?_
  cases htable : merged.contains.get? source.name with
  | none => simp
  | some table =>
    rw [Option.bind_some]
    cases hentry : table.get? (selectionSetKey needed) with
    | none => simp [hentry]
    | some has => simp [hentry]

/-- The check of the sources decides what they contain. -/
theorem sourcesContain_iff (merged : MergedType ρ) (sources : List Subschema)
    (needed : List Selection) :
    merged.sourcesContain sources needed = true ↔ merged.Contains sources needed := by
  unfold sourcesContain Contains
  rw [Bool.or_eq_true, isKnown_iff]
  refine or_congr_right ?_
  cases merged.typeName? with
  | none => simp
  | some type =>
    rw [typesHaveAll_iff]
    constructor
    · intro h
      exact ⟨type, rfl, h⟩
    · rintro ⟨_, ⟨rfl⟩, h⟩
      exact h

end MergedType

end Gateway
