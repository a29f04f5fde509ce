import Mathlib.Data.List.Forall2
import Mathlib.Tactic.Common

/-!
# Computations that may fail

A sequence of steps succeeds when each of its steps does.
-/

namespace Gateway

/-- A sequence succeeds when both parts do. -/
theorem except_bind_eq_ok_iff {ε α β : Type} {first : Except ε α} {next : α → Except ε β}
    {value : β} :
    first >>= next = .ok value ↔ ∃ middle, first = .ok middle ∧ next middle = .ok value := by
  cases first with
  | error error => exact ⟨fun h => absurd h (by simp [bind, Except.bind]), by simp⟩
  | ok middle => exact ⟨fun h => ⟨middle, rfl, h⟩, by rintro ⟨_, ⟨rfl⟩, h⟩; exact h⟩

/-- A sequence whose first part is only checked succeeds when this does and the rest does. -/
theorem except_check_eq_ok_iff {ε α β : Type} {check : Except ε α} {rest : Except ε β}
    {value : β} :
    (check >>= fun _ => rest) = .ok value ↔ (∃ read, check = .ok read) ∧ rest = .ok value := by
  rw [except_bind_eq_ok_iff, exists_and_right]

/-- A sequence whose last part always succeeds does so when the first part does. -/
theorem exists_bind_eq_ok_iff {ε α β : Type} {first : Except ε α} {next : α → Except ε β}
    (hnext : ∀ middle, ∃ value, next middle = .ok value) :
    (∃ value, first >>= next = .ok value) ↔ ∃ middle, first = .ok middle := by
  simp only [except_bind_eq_ok_iff]
  constructor
  · rintro ⟨_, middle, hfirst, -⟩
    exact ⟨middle, hfirst⟩
  · rintro ⟨middle, hfirst⟩
    obtain ⟨value, hvalue⟩ := hnext middle
    exact ⟨value, middle, hfirst, hvalue⟩

/-- A result is the value that it has. -/
theorem except_eq_ok_of_toOption {ε α : Type} {result : Except ε α} {value : α}
    (h : result.toOption = some value) : result = .ok value := by
  cases result with
  | error error => cases h
  | ok found =>
    cases h
    rfl

/-- What every step of a fold keeps holds at its end. -/
theorem foldlM_keeps {ε α β : Type} {step : β → α → Except ε β} {P : β → Prop}
    {elements : List α}
    (hstep : ∀ state, P state → ∀ element ∈ elements, ∀ state', step state element = .ok state' →
      P state') {start final : β} (hstart : P start)
    (h : elements.foldlM step start = .ok final) : P final := by
  induction elements generalizing start with
  | nil =>
    rw [List.foldlM_nil] at h
    cases h
    exact hstart
  | cons first rest ih =>
    rw [List.foldlM_cons] at h
    obtain ⟨middle, hfirst, hrest⟩ := except_bind_eq_ok_iff.mp h
    refine ih ?_ (hstep start hstart first List.mem_cons_self middle hfirst) hrest
    intro state hstate element helement
    exact hstep state hstate element (List.mem_cons_of_mem _ helement)

/-- A step for each element succeeds when all of them do, with their values in order. -/
theorem mapM_eq_ok_iff {ε α β : Type} {step : α → Except ε β} {elements : List α}
    {values : List β} :
    elements.mapM step = .ok values ↔
      List.Forall₂ (fun element value => step element = .ok value) elements values := by
  induction elements generalizing values with
  | nil =>
    rw [List.mapM_nil, List.forall₂_nil_left_iff]
    exact ⟨fun h => (Except.ok.inj h).symm, fun h => congrArg Except.ok h.symm⟩
  | cons first rest ih =>
    rw [List.mapM_cons, List.forall₂_cons_left_iff, except_bind_eq_ok_iff]
    constructor
    · rintro ⟨value, hvalue, h⟩
      obtain ⟨others, hothers, h⟩ := except_bind_eq_ok_iff.mp h
      cases h
      exact ⟨value, others, hvalue, ih.mp hothers, rfl⟩
    · rintro ⟨value, others, hvalue, hothers, rfl⟩
      exact ⟨value, hvalue, except_bind_eq_ok_iff.mpr ⟨others, ih.mpr hothers, rfl⟩⟩

/-- Steps that succeed with good elements, each with the value of a function, do so together. -/
theorem mapM_eq_ok_iff_map {ε α β : Type} {step : α → Except ε β} {Good : α → Prop} {f : α → β}
    (hstep : ∀ element value, step element = .ok value ↔ Good element ∧ value = f element)
    {elements : List α} {values : List β} :
    elements.mapM step = .ok values ↔
      (∀ element ∈ elements, Good element) ∧ values = elements.map f := by
  simp only [mapM_eq_ok_iff, hstep]
  induction elements generalizing values with
  | nil => simp
  | cons first rest ih =>
    simp only [List.forall₂_cons_left_iff, ih, List.forall_mem_cons, List.map_cons]
    constructor
    · rintro ⟨_, _, ⟨hfirst, rfl⟩, ⟨hrest, rfl⟩, rfl⟩
      exact ⟨⟨hfirst, hrest⟩, rfl⟩
    · rintro ⟨⟨hfirst, hrest⟩, rfl⟩
      exact ⟨_, _, ⟨hfirst, rfl⟩, ⟨hrest, rfl⟩, rfl⟩

/-- The same steps for each element have the same effect. -/
theorem mapM_congr {m : Type → Type} [Monad m] [LawfulMonad m] {α β : Type} {step step' : α → m β}
    {elements : List α} (h : ∀ element ∈ elements, step element = step' element) :
    elements.mapM step = elements.mapM step' := by
  induction elements with
  | nil => rfl
  | cons first rest ih =>
    rw [List.mapM_cons, List.mapM_cons, h first List.mem_cons_self,
      ih fun element helement => h element (List.mem_cons_of_mem _ helement)]

/-- An optional step succeeds when it is left out or succeeds. -/
theorem option_mapM_eq_ok_iff {ε α β : Type} {step : α → Except ε β} {element? : Option α}
    {value? : Option β} :
    element?.mapM step = .ok value? ↔ (element? = none ∧ value? = none) ∨
      ∃ element value, element? = some element ∧ value? = some value ∧
        step element = .ok value := by
  cases element? with
  | none =>
    constructor
    · exact fun h => .inl ⟨rfl, (Except.ok.inj h).symm⟩
    · rintro (⟨-, rfl⟩ | ⟨_, _, hsome, -⟩)
      · rfl
      · exact absurd hsome (by simp)
  | some element =>
    rw [Option.mapM_some]
    constructor
    · intro h
      obtain ⟨value, hvalue, hsome⟩ := except_bind_eq_ok_iff.mp h
      exact .inr ⟨element, value, rfl, (Except.ok.inj hsome).symm, hvalue⟩
    · rintro (⟨hnone, -⟩ | ⟨_, value, ⟨rfl⟩, rfl, hvalue⟩)
      · exact absurd hnone (by simp)
      · exact except_bind_eq_ok_iff.mpr ⟨value, hvalue, rfl⟩

/-- An optional step can succeed when it is left out or can succeed. -/
theorem exists_option_mapM_iff {ε α β : Type} {step : α → Except ε β} {element? : Option α} :
    (∃ value?, element?.mapM step = .ok value?) ↔
      ∀ element, element? = some element → ∃ value, step element = .ok value := by
  simp only [option_mapM_eq_ok_iff]
  cases element? with
  | none => simp
  | some element => simp

/-- What is read off the state of a fold changes as it does from step to step. -/
theorem foldlM_reads {ε α β γ : Type} {step : β → α → Except ε β} (read : β → γ)
    (change : γ → α → γ) {elements : List α}
    (hstep : ∀ state, ∀ element ∈ elements, ∀ state', step state element = .ok state' →
      read state' = change (read state) element) {start final : β}
    (h : elements.foldlM step start = .ok final) :
    read final = elements.foldl change (read start) := by
  induction elements generalizing start with
  | nil =>
    rw [List.foldlM_nil] at h
    cases h
    rfl
  | cons first rest ih =>
    rw [List.foldlM_cons] at h
    obtain ⟨middle, hfirst, hrest⟩ := except_bind_eq_ok_iff.mp h
    rw [List.foldl_cons, ← hstep start first List.mem_cons_self middle hfirst]
    exact ih (fun state element helement => hstep state element (List.mem_cons_of_mem _ helement))
      hrest

/-- A fold succeeds when every element is good, if a step succeeds exactly with a good element. -/
theorem exists_foldlM_eq_ok_iff {ε α β : Type} {step : β → α → Except ε β} {Good : α → Prop}
    (hstep : ∀ state element, (∃ state', step state element = .ok state') ↔ Good element)
    {elements : List α} {start : β} :
    (∃ final, elements.foldlM step start = .ok final) ↔ ∀ element ∈ elements, Good element := by
  induction elements generalizing start with
  | nil => exact iff_of_true ⟨start, rfl⟩ fun _ h => absurd h List.not_mem_nil
  | cons first rest ih =>
    rw [List.foldlM_cons, List.forall_mem_cons, ← hstep start first]
    constructor
    · rintro ⟨final, h⟩
      obtain ⟨middle, hfirst, hrest⟩ := except_bind_eq_ok_iff.mp h
      exact ⟨⟨middle, hfirst⟩, ih.mp ⟨final, hrest⟩⟩
    · rintro ⟨⟨middle, hfirst⟩, hgood⟩
      obtain ⟨final, hrest⟩ := ih.mpr hgood
      exact ⟨final, except_bind_eq_ok_iff.mpr ⟨middle, hfirst, hrest⟩⟩

/-- Steps that succeed with good elements, each with the state of a function, do so in a fold. -/
theorem foldlM_eq_ok_iff_foldl {ε α β : Type} {step : β → α → Except ε β} {Good : α → Prop}
    {f : β → α → β}
    (hstep : ∀ state element state', step state element = .ok state' ↔
      Good element ∧ state' = f state element)
    {elements : List α} {start final : β} :
    elements.foldlM step start = .ok final ↔
      (∀ element ∈ elements, Good element) ∧ final = elements.foldl f start := by
  induction elements generalizing start with
  | nil =>
    rw [List.foldlM_nil]
    simp [pure, Except.pure, eq_comm]
  | cons first rest ih =>
    simp only [List.foldlM_cons, except_bind_eq_ok_iff, hstep, ih, List.forall_mem_cons,
      List.foldl_cons]
    constructor
    · rintro ⟨_, ⟨hfirst, rfl⟩, hrest, hfinal⟩
      exact ⟨⟨hfirst, hrest⟩, hfinal⟩
    · rintro ⟨⟨hfirst, hrest⟩, hfinal⟩
      exact ⟨_, ⟨hfirst, rfl⟩, hrest, hfinal⟩

/-- Each value belongs to one of the elements. -/
theorem exists_of_mem_forall₂ {α β : Type} {R : α → β → Prop} {elements : List α}
    {values : List β} (h : List.Forall₂ R elements values) {value : β} (hmem : value ∈ values) :
    ∃ element ∈ elements, R element value := by
  induction h with
  | nil => exact absurd hmem List.not_mem_nil
  | cons hfirst _ ih =>
    rcases List.mem_cons.mp hmem with rfl | hmem
    · exact ⟨_, List.mem_cons_self, hfirst⟩
    · obtain ⟨element, helement, hrelated⟩ := ih hmem
      exact ⟨element, List.mem_cons_of_mem _ helement, hrelated⟩

end Gateway
