import Gateway.Operation.Collect
import Gateway.Proofs.Entries
import Gateway.Proofs.Language.Nesting

/-!
# Collected nodes with their types

Collecting forgets from which type a node is selected. `Scope.gatherWithin` goes the same way
through selections and fragments, and notes every node in the order in which it is met, together
with the type of the selection set in which it stands (`Scope.placesOf`). The collected fields are
these nodes by response key (`Scope.fieldsOf_eq`).
-/

namespace Gateway

/-! ## Nodes by response key -/

/-- The nodes by response key, in order. -/
def byResponseKey (nodes : List Field) : Entries (List Field) :=
  nodes.foldl (fun fields node => fields.push node.responseKey node) []

/-- A last node is added under its response key. -/
theorem byResponseKey_concat (nodes : List Field) (last : Field) :
    byResponseKey (nodes ++ [last]) = (byResponseKey nodes).push last.responseKey last := by
  unfold byResponseKey
  rw [List.foldl_append]
  rfl

/-- Under a response key are the nodes with this key, in order. -/
theorem get?_byResponseKey (nodes : List Field) (key : Name) :
    ((byResponseKey nodes).get? key).getD [] = nodes.filter (·.responseKey = key) := by
  induction nodes using List.reverseRecOn with
  | nil => rfl
  | append_singleton nodes last ih =>
    rw [byResponseKey_concat, Entries.push, Entries.get?_insert, List.filter_append, ← ih]
    by_cases hkey : key = last.responseKey
    · rw [if_pos hkey, Option.getD_some, hkey]
      simp
    · rw [if_neg hkey]
      simp [Ne.symm hkey]

/-- The keys stand in the order of the first node of each. -/
theorem keys_byResponseKey (nodes : List Field) :
    (byResponseKey nodes).keys = (nodes.map FieldOf.responseKey).eraseDups := by
  -- From behind, because a last node is what collecting adds.
  induction nodes using List.reverseRecOn with
  | nil => rfl
  | append_singleton nodes last ih =>
    rw [byResponseKey_concat, Entries.push, Entries.keys_insert, ih, List.map_append,
      List.map_singleton, List.eraseDups_append]
    unfold List.removeAll
    by_cases hmem : last.responseKey ∈ nodes.map FieldOf.responseKey
    · have hknown : List.elem last.responseKey (nodes.map FieldOf.responseKey) = true :=
        List.elem_eq_true_of_mem hmem
      rw [if_pos (List.mem_eraseDups.mpr hmem), List.filter_cons_of_neg (by rw [hknown]; simp)]
      exact (List.append_nil _).symm
    · have hnew : List.elem last.responseKey (nodes.map FieldOf.responseKey) = false := by
        rw [Bool.eq_false_iff]
        exact fun h => hmem (List.mem_of_elem_eq_true h)
      rw [if_neg fun h => hmem (List.mem_eraseDups.mp h),
        List.filter_cons_of_pos (by rw [hnew]; rfl)]
      rfl

/-! ## Gathering nodes -/

/-- A node with the type from which it is selected. -/
structure Place where
  /-- The type of the selection set. -/
  parent : Name
  /-- The node. -/
  node : Field

/-- The nodes gathered so far. -/
structure Gathered where
  /-- The nodes, in order. -/
  places : List Place := []
  /-- The fragments that have been spread. -/
  visited : List Name := []

namespace Gathered

/-- Adds a node that is selected from a type. -/
def add (gathered : Gathered) (parent : Name) (node : Field) : Gathered :=
  { gathered with places := gathered.places ++ [⟨parent, node⟩] }

/-- Notes that a fragment has been spread. -/
def visit (gathered : Gathered) (fragment : Name) : Gathered :=
  { gathered with visited := fragment :: gathered.visited }

/-- The fields that the nodes are collected to. -/
def collected (gathered : Gathered) : Collected where
  fields := byResponseKey (gathered.places.map Place.node)
  visited := gathered.visited

/-- A node is added under its response key. -/
theorem collected_add (gathered : Gathered) (parent : Name) (node : Field) :
    (gathered.add parent node).collected = gathered.collected.addField node := by
  unfold add collected Collected.addField
  rw [List.map_append, List.map_singleton, byResponseKey_concat]

end Gathered

namespace Scope

mutual

/-- Gathers from a selection on a type, following a spread fragment in the given way. -/
def gatherSelection (scope : Scope) (type : Name) (follow : Fragment → Gathered → Gathered)
    (parent : Name) : Selection → Gathered → Gathered
  | .field ⟨alias?, name, arguments, directives, selections⟩, gathered =>
    if scope.includes directives scope.vars then
      gathered.add parent ⟨alias?, name, arguments, directives, selections⟩
    else gathered
  | .inline condition directives selections, gathered =>
    if scope.includes directives scope.vars && scope.applies type condition then
      gatherSelections scope type follow (condition.getD parent) selections gathered
    else gathered
  | .spread fragment directives, gathered =>
    if scope.includes directives scope.vars && !gathered.visited.contains fragment then
      match scope.fragments.get? fragment with
      | some definition =>
        if scope.applies type (some definition.condition) then
          follow definition (gathered.visit fragment)
        else gathered.visit fragment
      | none => gathered.visit fragment
    else gathered

/-- Gathers from selections on a type, in order. -/
def gatherSelections (scope : Scope) (type : Name) (follow : Fragment → Gathered → Gathered)
    (parent : Name) : List Selection → Gathered → Gathered
  | [], gathered => gathered
  | selection :: rest, gathered =>
    gatherSelections scope type follow parent rest
      (gatherSelection scope type follow parent selection gathered)

end

/-- Follows a fragment, and spreads in it nested less deep than the fuel. -/
def follow (scope : Scope) (type : Name) : Nat → Fragment → Gathered → Gathered
  | 0 => fun _ gathered => gathered
  | fuel + 1 => fun fragment =>
    scope.gatherSelections type (follow scope type fuel) fragment.condition fragment.selections

/-- Gathers from selections on a type, following spreads nested at most as deep as the fuel. -/
def gatherWithin (scope : Scope) (type : Name) (fuel : Nat) :
    Name → List Selection → Gathered → Gathered :=
  scope.gatherSelections type (scope.follow type fuel)

section Equations

variable {scope : Scope} {type : Name} {follow : Fragment → Gathered → Gathered} {parent : Name}
  {gathered : Gathered}

/-- A field is a node when it is included. -/
theorem gatherSelection_field (node : Field) :
    scope.gatherSelection type follow parent (.field node) gathered =
      if scope.includes node.directives scope.vars then gathered.add parent node
      else gathered := by
  obtain ⟨alias?, name, arguments, directives, selections⟩ := node
  rw [gatherSelection]

/-- A spread that is not included, or was followed before, gathers nothing. -/
theorem gatherSelection_spread_skip {fragment : Name} {directives : List Directive}
    (h : ¬ (scope.includes directives scope.vars = true ∧ fragment ∉ gathered.visited)) :
    scope.gatherSelection type follow parent (.spread fragment directives) gathered =
      gathered := by
  rw [gatherSelection, if_neg]
  rw [Bool.and_eq_true, Bool.not_eq_true', Bool.eq_false_iff, ne_eq, List.contains_iff_mem]
  exact h

/-- A spread that is included for the first time is visited, and followed when its fragment
applies. -/
theorem gatherSelection_spread {fragment : Name} {directives : List Directive}
    (hincluded : scope.includes directives scope.vars = true)
    (hnew : fragment ∉ gathered.visited) :
    scope.gatherSelection type follow parent (.spread fragment directives) gathered =
      match scope.fragments.get? fragment with
      | some definition =>
        if scope.applies type (some definition.condition) then
          follow definition (gathered.visit fragment)
        else gathered.visit fragment
      | none => gathered.visit fragment := by
  rw [gatherSelection, if_pos]
  rw [Bool.and_eq_true, Bool.not_eq_true', Bool.eq_false_iff, ne_eq, List.contains_iff_mem]
  exact ⟨hincluded, hnew⟩

/-- A spread of a fragment that does not apply is visited at most. -/
theorem gatherSelection_spread_elsewhere {fragment : Name} {directives : List Directive}
    (h : ∀ definition, scope.fragments.get? fragment = some definition →
      ¬ scope.applies type (some definition.condition) = true) :
    scope.gatherSelection type follow parent (.spread fragment directives) gathered = gathered ∨
      scope.gatherSelection type follow parent (.spread fragment directives) gathered =
        gathered.visit fragment := by
  by_cases hskip : scope.includes directives scope.vars = true ∧ fragment ∉ gathered.visited
  · right
    rw [gatherSelection_spread hskip.1 hskip.2]
    cases hfound : scope.fragments.get? fragment with
    | none => rfl
    | some definition => exact if_neg (h definition hfound)
  · exact .inl (gatherSelection_spread_skip hskip)

/-- An inline fragment that is included and applies is gathered from. -/
theorem gatherSelection_inline {condition : Option Name} {directives : List Directive}
    {selections : List Selection} :
    scope.gatherSelection type follow parent (.inline condition directives selections) gathered =
      if scope.includes directives scope.vars && scope.applies type condition then
        scope.gatherSelections type follow (condition.getD parent) selections gathered
      else gathered := by
  rw [gatherSelection]

end Equations

/-- Selections are gathered from one after another. -/
theorem gatherSelections_append (scope : Scope) (type : Name)
    (follow : Fragment → Gathered → Gathered) (parent : Name) (selections more : List Selection)
    (gathered : Gathered) :
    scope.gatherSelections type follow parent (selections ++ more) gathered =
      scope.gatherSelections type follow parent more
        (scope.gatherSelections type follow parent selections gathered) := by
  induction selections generalizing gathered with
  | nil => rfl
  | cons first rest ih => rw [List.cons_append, gatherSelections, gatherSelections, ih]

/-- The nodes that selections on a type select on an object, in the order in which they are
collected. -/
def placesOf (scope : Scope) (type parent : Name) (selections : List Selection) : List Place :=
  (scope.gatherWithin type scope.fragments.length parent selections {}).places

section Collected

variable {scope : Scope} {type : Name} {follow : Fragment → Gathered → Gathered}
  {follow' : Fragment → Collected → Collected}

/-- What is gathered from a list of selections is collected from it when this holds for each of
them. -/
theorem collected_gatherSelections_of_forall {selections : List Selection}
    (h : ∀ selection ∈ selections, ∀ parent gathered,
      (scope.gatherSelection type follow parent selection gathered).collected =
        scope.collectSelection type follow' selection gathered.collected)
    (parent : Name) (gathered : Gathered) :
    (scope.gatherSelections type follow parent selections gathered).collected =
      scope.collectSelections type follow' selections gathered.collected := by
  induction selections generalizing gathered with
  | nil => rfl
  | cons first rest ih =>
    rw [gatherSelections, collectSelections,
      ih fun selection hmem => h selection (List.mem_cons_of_mem _ hmem),
      h first List.mem_cons_self]

/-- What is gathered from a selection is collected from it when fragments are followed in the same
way. -/
theorem collected_gatherSelection
    (hfollow : ∀ fragment gathered,
      (follow fragment gathered).collected = follow' fragment gathered.collected)
    (parent : Name) (selection : Selection) (gathered : Gathered) :
    (scope.gatherSelection type follow parent selection gathered).collected =
      scope.collectSelection type follow' selection gathered.collected := by
  induction selection using Selection.nestedInduction generalizing parent gathered with
  | field node =>
    obtain ⟨alias?, name, arguments, directives, selections⟩ := node
    rw [gatherSelection, collectSelection]
    split
    · exact gathered.collected_add _ _
    · rfl
  | spread fragment directives =>
    rw [gatherSelection, collectSelection]
    change _ = if scope.includes directives scope.vars &&
      !gathered.visited.contains fragment then _ else _
    split
    · cases scope.fragments.get? fragment with
      | none => rfl
      | some definition =>
        dsimp only
        split
        · exact hfollow _ _
        · rfl
    · rfl
  | inline condition directives selections ih =>
    rw [gatherSelection, collectSelection]
    split
    · exact collected_gatherSelections_of_forall ih _ _
    · rfl

/-- What is gathered within a bound is collected within it. -/
theorem collected_gatherWithin (fuel : Nat) (parent : Name) (selections : List Selection)
    (gathered : Gathered) :
    (scope.gatherWithin type fuel parent selections gathered).collected =
      scope.collectWithin type fuel selections gathered.collected := by
  induction fuel generalizing parent selections gathered with
  | zero =>
    exact collected_gatherSelections_of_forall (fun selection _ parent gathered =>
      collected_gatherSelection (fun _ _ => rfl) parent selection gathered) parent gathered
  | succ fuel ih =>
    have hfollow : ∀ fragment gathered,
        (scope.follow type (fuel + 1) fragment gathered).collected =
          scope.collectWithin type fuel fragment.selections gathered.collected :=
      fun fragment => ih fragment.condition fragment.selections
    exact collected_gatherSelections_of_forall (fun selection _ parent gathered =>
      collected_gatherSelection hfollow parent selection gathered) parent gathered

/-- The collected fields are the gathered nodes by response key. -/
theorem fieldsOf_eq (scope : Scope) (type parent : Name) (selections : List Selection) :
    scope.fieldsOf type selections =
      byResponseKey ((scope.placesOf type parent selections).map Place.node) :=
  (congrArg Collected.fields
    (collected_gatherWithin scope.fragments.length parent selections {})).symm

end Collected

end Scope

end Gateway
