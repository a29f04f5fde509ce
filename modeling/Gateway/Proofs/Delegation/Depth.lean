import Gateway.Delegation.Delegate
import Gateway.Proofs.Entries
import Gateway.Proofs.Except
import Gateway.Proofs.Language.Nesting
import Mathlib.Logic.Relation

/-!
# The depth of selections

A field is selected by what stands around it up to the next field, also through fragments
(`Selects`). How deep fields are selected below each other (`NestedWithin`) is bounded when no
fragment spreads itself (`Acyclic`): on the way down no fragment is followed twice, so no field of
the document is counted twice (`Selects.exists_spent`), and the fields of the document are enough
(`GatewayOperation.nestedWithin_mergeDepth`).

What is collected under a field is selected by it (`selects_of_mem_subFields`). So a gateway field
below another one (`FieldInfo.Below`) stands further down in the result, by a response key of the
operation at least (`FieldInfo.Below.exists_path`), and is nested less deep
(`FieldInfo.Below.nestedWithin`).
-/

namespace Gateway

/-! ## Selected nodes -/

/-- Selections select a node, themselves or through fragments, but not below another field. -/
inductive Selects (fragments : Entries Fragment) (node : Field) : List Selection → Prop
  /-- The node is one of the selections. -/
  | here {selections : List Selection} (mem : .field node ∈ selections) :
    Selects fragments node selections
  /-- An inline fragment selects the node. -/
  | inline {selections inner : List Selection} {condition : Option Name}
    {directives : List Directive} (mem : .inline condition directives inner ∈ selections)
    (within : Selects fragments node inner) : Selects fragments node selections
  /-- A fragment that is spread selects the node. -/
  | spread {selections : List Selection} {name : Name} {directives : List Directive}
    {fragment : Fragment} (mem : .spread name directives ∈ selections)
    (found : fragments.get? name = some fragment)
    (within : Selects fragments node fragment.selections) : Selects fragments node selections

/-- What selections select, more of them select. -/
theorem Selects.mono {fragments : Entries Fragment} {node : Field}
    {selections others : List Selection} (h : Selects fragments node selections)
    (hsub : selections ⊆ others) : Selects fragments node others := by
  cases h with
  | here mem => exact .here (hsub mem)
  | inline mem within => exact .inline (hsub mem) within
  | spread mem found within => exact .spread (hsub mem) found within

/-- What one of the selections selects, they select. -/
theorem Selects.of_mem {fragments : Entries Fragment} {node : Field} {selection : Selection}
    {selections : List Selection} (h : Selects fragments node [selection])
    (hmem : selection ∈ selections) : Selects fragments node selections :=
  h.mono (List.cons_subset.mpr ⟨hmem, List.nil_subset _⟩)

/-- Fields are selected below each other, at most as many as given. -/
def NestedWithin (fragments : Entries Fragment) : Nat → List Selection → Prop
  | 0, selections => ∀ node, ¬ Selects fragments node selections
  | depth + 1, selections => ∀ node, Selects fragments node selections →
    NestedWithin fragments depth node.selections

/-- What is nested within a depth is nested within one more. -/
theorem NestedWithin.succ {fragments : Entries Fragment} {depth : Nat}
    {selections : List Selection} (h : NestedWithin fragments depth selections) :
    NestedWithin fragments (depth + 1) selections := by
  induction depth generalizing selections with
  | zero => exact fun node hselects => absurd hselects (h node)
  | succ depth ih => exact fun node hselects => ih (h node hselects)

/-! ## Acyclic fragments -/

/-- The fragment of a name spreads another one, at any depth. -/
def Spreads (fragments : Entries Fragment) (name other : Name) : Prop :=
  ∃ fragment directives, fragments.get? name = some fragment ∧
    Occurs (.spread other directives) fragment.selections

/-- No fragment spreads itself, not even through others. -/
def Acyclic (fragments : Entries Fragment) : Prop :=
  ∀ name, ¬ Relation.TransGen (Spreads fragments) name name

/-- Fragments are acyclic when they can be ranked above those that they spread. -/
theorem acyclic_of_rank {fragments : Entries Fragment} (rank : Name → Nat)
    (h : ∀ name other, Spreads fragments name other → rank other < rank name) :
    Acyclic fragments := by
  have hlt : ∀ name other, Relation.TransGen (Spreads fragments) name other →
      rank other < rank name := by
    intro name other hreaches
    induction hreaches with
    | single hspreads => exact h _ _ hspreads
    | tail _ hspreads ih => exact Nat.lt_trans (h _ _ hspreads) ih
  exact fun name hcycle => Nat.lt_irrefl _ (hlt name name hcycle)

/-- Selections spread a fragment, themselves or through fragments that they spread. -/
def SpreadFrom (fragments : Entries Fragment) (selections : List Selection) (name : Name) :
    Prop :=
  ∃ first directives, Occurs (.spread first directives) selections ∧
    Relation.ReflTransGen (Spreads fragments) first name

section Acyclic

variable {fragments : Entries Fragment} {selections : List Selection} {node : Field}

/-- What is spread below a field is spread. -/
theorem SpreadFrom.of_field {name : Name} (mem : .field node ∈ selections)
    (h : SpreadFrom fragments node.selections name) : SpreadFrom fragments selections name := by
  obtain ⟨first, directives, hoccurs, hreaches⟩ := h
  exact ⟨first, directives, .field mem hoccurs, hreaches⟩

/-- What an inline fragment spreads is spread. -/
theorem SpreadFrom.of_inline {name : Name} {condition : Option Name}
    {directives : List Directive} {inner : List Selection}
    (mem : .inline condition directives inner ∈ selections)
    (h : SpreadFrom fragments inner name) : SpreadFrom fragments selections name := by
  obtain ⟨first, directives, hoccurs, hreaches⟩ := h
  exact ⟨first, directives, .inline mem hoccurs, hreaches⟩

/-- What a fragment spreads, it leads to. -/
theorem SpreadFrom.transGen {name other : Name} {fragment : Fragment}
    (found : fragments.get? name = some fragment)
    (h : SpreadFrom fragments fragment.selections other) :
    Relation.TransGen (Spreads fragments) name other := by
  obtain ⟨first, directives, hoccurs, hreaches⟩ := h
  exact .head' ⟨fragment, directives, found, hoccurs⟩ hreaches

/-- What a fragment that is spread spreads is spread. -/
theorem SpreadFrom.of_spread {name other : Name} {directives : List Directive}
    {fragment : Fragment} (mem : .spread name directives ∈ selections)
    (found : fragments.get? name = some fragment)
    (h : SpreadFrom fragments fragment.selections other) :
    SpreadFrom fragments selections other :=
  ⟨name, directives, .here mem, (h.transGen found).to_reflTransGen⟩

/-- Selections hold the fields of each of them. -/
theorem fieldCount_le_of_mem {selection : Selection} (mem : selection ∈ selections) :
    selection.fieldCount ≤ fieldCountAll selections := by
  induction selections with
  | nil => exact absurd mem List.not_mem_nil
  | cons first rest ih =>
    rw [fieldCountAll]
    rcases List.mem_cons.mp mem with rfl | mem
    · exact Nat.le_add_right _ _
    · exact Nat.le_trans (ih mem) (Nat.le_add_left _ _)

/-- A field holds one more than what is selected below it. -/
theorem fieldCount_field (node : Field) :
    (Selection.field node).fieldCount = fieldCountAll node.selections + 1 := by
  obtain ⟨alias?, name, arguments, directives, selections⟩ := node
  rw [Selection.fieldCount]

/-- The fields that are left for selections: theirs and those of the fragments that are not
spent. -/
def fieldsLeft (fragments : Entries Fragment) (selections : List Selection)
    (spent : List Name) : Nat :=
  fieldCountAll selections
    + fragments.totalWithout (fun fragment => fieldCountAll fragment.selections) spent

/-- One field less is left below a selected node, when the fragments on the way to it are spent. It
spreads none of them, because no fragment spreads itself. -/
theorem Selects.exists_spent (h : Selects fragments node selections)
    (hacyclic : Acyclic fragments) {spent : List Name}
    (hspent : ∀ name ∈ spent, ¬ SpreadFrom fragments selections name) :
    ∃ spent', (∀ name ∈ spent', ¬ SpreadFrom fragments node.selections name) ∧
      fieldsLeft fragments node.selections spent' < fieldsLeft fragments selections spent := by
  unfold fieldsLeft
  induction h generalizing spent with
  | here mem =>
    refine ⟨spent, fun name hname hspread => hspent name hname (hspread.of_field mem), ?_⟩
    have hcount := fieldCount_le_of_mem mem
    rw [fieldCount_field] at hcount
    omega
  | inline mem _ ih =>
    obtain ⟨spent', hspent', hlt⟩ :=
      ih fun name hname hspread => hspent name hname (hspread.of_inline mem)
    have hcount := fieldCount_le_of_mem mem
    rw [Selection.fieldCount] at hcount
    exact ⟨spent', hspent', by omega⟩
  | @spread _ name _ fragment mem found _ ih =>
    -- The fragment is spent; it was not before, because the selections spread it.
    have hfresh : name ∉ spent := fun hname => hspent name hname ⟨name, _, .here mem, .refl⟩
    have hspending : ∀ other ∈ spent ++ [name],
        ¬ SpreadFrom fragments fragment.selections other := by
      intro other hother hspread
      rcases List.mem_append.mp hother with hother | hother
      · exact hspent other hother (hspread.of_spread mem found)
      · rw [List.mem_singleton.mp hother] at hspread
        exact hacyclic name (hspread.transGen found)
    obtain ⟨spent', hspent', hlt⟩ := ih hspending
    have htotal := Entries.totalWithout_concat_add_le
      (fun fragment => fieldCountAll fragment.selections) found hfresh
    exact ⟨spent', hspent', by omega⟩

/-- Selections are nested within the fields that are left for them. -/
theorem nestedWithin_of_fieldsLeft_le (hacyclic : Acyclic fragments) {depth : Nat}
    (spent : List Name) (hspent : ∀ name ∈ spent, ¬ SpreadFrom fragments selections name)
    (hle : fieldsLeft fragments selections spent ≤ depth) :
    NestedWithin fragments depth selections := by
  induction depth generalizing selections spent with
  | zero =>
    intro node hselects
    obtain ⟨_, -, hlt⟩ := hselects.exists_spent hacyclic hspent
    omega
  | succ depth ih =>
    intro node hselects
    obtain ⟨spent', hspent', hlt⟩ := hselects.exists_spent hacyclic hspent
    exact ih spent' hspent' (by omega)

/-- With acyclic fragments, an operation is nested less deep than the bound of its merges. -/
theorem GatewayOperation.nestedWithin_mergeDepth {operation : GatewayOperation}
    (hacyclic : Acyclic operation.fragments) :
    NestedWithin operation.fragments operation.mergeDepth operation.operation.selections := by
  refine NestedWithin.succ (nestedWithin_of_fieldsLeft_le hacyclic []
    (fun _ hname => absurd hname List.not_mem_nil) (Nat.le_of_eq ?_))
  unfold fieldsLeft
  rw [Entries.totalWithout_nil]

end Acyclic

/-! ## Collected nodes -/

/-- Every collected node has a property and stands under its response key. -/
def Collected.Only (P : Field → Prop) (collected : Collected) : Prop :=
  ∀ entry ∈ collected.fields, ∀ node ∈ entry.2, node.responseKey = entry.1 ∧ P node

section Collected

variable {scope : Scope} {type : Name} {P : Field → Prop} {collected : Collected}

/-- A node with the property may be added. -/
theorem Collected.Only.addField (h : collected.Only P) {node : Field} (hnode : P node) :
    (collected.addField node).Only P := by
  intro entry hentry listed hlisted
  rcases Entries.mem_push hentry hlisted with ⟨hkey, rfl⟩ | ⟨earlier, hmem, hkey, hearlier⟩
  · exact ⟨hkey.symm, hnode⟩
  · rw [← hkey]
    exact h earlier hmem listed hearlier

/-- What is collected from a list of selections has the property when this holds for each of
them. -/
theorem Scope.only_collectSelections_of_forall {follow : Fragment → Collected → Collected}
    {selections : List Selection}
    (h : ∀ selection ∈ selections, ∀ collected : Collected, collected.Only P →
      (scope.collectSelection type follow selection collected).Only P)
    (hcollected : collected.Only P) :
    (scope.collectSelections type follow selections collected).Only P := by
  induction selections generalizing collected with
  | nil => exact hcollected
  | cons first rest ih =>
    rw [collectSelections]
    exact ih (fun selection hmem => h selection (List.mem_cons_of_mem _ hmem))
      (h first List.mem_cons_self collected hcollected)

/-- What is collected from a selection has the property when the nodes that it selects have it and
following a fragment keeps it. -/
theorem Scope.only_collectSelection {follow : Fragment → Collected → Collected}
    (hfollow : ∀ (fragment : Fragment) (collected : Collected),
      (∀ node, Selects scope.fragments node fragment.selections → P node) →
        collected.Only P → (follow fragment collected).Only P)
    (selection : Selection) (hselected : ∀ node, Selects scope.fragments node [selection] → P node)
    (h : collected.Only P) :
    (scope.collectSelection type follow selection collected).Only P := by
  induction selection using Selection.nestedInduction generalizing collected with
  | field node =>
    obtain ⟨alias?, name, arguments, directives, selections⟩ := node
    rw [collectSelection]
    split
    · exact h.addField (hselected _ (.here List.mem_cons_self))
    · exact h
  | spread fragment directives =>
    rw [collectSelection]
    split
    · split
      · rename_i definition hfound
        split
        · exact hfollow definition (collected.visit fragment) (fun node hselects =>
            hselected node (.spread List.mem_cons_self hfound hselects)) h
        · exact h
      · exact h
    · exact h
  | inline condition directives selections ih =>
    rw [collectSelection]
    split
    · refine only_collectSelections_of_forall (fun inner hmem collected hcollected => ?_) h
      refine ih inner hmem (fun node hselects => ?_) hcollected
      have hsub : [inner] ⊆ selections := List.cons_subset.mpr ⟨hmem, List.nil_subset _⟩
      exact hselected node (.inline List.mem_cons_self (hselects.mono hsub))
    · exact h

/-- What is collected has the property when all selected nodes have it. -/
theorem Scope.only_collectWithin (fuel : Nat) {selections : List Selection}
    (hselected : ∀ node, Selects scope.fragments node selections → P node)
    (h : collected.Only P) : (scope.collectWithin type fuel selections collected).Only P := by
  induction fuel generalizing selections collected with
  | zero =>
    exact only_collectSelections_of_forall (fun selection hmem _ =>
      only_collectSelection (fun _ _ _ hcollected => hcollected) selection
        fun node hselects => hselected node (hselects.of_mem hmem)) h
  | succ fuel ih =>
    exact only_collectSelections_of_forall (fun selection hmem _ =>
      only_collectSelection (fun _ _ => ih) selection
        fun node hselects => hselected node (hselects.of_mem hmem)) h

/-- What is found under a response key is selected, and has this response key. -/
theorem selects_of_mem_fieldsOf {selections : List Selection} {key : Name} {nodes : List Field}
    (h : (key, nodes) ∈ scope.fieldsOf type selections) :
    ∀ node ∈ nodes, node.responseKey = key ∧ Selects scope.fragments node selections :=
  Scope.only_collectWithin scope.fragments.length (fun _ hselects => hselects)
    (fun _ hentry => absurd hentry List.not_mem_nil) _ h

/-- What is found under a response key below nodes is selected by one of them, and has this response
key. -/
theorem selects_of_mem_subFields {parents : List Field} {key : Name} {nodes : List Field}
    (h : (key, nodes) ∈ scope.subFields type parents) :
    ∀ node ∈ nodes, node.responseKey = key ∧
      ∃ parent ∈ parents, Selects scope.fragments node parent.selections := by
  have honly : Collected.Only
      (fun node => ∃ parent ∈ parents, Selects scope.fragments node parent.selections)
      (parents.foldl (fun collected parent => scope.collect type parent.selections collected)
        {}) := by
    refine List.foldlRecOn parents _ (fun _ hentry => absurd hentry List.not_mem_nil) ?_
    intro collected hcollected parent hmem
    exact Scope.only_collectWithin _ (fun node hselects => ⟨parent, hmem, hselects⟩) hcollected
  exact honly _ h

end Collected

/-! ## Gateway fields below each other -/

namespace FieldInfo

/-- The gateway fields within a gateway field: the field itself, what is selected on its value, and
so on, each also at the items of its lists. -/
inductive Within (info : FieldInfo) : FieldInfo → Prop
  /-- The field itself. -/
  | self : Within info info
  /-- A field at an item of its list. -/
  | item {other : FieldInfo} (within : Within info other) (position : Nat) :
    Within info (other.atIndex position)
  /-- What a field selects on its value of a type. -/
  | child {other next : FieldInfo} {type key : Name} {nodes : List Field}
    (within : Within info other) (found : (other.subFields type).get? key = some nodes)
    (known : other.child? type key nodes = some next) : Within info next

/-- The gateway fields below a gateway field: those within it, from what is selected on its value
on. -/
inductive Below (info : FieldInfo) : FieldInfo → Prop
  /-- What a field selects on its value of a type. -/
  | child {other next : FieldInfo} {type key : Name} {nodes : List Field}
    (within : info.Within other) (found : (other.subFields type).get? key = some nodes)
    (known : other.child? type key nodes = some next) : Below info next
  /-- A field at an item of its list. -/
  | item {other : FieldInfo} (below : Below info other) (position : Nat) :
    Below info (other.atIndex position)

section Below

variable {info other next : FieldInfo}

/-- What is below a field is within it. -/
theorem Below.within (h : info.Below other) : info.Within other := by
  induction h with
  | child within found known => exact .child within found known
  | item _ position ih => exact .item ih position

/-- What is within a field within another one is within that one. -/
theorem Within.trans (h : info.Within other) (hnext : other.Within next) : info.Within next := by
  induction hnext with
  | self => exact h
  | item _ position ih => exact .item ih position
  | child _ found known ih => exact .child ih found known

/-- What is below a field within another one is below that one. -/
theorem Within.below_trans (h : info.Within other) (hnext : other.Below next) :
    info.Below next := by
  induction hnext with
  | child within found known => exact .child (h.trans within) found known
  | item _ position ih => exact .item ih position

/-- What is within a field below another one is below that one. -/
theorem Below.trans_within (h : info.Below other) (hnext : other.Within next) :
    info.Below next := by
  induction hnext with
  | self => exact h
  | item _ position ih => exact .item ih position
  | child _ found known ih => exact .child ih.within found known

/-- A field has the nodes and the operation that it is made of. -/
theorem of_ofNodes {operation : GatewayOperation} {type : Name} {nodes : List Field} {path : Path}
    (h : ofNodes operation type nodes path = .ok info) :
    info.operation = operation ∧ info.nodes = nodes ∧ info.path = path ∧ nodes ≠ [] := by
  cases nodes with
  | nil => cases h
  | cons node rest =>
    rw [ofNodes] at h
    split at h
    · cases h
    · cases h
      exact ⟨rfl, rfl, rfl, List.cons_ne_nil _ _⟩

/-- What is selected on a field's value belongs to the operation and stands under its key. -/
theorem of_child? {type key : Name} {nodes : List Field}
    (h : info.child? type key nodes = some next) :
    next.operation = info.operation ∧ next.nodes = nodes ∧ next.path = info.path ++ [.key key] ∧
      nodes ≠ [] := by
  unfold child? at h
  cases hmade : ofNodes info.operation type nodes (info.path.join (.key key)) with
  | error => rw [hmade] at h; cases h
  | ok made =>
    rw [hmade] at h
    cases h
    exact of_ofNodes hmade

/-- Fields within each other belong to one operation. -/
theorem Within.operation (h : info.Within other) : other.operation = info.operation := by
  induction h with
  | self => rfl
  | item _ _ ih => exact ih
  | child _ _ known ih => exact (of_child? known).1.trans ih

/-- A field within another one stands there or further down in the result. -/
theorem Within.exists_path (h : info.Within other) : ∃ rest, other.path = info.path ++ rest := by
  induction h with
  | self => exact ⟨[], (List.append_nil _).symm⟩
  | @item other _ position ih =>
    obtain ⟨rest, hpath⟩ := ih
    refine ⟨rest ++ [.index position], ?_⟩
    rw [← List.append_assoc, ← hpath]
    rfl
  | @child _ _ _ key _ _ _ known ih =>
    obtain ⟨rest, hpath⟩ := ih
    exact ⟨rest ++ [.key key], by rw [(of_child? known).2.2.1, hpath, List.append_assoc]⟩

/-- A field below another one stands further down in the result, at least by the response key of a
node that is selected within the other one. -/
theorem Below.exists_path (h : info.Below other) :
    ∃ parent above node before after, info.Within parent ∧ above ∈ parent.nodes ∧
      Selects info.operation.fragments node above.selections ∧
      other.path = info.path ++ before ++ .key node.responseKey :: after := by
  induction h with
  | @child parent next _ key nodes within found known =>
    obtain ⟨-, -, hpath, hsome⟩ := of_child? known
    obtain ⟨node, hnode⟩ := List.exists_mem_of_ne_nil nodes hsome
    obtain ⟨hkey, above, habove, hselects⟩ :=
      selects_of_mem_subFields (Entries.mem_of_get? found) node hnode
    obtain ⟨before, hbefore⟩ := within.exists_path
    refine ⟨parent, above, node, before, [], within, habove, within.operation ▸ hselects, ?_⟩
    rw [hpath, hbefore, hkey]
  | @item other _ position ih =>
    obtain ⟨parent, above, node, before, after, hwithin, habove, hselects, hpath⟩ := ih
    refine ⟨parent, above, node, before, after ++ [.index position], hwithin, habove, hselects, ?_⟩
    have hitem : (other.atIndex position).path = other.path ++ [.index position] := rfl
    rw [hitem, hpath, List.append_assoc _ (_ :: _), List.cons_append]

/-- The selections of the nodes of a field are nested within a depth. -/
def NestedWithin (info : FieldInfo) (depth : Nat) : Prop :=
  ∀ node ∈ info.nodes, Gateway.NestedWithin info.operation.fragments depth node.selections

/-- What a field selects on its value is nested one level less deep. -/
theorem NestedWithin.child {depth : Nat} {type key : Name} {nodes : List Field}
    (h : info.NestedWithin (depth + 1)) (found : (info.subFields type).get? key = some nodes)
    (known : info.child? type key nodes = some next) : next.NestedWithin depth := by
  obtain ⟨hoperation, hnodes, -, -⟩ := of_child? known
  intro node hmem
  rw [hnodes] at hmem
  rw [hoperation]
  obtain ⟨-, parent, hparent, hselects⟩ :=
    selects_of_mem_subFields (Entries.mem_of_get? found) node hmem
  exact h parent hparent node hselects

/-- What is within a field is not nested deeper. -/
theorem Within.nestedWithin {depth : Nat} (h : info.Within other)
    (hdepth : info.NestedWithin depth) : other.NestedWithin depth := by
  induction h with
  | self => exact hdepth
  | item _ _ ih => exact ih
  | child _ found known ih =>
    exact NestedWithin.child (fun node hmem => (ih node hmem).succ) found known

/-- What is below a field is nested less deep. -/
theorem Below.nestedWithin {depth : Nat} (h : info.Below other)
    (hdepth : info.NestedWithin (depth + 1)) : other.NestedWithin depth := by
  induction h with
  | child within found known => exact (within.nestedWithin hdepth).child found known
  | item _ _ ih => exact ih

/-- Nothing is collected under a field that selects nothing on its value. -/
theorem eq_nil_of_mem_subFields (h : info.NestedWithin 0) {type key : Name} {nodes : List Field}
    (hmem : (key, nodes) ∈ info.subFields type) : nodes = [] := by
  refine List.eq_nil_iff_forall_not_mem.mpr fun node hnode => ?_
  obtain ⟨-, parent, hparent, hselects⟩ := selects_of_mem_subFields hmem node hnode
  exact h parent hparent node hselects

/-- A root field of an operation is nested one level less deep than the operation. -/
theorem root_nestedWithin {operation : GatewayOperation} {key : Name} {depth : Nat}
    (h : root operation key = .ok info)
    (hdepth : Gateway.NestedWithin operation.fragments (depth + 1)
      operation.operation.selections) : info.operation = operation ∧ info.NestedWithin depth := by
  unfold root at h
  dsimp only at h
  split at h
  · cases h
  · split at h
    · cases h
    · rename_i nodes found
      obtain ⟨hoperation, hnodes, -, -⟩ := of_ofNodes h
      refine ⟨hoperation, fun node hmem => ?_⟩
      rw [hnodes] at hmem
      rw [hoperation]
      exact hdepth node (selects_of_mem_fieldsOf (Entries.mem_of_get? found) node hmem).2

end Below

end FieldInfo

end Gateway
