import Gateway.Proofs.Language.SelectionText

/-!
# What the text of a selection shows

The text of a selection that is laid out shows what the selection is: fields show their names,
inline fragments their conditions, and the block behind the first line shows what is selected
inside. So selections with the same text are alike, and inside of them the texts are the same again
(`Selection.IsLaidOut.alike_of_print_eq`).
-/

namespace Gateway

/-- Selections of one kind: fields of the same name, spreads, or inline fragments with the same
condition. -/
inductive Selection.Alike : Selection → Selection → Prop
  /-- Fields. -/
  | field {node node' : Field} (name : node.name = node'.name) : Alike (.field node) (.field node')
  /-- Spreads. -/
  | spread {fragment fragment' : Name} {directives directives' : List Directive} :
    Alike (.spread fragment directives) (.spread fragment' directives')
  /-- Inline fragments. -/
  | inline {condition : Option Name} {directives directives' : List Directive}
    {selections selections' : List Selection} :
    Alike (.inline condition directives selections) (.inline condition directives' selections')

/-! ## The block -/

/-- A text is taken apart into its first line and what stands behind it. -/
theorem firstLine_append_inj {head head' : String} (h : OneLine head) (h' : OneLine head')
    {depth : Nat} {selections selections' : List Selection}
    (heq : head.toList ++ behindFirst depth selections =
      head'.toList ++ behindFirst depth selections') :
    head.toList = head'.toList ∧ behindFirst depth selections = behindFirst depth selections' := by
  have hline : ∀ {head : String}, OneLine head → ∀ selections : List Selection,
      (head.toList ++ behindFirst depth selections).takeWhile (· ≠ '\n') = head.toList := by
    intro head hhead selections
    have hall : ∀ c ∈ head.toList, decide (c ≠ '\n') = true := by
      rintro c hc
      exact decide_eq_true fun hend => hhead (hend ▸ hc)
    rw [List.takeWhile_append_of_pos hall]
    unfold behindFirst
    split
    · rw [List.takeWhile_nil, List.append_nil]
    · rw [List.takeWhile_cons, if_neg (by decide), List.append_nil]
  have hhead : head.toList = head'.toList := by
    rw [← hline h selections, heq, hline h' selections']
  rw [hhead] at heq
  exact ⟨hhead, List.append_cancel_left heq⟩

/-- The texts of laid out selections are read back from their block. -/
theorem texts_eq_of_behindFirst_eq {depth : Nat} {selections selections' : List Selection}
    (h : ∀ selection ∈ selections, selection.IsLaidOut)
    (h' : ∀ selection ∈ selections', selection.IsLaidOut)
    (heq : behindFirst depth selections = behindFirst depth selections') :
    texts (depth + 1) selections = texts (depth + 1) selections' := by
  unfold behindFirst at heq
  split at heq
  · rename_i hnil
    split at heq
    · rename_i hnil'
      rw [List.isEmpty_iff.mp hnil, List.isEmpty_iff.mp hnil']
    · exact absurd heq (by simp)
  · split at heq
    · exact absurd heq (by simp)
    · exact blockLines_injective
        (List.forall_mem_map.mpr fun selection hmem => (h selection hmem).begins _)
        (List.forall_mem_map.mpr fun selection hmem => (h' selection hmem).begins _)
        (List.forall_mem_map.mpr fun selection hmem => (h selection hmem).hangs _)
        (List.forall_mem_map.mpr fun selection hmem => (h' selection hmem).hangs _)
        (List.cons.inj heq).2

/-- Among selections with the same texts each one has one with its text. -/
theorem exists_of_texts_eq {depth : Nat} {selections selections' : List Selection}
    (h : texts depth selections = texts depth selections') {selection' : Selection}
    (hmem : selection' ∈ selections') :
    ∃ selection ∈ selections, (selection.print depth).toList = (selection'.print depth).toList := by
  have htext : (selection'.print depth).toList ∈ texts depth selections' :=
    List.mem_map_of_mem hmem
  rw [← h] at htext
  exact List.mem_map.mp htext

/-! ## The first line -/

/-- Behind the condition of an inline fragment stand directives or a brace. -/
theorem inlineHead_begins (directives : List Directive) (selections : List Selection) :
    ∃ c rest, (inlineHead directives selections).toList = ' ' :: c :: rest ∧
      (c = '@' ∨ c = '\x7b') := by
  unfold inlineHead
  rw [String.toList_append]
  cases directives with
  | nil =>
    have hnone : (printDirectives []).toList = [] := rfl
    rw [hnone, List.nil_append]
    split
    · exact ⟨'\x7b', ['\x7d'], rfl, .inr rfl⟩
    · exact ⟨'\x7b', [], rfl, .inr rfl⟩
  | cons first others =>
    unfold printDirectives Directive.print
    rw [List.map_cons, String.join_cons]
    simp only [String.toList_append, List.append_assoc]
    exact ⟨'@', _, rfl, .inl rfl⟩

/-- The condition of an inline fragment is read back from its first line. -/
theorem conditionLabel_append_inj {condition condition' : Option Name}
    (h : ∀ name, condition = some name → Name.isValid name = true)
    (h' : ∀ name, condition' = some name → Name.isValid name = true)
    {directives directives' : List Directive} {selections selections' : List Selection}
    (heq : (conditionLabel condition).toList ++ (inlineHead directives selections).toList =
      (conditionLabel condition').toList ++ (inlineHead directives' selections').toList) :
    condition = condition' := by
  have hlabel : ∀ name, (conditionLabel (some name)).toList = " on ".toList ++ name.toList :=
    fun _ => String.toList_append
  have hnone : (conditionLabel none).toList = [] := rfl
  -- A condition goes on with an "o" behind the blank, and what stands behind conditions does not.
  have hother : ∀ (directives : List Directive) (selections : List Selection) (rest : List Char),
      (inlineHead directives selections).toList ≠ " on ".toList ++ rest := by
    intro directives selections rest heq
    obtain ⟨c, behind, hhead, hc⟩ := inlineHead_begins directives selections
    rw [hhead] at heq
    have hon : c = 'o' := (List.cons.inj (List.cons.inj heq).2).1
    rcases hc with rfl | rfl
    · exact absurd hon (by decide)
    · exact absurd hon (by decide)
  have hends : ∀ (directives : List Directive) (selections : List Selection),
      EndsName (inlineHead directives selections).toList := by
    intro directives selections c hc
    obtain ⟨_, _, hhead, -⟩ := inlineHead_begins directives selections
    rw [hhead] at hc
    cases hc
    decide
  cases condition with
  | none =>
    cases condition' with
    | none => rfl
    | some name' =>
      rw [hnone, List.nil_append, hlabel, List.append_assoc] at heq
      exact absurd heq (hother _ _ _)
  | some name =>
    cases condition' with
    | none =>
      rw [hnone, List.nil_append, hlabel, List.append_assoc] at heq
      exact absurd heq.symm (hother _ _ _)
    | some name' =>
      rw [hlabel, hlabel, List.append_assoc, List.append_assoc] at heq
      have htaken := congrArg (List.takeWhile Name.isContinue) (List.append_cancel_left heq)
      rw [(takeWhile_name_append (h name rfl) (hends _ _)).1,
        (takeWhile_name_append (h' name' rfl) (hends _ _)).1, String.toList_inj] at htaken
      rw [htaken]

/-- The first line of a spread is that of no inline fragment. -/
theorem firstLine_spread_ne_inline {fragment : Name} (h : Name.isValid fragment = true)
    (directives directives' : List Directive) (condition : Option Name)
    (selections : List Selection) :
    (Selection.spread fragment directives).firstLine.toList ≠
      (Selection.inline condition directives' selections).firstLine.toList := by
  intro heq
  obtain ⟨c, behind, hname, hstart⟩ := exists_head_of_isValid h
  have hblank : ∃ rest, (conditionLabel condition).toList ++
      (inlineHead directives' selections).toList = ' ' :: rest := by
    cases condition with
    | none =>
      obtain ⟨c, rest, hhead, -⟩ := inlineHead_begins directives' selections
      exact ⟨c :: rest, hhead⟩
    | some name =>
      rw [conditionLabel, String.toList_append]
      exact ⟨_, rfl⟩
  obtain ⟨rest, hrest⟩ := hblank
  unfold Selection.firstLine at heq
  rw [String.toList_append, String.toList_append, String.toList_append, String.toList_append] at heq
  have hbehind := List.append_cancel_left heq
  rw [hname, hrest] at hbehind
  rw [(List.cons.inj hbehind).1] at hstart
  exact absurd hstart (by decide)

/-! ## Selections -/

/-- Selections with the same text are alike, and so are the texts of what is inside of them. -/
theorem Selection.IsLaidOut.alike_of_print_eq {selection selection' : Selection} {depth : Nat}
    (h : selection.IsLaidOut) (h' : selection'.IsLaidOut)
    (heq : (selection.print depth).toList = (selection'.print depth).toList) :
    selection.Alike selection' ∧
      texts (depth + 1) selection.inner = texts (depth + 1) selection'.inner := by
  -- The name that is read from the text tells fields from fragments.
  have hnames := congrArg readName? heq
  rw [h.readName?_print, h'.readName?_print] at hnames
  rw [toList_print, toList_print] at heq
  obtain ⟨hfirst, hbehind⟩ := firstLine_append_inj h.oneLine_firstLine h'.oneLine_firstLine heq
  refine ⟨?_, texts_eq_of_behindFirst_eq h.inner h'.inner hbehind⟩
  cases h with
  | field =>
    cases h' with
    | field => exact .field (String.toList_inj.mp (Option.some.inj hnames))
    | spread => exact absurd hnames (by simp [asField?])
    | inline => exact absurd hnames (by simp [asField?])
  | spread hfragment =>
    cases h' with
    | field => exact absurd hnames (by simp [asField?])
    | spread => exact .spread
    | inline => exact absurd hfirst (firstLine_spread_ne_inline hfragment _ _ _ _)
  | inline hcondition =>
    cases h' with
    | field => exact absurd hnames (by simp [asField?])
    | spread hfragment => exact absurd hfirst.symm (firstLine_spread_ne_inline hfragment _ _ _ _)
    | inline hcondition' =>
      unfold firstLine at hfirst
      rw [String.toList_append, String.toList_append, String.toList_append,
        String.toList_append] at hfirst
      rw [conditionLabel_append_inj hcondition hcondition' (List.append_cancel_left hfirst)]
      exact .inline

end Gateway
