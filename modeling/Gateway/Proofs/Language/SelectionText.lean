import Gateway.Proofs.Language.Layout

/-!
# The text of selections

A selection is printed as a first line and the block of the selections inside of it
(`Selection.toList_print`). Selections that are laid out, as those that are read from a document
are, have first lines that are one line, so they hang in the block of their selection set: a printed
selection set can be taken apart again into the texts of its selections, and the text of a field
shows its name behind its alias (`readName?`).

So selection sets with the same text have fields of the same names
(`map_name_eq_of_selectionSetKey_eq`), which is what the tables that are keyed by such texts rely
on.
-/

namespace Gateway

/-! ## Selections -/

/-- A selection whose names are names and whose arguments and directives stand on one line, as do
those of all selections inside of it. -/
inductive Selection.IsLaidOut : Selection → Prop
  /-- A field. -/
  | field {node : Field} (hname : Name.isValid node.name = true)
    (halias : ∀ key, node.alias? = some key → Name.isValid key = true)
    (harguments : ∀ argument ∈ node.arguments, OneLine argument.print)
    (hdirectives : ∀ directive ∈ node.directives, OneLine directive.print)
    (hselections : ∀ selection ∈ node.selections, selection.IsLaidOut) :
    IsLaidOut (.field node)
  /-- A spread. -/
  | spread {fragment : Name} {directives : List Directive}
    (hfragment : Name.isValid fragment = true)
    (hdirectives : ∀ directive ∈ directives, OneLine directive.print) :
    IsLaidOut (.spread fragment directives)
  /-- An inline fragment. -/
  | inline {condition : Option Name} {directives : List Directive} {selections : List Selection}
    (hcondition : ∀ name, condition = some name → Name.isValid name = true)
    (hdirectives : ∀ directive ∈ directives, OneLine directive.print)
    (hselections : ∀ selection ∈ selections, selection.IsLaidOut) :
    IsLaidOut (.inline condition directives selections)

/-- The printed selections are the texts of all selections. -/
theorem printAll_eq_map (depth : Nat) (selections : List Selection) :
    Selection.printAll depth selections = selections.map (Selection.print depth) := by
  induction selections with
  | nil => rw [Selection.printAll, List.map_nil]
  | cons first rest ih => rw [Selection.printAll, ih, List.map_cons]

/-- The characters of the texts of selections. -/
def texts (depth : Nat) (selections : List Selection) : List (List Char) :=
  selections.map fun selection => (selection.print depth).toList

/-- The characters of the block of selections. -/
theorem toList_block_printAll (depth : Nat) {selections : List Selection} (h : selections ≠ []) :
    (block depth (Selection.printAll (depth + 1) selections)).toList =
      '\x7b' :: '\n' :: blockLines depth (texts (depth + 1) selections) := by
  rw [printAll_eq_map, toList_block depth (mt List.map_eq_nil_iff.mp h), List.map_map]
  rfl

/-! ## First lines -/

/-- The label of a field. -/
def aliasLabel : Option Name → String
  | none => ""
  | some key => key ++ ": "

/-- What stands behind the dots of an inline fragment. -/
def conditionLabel : Option Name → String
  | none => ""
  | some name => " on " ++ name

/-- What stands behind the name of a field on its first line. -/
def fieldHead (arguments : List Argument) (directives : List Directive)
    (selections : List Selection) : String :=
  parenthesized (arguments.map Argument.print) ++ (printDirectives directives ++
    if selections.isEmpty then "" else " \x7b")

/-- What stands behind the condition of an inline fragment on its first line. -/
def inlineHead (directives : List Directive) (selections : List Selection) : String :=
  printDirectives directives ++ if selections.isEmpty then " \x7b\x7d" else " \x7b"

/-- The first line of a selection. -/
def Selection.firstLine : Selection → String
  | .field node => aliasLabel node.alias? ++ (node.name ++
      fieldHead node.arguments node.directives node.selections)
  | .spread fragment directives => "..." ++ (fragment ++ printDirectives directives)
  | .inline condition directives selections =>
    "..." ++ (conditionLabel condition ++ inlineHead directives selections)

/-- What is selected directly inside of a selection. -/
def Selection.inner : Selection → List Selection
  | .field node => node.selections
  | .spread _ _ => []
  | .inline _ _ selections => selections

/-- The characters of a selection behind its first line, which are those of the block of the
selections inside. -/
def behindFirst (depth : Nat) (selections : List Selection) : List Char :=
  if selections.isEmpty then [] else '\n' :: blockLines depth (texts (depth + 1) selections)

/-- A selection is printed as its first line and what stands behind that. -/
theorem Selection.toList_print (depth : Nat) (selection : Selection) :
    (selection.print depth).toList =
      selection.firstLine.toList ++ behindFirst depth selection.inner := by
  -- A block opens on the line of what it belongs to.
  have hopens : ∀ (selections : List Selection) (head : String), selections ≠ [] →
      head.toList ++ (' ' :: (block depth (printAll (depth + 1) selections)).toList) =
        (head ++ " \x7b").toList ++ behindFirst depth selections := by
    intro selections head hselections
    rw [toList_block_printAll depth hselections, behindFirst,
      if_neg (by simpa using hselections), String.toList_append]
    simp
  cases selection with
  | field node =>
    obtain ⟨alias?, name, arguments, directives, selections⟩ := node
    unfold firstLine inner fieldHead aliasLabel
    cases selections with
    | nil => cases alias? <;> simp [print, behindFirst, String.append_assoc]
    | cons first rest =>
      have hopen := hopens (first :: rest) (((aliasLabel alias? ++ name) ++
        parenthesized (arguments.map Argument.print)) ++ printDirectives directives) (by simp)
      cases alias? <;> simpa [print, aliasLabel] using hopen
  | spread fragment directives => simp [print, firstLine, inner, behindFirst]
  | inline condition directives selections =>
    unfold firstLine inner inlineHead conditionLabel
    cases selections with
    | nil =>
      have hempty : block depth (printAll (depth + 1) []) = "\x7b\x7d" := rfl
      cases condition <;> simp [print, behindFirst, hempty]
    | cons first rest =>
      have hopen := hopens (first :: rest) (("..." ++ conditionLabel condition) ++
        printDirectives directives) (by simp)
      cases condition <;> simpa [print, conditionLabel] using hopen

/-- The first line of a selection that is laid out is one line. -/
theorem Selection.IsLaidOut.oneLine_firstLine {selection : Selection} (h : selection.IsLaidOut) :
    OneLine selection.firstLine := by
  have hfieldEnd : ∀ selections : List Selection,
      OneLine (if selections.isEmpty then "" else " \x7b") := by
    intro selections
    split
    · decide
    · decide
  cases h with
  | @field node hname halias harguments hdirectives _ =>
    have hlabel : OneLine (aliasLabel node.alias?) := by
      cases hkey : node.alias? with
      | none => decide
      | some key => exact (OneLine.ofName (halias key hkey)).append (by decide)
    have hgiven : OneLine (parenthesized (node.arguments.map Argument.print)) :=
      OneLine.parenthesized (List.forall_mem_map.mpr harguments)
    exact hlabel.append ((OneLine.ofName hname).append
      (hgiven.append ((OneLine.printDirectives hdirectives).append (hfieldEnd _))))
  | spread hfragment hdirectives =>
    exact OneLine.append (by decide)
      ((OneLine.ofName hfragment).append (OneLine.printDirectives hdirectives))
  | @inline condition directives selections hcondition hdirectives _ =>
    have hlabel : OneLine (conditionLabel condition) := by
      cases condition with
      | none => decide
      | some name => exact OneLine.append (by decide) (OneLine.ofName (hcondition name rfl))
    have hend : OneLine (if selections.isEmpty then " \x7b\x7d" else " \x7b") := by
      split
      · decide
      · decide
    exact OneLine.append (by decide)
      (hlabel.append ((OneLine.printDirectives hdirectives).append hend))

/-- What is inside of a selection that is laid out is laid out. -/
theorem Selection.IsLaidOut.inner {selection : Selection} (h : selection.IsLaidOut) :
    ∀ inner ∈ selection.inner, inner.IsLaidOut := by
  cases h with
  | field _ _ _ _ hselections => exact hselections
  | spread => exact fun _ hmem => absurd hmem List.not_mem_nil
  | inline _ _ hselections => exact hselections

/-- A selection hangs when its first line is one line and what is inside of it hangs. -/
theorem Selection.hangs_print {selection : Selection} (hfirst : OneLine selection.firstLine)
    {depth : Nat}
    (hinner : ∀ inner ∈ selection.inner, Hangs (depth + 1) (inner.print (depth + 1)).toList) :
    Hangs depth (selection.print depth).toList := by
  rw [toList_print]
  refine (hfirst.hangs depth).append ?_
  unfold behindFirst
  split
  · trivial
  · exact Hangs.newline (indented_blockLines _ _)
      (hangs_blockLines (List.forall_mem_map.mpr hinner))

/-- The lines behind the first one belong to the selection. -/
theorem Selection.IsLaidOut.hangs {selection : Selection} (h : selection.IsLaidOut) (depth : Nat) :
    Hangs depth (selection.print depth).toList := by
  induction h generalizing depth with
  | field hname halias harguments hdirectives hselections ih =>
    have hfirst := (IsLaidOut.field hname halias harguments hdirectives
      hselections).oneLine_firstLine
    exact hangs_print hfirst fun inner hmem => ih inner hmem (depth + 1)
  | spread hfragment hdirectives =>
    have hfirst := (IsLaidOut.spread hfragment hdirectives).oneLine_firstLine
    exact hangs_print hfirst fun inner hmem => absurd hmem List.not_mem_nil
  | inline hcondition hdirectives hselections ih =>
    have hfirst := (IsLaidOut.inline hcondition hdirectives hselections).oneLine_firstLine
    exact hangs_print hfirst fun inner hmem => ih inner hmem (depth + 1)

/-- What stands behind the name of a field. -/
def behindName (depth : Nat) (node : Field) : List Char :=
  (fieldHead node.arguments node.directives node.selections).toList ++
    behindFirst depth node.selections

/-- A field is printed as its label, its name and what stands behind it. -/
theorem toList_print_field (depth : Nat) (node : Field) :
    ((Selection.field node).print depth).toList =
      (aliasLabel node.alias?).toList ++ (node.name.toList ++ behindName depth node) := by
  rw [Selection.toList_print]
  simp [Selection.firstLine, Selection.inner, behindName]

/-! ## Reading names back -/

/-- The name of a field in its text, or nothing for the text of a fragment. -/
def readName? (text : List Char) : Option (List Char) :=
  if text.head? = some '.' then none
  else
    match text.dropWhile Name.isContinue with
    | ':' :: ' ' :: rest => some (rest.takeWhile Name.isContinue)
    | _ => some (text.takeWhile Name.isContinue)

/-- A text does not go on with a name character. -/
def EndsName (text : List Char) : Prop :=
  ∀ c ∈ text.head?, Name.isContinue c = false

/-- Name characters in front of others are taken. -/
theorem takeWhile_name_append {name : Name} (h : Name.isValid name = true) {rest : List Char}
    (hrest : EndsName rest) :
    (name.toList ++ rest).takeWhile Name.isContinue = name.toList ∧
      (name.toList ++ rest).dropWhile Name.isContinue = rest := by
  have hall : ∀ c ∈ name.toList, Name.isContinue c = true := fun c hc => isContinue_of_mem h hc
  have hstop : rest.takeWhile Name.isContinue = [] ∧ rest.dropWhile Name.isContinue = rest := by
    cases rest with
    | nil => exact ⟨rfl, rfl⟩
    | cons c behind =>
      have hc := hrest c rfl
      rw [List.takeWhile_cons, List.dropWhile_cons, hc]
      exact ⟨rfl, rfl⟩
  rw [List.takeWhile_append_of_pos hall, List.dropWhile_append_of_pos hall, hstop.1, hstop.2,
    List.append_nil]
  exact ⟨rfl, rfl⟩

/-- A name begins with a character that begins no fragment and is no blank. -/
theorem exists_head_of_isValid {name : Name} (h : Name.isValid name = true) :
    ∃ c rest, name.toList = c :: rest ∧ Name.isStart c = true := by
  unfold Name.isValid at h
  cases hname : name.toList with
  | nil =>
    rw [hname] at h
    exact absurd h (by simp)
  | cons c rest =>
    rw [hname] at h
    exact ⟨c, rest, rfl, (Bool.and_eq_true_iff.mp h).1⟩

/-- What stands behind the name of a field does not go on with it, nor is it a colon. -/
theorem behindName_head (depth : Nat) (node : Field) :
    ∀ c ∈ (behindName depth node).head?, c = '(' ∨ c = ' ' := by
  -- Each part may be empty, so it is looked at in front of any rest that begins as it should.
  have hgiven : ∀ texts : List String, ∀ rest : List Char,
      (∀ c ∈ rest.head?, c = '(' ∨ c = ' ') →
        ∀ c ∈ ((parenthesized texts).toList ++ rest).head?, c = '(' ∨ c = ' ' := by
    intro texts rest hrest
    unfold parenthesized
    split
    · exact hrest
    · intro c hc
      simp at hc
      exact .inl hc.symm
  have hdirected : ∀ (directives : List Directive) (rest : List Char),
      (∀ c ∈ rest.head?, c = '(' ∨ c = ' ') →
        ∀ c ∈ ((printDirectives directives).toList ++ rest).head?, c = '(' ∨ c = ' ' := by
    intro directives rest hrest
    unfold printDirectives
    cases directives with
    | nil => exact hrest
    | cons first others =>
      intro c hc
      simp at hc
      exact .inr hc.symm
  unfold behindName fieldHead
  rw [String.toList_append, String.toList_append, List.append_assoc, List.append_assoc]
  refine hgiven _ _ (hdirected _ _ ?_)
  unfold behindFirst
  split
  · exact fun c hc => absurd hc (by simp)
  · rintro c ⟨rfl⟩
    exact .inr rfl

/-- A text that begins with a name does not begin with the dots of a fragment. -/
theorem head?_name_append_ne {name : Name} (h : Name.isValid name = true) (rest : List Char) :
    (name.toList ++ rest).head? ≠ some '.' := by
  intro hdot
  obtain ⟨c, others, hlist, hstart⟩ := exists_head_of_isValid h
  rw [hlist, List.cons_append, List.head?_cons, Option.some.injEq] at hdot
  rw [hdot] at hstart
  exact absurd hstart (by decide)

/-- No name goes on with what stands behind names. -/
theorem endsName_of_head {rest : List Char} (h : ∀ c ∈ rest.head?, c = '(' ∨ c = ' ') :
    EndsName rest := by
  intro c hc
  rcases h c hc with rfl | rfl
  · decide
  · decide

/-- A name is read back from in front of what stands behind names. -/
theorem readName?_name {name : Name} (h : Name.isValid name = true) {rest : List Char}
    (hrest : ∀ c ∈ rest.head?, c = '(' ∨ c = ' ') :
    readName? (name.toList ++ rest) = some name.toList := by
  have hends := endsName_of_head hrest
  obtain ⟨htake, hdrop⟩ := takeWhile_name_append h hends
  unfold readName?
  rw [if_neg (head?_name_append_ne h rest), hdrop, htake]
  split
  · have habsurd := hrest ':' rfl
    exact absurd habsurd (by decide)
  · rfl

/-- A name is read back from behind an alias. -/
theorem readName?_alias {key name : Name} (hkey : Name.isValid key = true)
    (h : Name.isValid name = true) {rest : List Char}
    (hrest : ∀ c ∈ rest.head?, c = '(' ∨ c = ' ') :
    readName? (key.toList ++ ':' :: ' ' :: (name.toList ++ rest)) = some name.toList := by
  have hends := endsName_of_head hrest
  have hcolon : EndsName (':' :: ' ' :: (name.toList ++ rest)) := by
    rintro c ⟨rfl⟩
    decide
  obtain ⟨-, hdrop⟩ := takeWhile_name_append hkey hcolon
  obtain ⟨htake, -⟩ := takeWhile_name_append h hends
  unfold readName?
  rw [if_neg (head?_name_append_ne hkey _), hdrop]
  exact congrArg some htake

/-- The name of a selected field is read back from its text. -/
theorem Selection.IsLaidOut.readName?_print {selection : Selection} (h : selection.IsLaidOut)
    (depth : Nat) :
    readName? (selection.print depth).toList =
      selection.asField?.map fun node => node.name.toList := by
  cases h with
  | spread =>
    rw [toList_print, firstLine, String.toList_append]
    rfl
  | inline =>
    rw [toList_print, firstLine, String.toList_append]
    rfl
  | @field node hname halias _ _ _ =>
    have hbehind := behindName_head depth node
    rw [toList_print_field]
    cases hkey : node.alias? with
    | none => exact readName?_name hname hbehind
    | some key =>
      have hlabel : (aliasLabel (some key)).toList = key.toList ++ [':', ' '] :=
        String.toList_append
      rw [hlabel, List.append_assoc]
      exact readName?_alias (halias key hkey) hname hbehind

/-- The text of a selection begins like one. -/
theorem Selection.IsLaidOut.begins {selection : Selection} (h : selection.IsLaidOut)
    (depth : Nat) : Begins (selection.print depth).toList := by
  have hnamed : ∀ {name : Name} (rest : List Char), Name.isValid name = true →
      Begins (name.toList ++ rest) := by
    intro name rest hvalid
    obtain ⟨c, others, hlist, hstart⟩ := exists_head_of_isValid hvalid
    refine ⟨c, others ++ rest, by rw [hlist, List.cons_append], ?_, ?_⟩
    · rintro rfl
      exact absurd hstart (by decide)
    · rintro rfl
      exact absurd hstart (by decide)
  cases h with
  | spread =>
    rw [toList_print, firstLine, String.toList_append]
    exact ⟨'.', _, rfl, by decide, by decide⟩
  | inline =>
    rw [toList_print, firstLine, String.toList_append]
    exact ⟨'.', _, rfl, by decide, by decide⟩
  | @field node hname halias _ _ _ =>
    rw [toList_print_field]
    cases hkey : node.alias? with
    | none =>
      have hlabel : (aliasLabel none).toList = [] := rfl
      rw [hlabel, List.nil_append]
      exact hnamed _ hname
    | some key =>
      have hlabel : (aliasLabel (some key)).toList = key.toList ++ [':', ' '] :=
        String.toList_append
      rw [hlabel, List.append_assoc]
      exact hnamed _ (halias key hkey)

/-! ## Selection sets -/

/-- The text by which a selection set is known is its block. -/
theorem selectionSetKey_eq (selections : List Selection) :
    selectionSetKey selections = block 0 (Selection.printAll 1 selections) ++ "\n" := by
  change "\n".intercalate [Definition.print true (.operation { selections }) ++ "\n"] = _
  rw [String.intercalate_singleton]
  simp [Definition.print, Operation.print, printSelections]

/-- The texts of laid out selections are read back from that of their selection set. -/
theorem texts_eq_of_selectionSetKey_eq {selections selections' : List Selection}
    (h : ∀ selection ∈ selections, selection.IsLaidOut)
    (h' : ∀ selection ∈ selections', selection.IsLaidOut)
    (heq : selectionSetKey selections = selectionSetKey selections') :
    texts 1 selections = texts 1 selections' := by
  have hblock : (block 0 (Selection.printAll 1 selections)).toList =
      (block 0 (Selection.printAll 1 selections')).toList := by
    rw [selectionSetKey_eq, selectionSetKey_eq, ← String.toList_inj, String.toList_append,
      String.toList_append] at heq
    exact List.append_cancel_right heq
  rw [printAll_eq_map, printAll_eq_map] at hblock
  have hlines := map_toList_eq_of_block_eq
    (List.forall_mem_map.mpr fun selection hmem => (h selection hmem).begins 1)
    (List.forall_mem_map.mpr fun selection hmem => (h' selection hmem).begins 1)
    (List.forall_mem_map.mpr fun selection hmem => (h selection hmem).hangs 1)
    (List.forall_mem_map.mpr fun selection hmem => (h' selection hmem).hangs 1) hblock
  rw [List.map_map, List.map_map] at hlines
  exact hlines

/-- The names of the fields among laid out selections are read back from their texts. -/
theorem filterMap_readName?_print {selections : List Selection}
    (h : ∀ selection ∈ selections, selection.IsLaidOut) :
    (texts 1 selections).filterMap readName? =
      (directFields selections).map fun node => node.name.toList := by
  unfold texts directFields
  induction selections with
  | nil => rfl
  | cons first rest ih =>
    obtain ⟨hfirst, hrest⟩ := List.forall_mem_cons.mp h
    rw [List.map_cons, List.filterMap_cons, hfirst.readName?_print, ih hrest, List.filterMap_cons]
    cases first.asField? <;> rfl

/-- Selection sets that are known by the same text select fields of the same names in order. -/
theorem map_name_eq_of_selectionSetKey_eq {selections selections' : List Selection}
    (h : ∀ selection ∈ selections, selection.IsLaidOut)
    (h' : ∀ selection ∈ selections', selection.IsLaidOut)
    (heq : selectionSetKey selections = selectionSetKey selections') :
    (directFields selections).map FieldOf.name = (directFields selections').map FieldOf.name := by
  have htexts := congrArg (List.filterMap readName?) (texts_eq_of_selectionSetKey_eq h h' heq)
  rw [filterMap_readName?_print h, filterMap_readName?_print h'] at htexts
  have hnames := congrArg (List.map String.ofList) htexts
  rw [List.map_map, List.map_map] at hnames
  simpa [Function.comp_def] using hnames

end Gateway
