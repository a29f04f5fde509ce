import Gateway.Language.Printer
import Mathlib.Tactic.Common

/-!
# The layout of printed texts

Values, arguments and directives are printed on one line (`OneLine`), and what a block holds is
indented more than the block. So the lines of a printed block are told apart by their indentation:
in the text of one entry every line behind the first is indented more than the entry or closes its
block (`Hangs`), and a block can be taken apart again into the texts of its entries
(`map_toList_eq_of_block_eq`).
-/

namespace Gateway

/-! ## Texts on one line -/

/-- A text stands on one line. -/
def OneLine (text : String) : Prop :=
  '\n' ∉ text.toList

/-- Whether a text stands on one line can be decided. -/
instance (text : String) : Decidable (OneLine text) :=
  inferInstanceAs (Decidable ('\n' ∉ text.toList))

/-- Texts on one line are on one line together. -/
theorem OneLine.append {text other : String} (h : OneLine text) (hother : OneLine other) :
    OneLine (text ++ other) := by
  unfold OneLine at h hother ⊢
  rw [String.toList_append, List.mem_append, not_or]
  exact ⟨h, hother⟩

/-- Texts on one line are on one line when they are joined. -/
theorem OneLine.join {texts : List String} (h : ∀ text ∈ texts, OneLine text) :
    OneLine (String.join texts) := by
  unfold OneLine
  rw [String.toList_join, List.mem_flatMap]
  rintro ⟨text, htext, hmem⟩
  exact h text htext hmem

/-- Texts on one line are on one line when they are separated by one. -/
theorem OneLine.intercalate {separator : String} (hseparator : OneLine separator)
    {texts : List String} (h : ∀ text ∈ texts, OneLine text) :
    OneLine (separator.intercalate texts) := by
  induction texts with
  | nil => exact List.not_mem_nil
  | cons first rest ih =>
    obtain ⟨hfirst, hrest⟩ := List.forall_mem_cons.mp h
    cases rest with
    | nil =>
      rw [String.intercalate_singleton]
      exact hfirst
    | cons second rest =>
      rw [String.intercalate_cons_cons]
      exact (hfirst.append hseparator).append (ih hrest)

/-- The characters of a name. -/
theorem isContinue_of_mem {name : Name} (h : Name.isValid name = true) {c : Char}
    (hc : c ∈ name.toList) : Name.isContinue c = true := by
  unfold Name.isValid at h
  generalize name.toList = cs at h hc
  cases cs with
  | nil => exact absurd hc List.not_mem_nil
  | cons first rest =>
    obtain ⟨hfirst, hrest⟩ := Bool.and_eq_true_iff.mp h
    rcases List.mem_cons.mp hc with rfl | hmem
    · unfold Name.isContinue
      rw [hfirst, Bool.true_or]
    · exact List.all_eq_true.mp hrest c hmem

/-- A name stands on one line. -/
theorem OneLine.ofName {name : Name} (h : Name.isValid name = true) : OneLine name := by
  intro hmem
  exact absurd (isContinue_of_mem h hmem) (by decide)

/-- A character inside a string stands on one line. -/
theorem OneLine.escapeCharacter (c : Char) : OneLine (escapeCharacter c) := by
  have hhex : ∀ n < 0x20, OneLine (upperHex4 n) := by
    unfold OneLine upperHex4 Json.hex4 String.toUpper
    simp only [String.toList_map, String.toList_ofList]
    decide
  unfold Gateway.escapeCharacter
  split
  · decide
  · decide
  · decide
  · decide
  · decide
  · decide
  · decide
  · rename_i hline _ _ _ _
    by_cases hcontrol : c.toNat < 0x20
    · rw [if_pos hcontrol]
      exact OneLine.append (by decide) (hhex _ hcontrol)
    · rw [if_neg hcontrol]
      unfold OneLine
      rw [String.toList_singleton, List.mem_singleton]
      exact fun h => hline h.symm

/-- A quoted string stands on one line. -/
theorem OneLine.quoteString (text : String) : OneLine (quoteString text) := by
  unfold Gateway.quoteString
  refine OneLine.append (OneLine.append (by decide) (OneLine.join ?_)) (by decide)
  intro part hpart
  obtain ⟨c, -, rfl⟩ := List.mem_map.mp hpart
  exact OneLine.escapeCharacter c

/-- A list stands on one line when its items do. -/
theorem OneLine.list {items : List Literal} (h : ∀ item ∈ items, OneLine item.print) :
    OneLine (Literal.list items).print := by
  have hitems : ∀ text ∈ Literal.printItems items, OneLine text := by
    induction items with
    | nil =>
      rw [Literal.printItems]
      exact fun _ hmem => absurd hmem List.not_mem_nil
    | cons first rest ih =>
      obtain ⟨hfirst, hrest⟩ := List.forall_mem_cons.mp h
      rw [Literal.printItems]
      exact List.forall_mem_cons.mpr ⟨hfirst, ih hrest⟩
  rw [Literal.print]
  exact ((OneLine.append (by decide) (OneLine.intercalate (by decide) hitems))).append (by decide)

/-- An input object stands on one line when its fields do. -/
theorem OneLine.object {fields : List (Name × Literal)}
    (h : ∀ field ∈ fields, Name.isValid field.1 = true ∧ OneLine field.2.print) :
    OneLine (Literal.object fields).print := by
  have hfields : ∀ text ∈ Literal.printFields fields, OneLine text := by
    induction fields with
    | nil =>
      rw [Literal.printFields]
      exact fun _ hmem => absurd hmem List.not_mem_nil
    | cons first rest ih =>
      obtain ⟨hfirst, hrest⟩ := List.forall_mem_cons.mp h
      rw [Literal.printFields]
      refine List.forall_mem_cons.mpr ⟨?_, ih hrest⟩
      exact ((OneLine.ofName hfirst.1).append (by decide)).append hfirst.2
  rw [Literal.print]
  exact (OneLine.append (by decide) (OneLine.intercalate (by decide) hfields)).append (by decide)

/-- Texts in parentheses stand on one line when they do. -/
theorem OneLine.parenthesized {texts : List String} (h : ∀ text ∈ texts, OneLine text) :
    OneLine (parenthesized texts) := by
  unfold Gateway.parenthesized
  split
  · decide
  · exact (OneLine.append (by decide) (OneLine.intercalate (by decide) h)).append (by decide)

/-- Directives stand on one line when each does. -/
theorem OneLine.printDirectives {directives : List Directive}
    (h : ∀ directive ∈ directives, OneLine directive.print) :
    OneLine (printDirectives directives) := by
  unfold Gateway.printDirectives
  refine OneLine.join fun text htext => ?_
  obtain ⟨directive, hdirective, rfl⟩ := List.mem_map.mp htext
  exact OneLine.append (by decide) (h directive hdirective)

/-! ## Indentation -/

/-- The start of a line at a depth, as characters. -/
theorem toList_indentation (depth : Nat) :
    (indentation depth).toList = List.replicate (2 * depth) ' ' := by
  unfold indentation
  generalize 2 * depth = n
  rw [String.pushn_eq_repeat_push]
  induction n with
  | zero => rfl
  | succ n ih => rw [Nat.repeat, String.toList_push, ih, List.replicate_succ']

/-- A line belongs to a block at the depth: it is indented more, or it closes the block. -/
def Indented (depth : Nat) (line : List Char) : Prop :=
  List.replicate (2 * (depth + 1)) ' ' <+: line ∨
    List.replicate (2 * depth) ' ' ++ ['\x7d'] <+: line

/-- All lines of a text behind the first one belong to a block at the depth. -/
def Hangs (depth : Nat) : List Char → Prop
  | [] => True
  | c :: rest => (c = '\n' → Indented depth rest) ∧ Hangs depth rest

/-- What stands behind a line does not matter. -/
theorem Indented.append {depth : Nat} {line : List Char} (h : Indented depth line)
    (rest : List Char) : Indented depth (line ++ rest) := by
  unfold Indented at h ⊢
  exact h.imp (fun hstart => hstart.trans (List.prefix_append _ _))
    fun hstart => hstart.trans (List.prefix_append _ _)

/-- A line of a deeper block belongs to the block. -/
theorem Indented.outer {depth : Nat} {line : List Char} (h : Indented (depth + 1) line) :
    Indented depth line := by
  refine .inl ?_
  rcases h with h | h
  · refine List.IsPrefix.trans ?_ h
    have hsplit : 2 * (depth + 1 + 1) = 2 * (depth + 1) + 2 := by omega
    rw [hsplit, ← List.replicate_append_replicate]
    exact List.prefix_append _ _
  · exact List.IsPrefix.trans (List.prefix_append _ _) h

/-- Lines of a deeper block belong to the block. -/
theorem Hangs.outer {depth : Nat} {text : List Char} (h : Hangs (depth + 1) text) :
    Hangs depth text := by
  induction text with
  | nil => trivial
  | cons c rest ih => exact ⟨fun hc => (h.1 hc).outer, ih h.2⟩

/-- A text on one line has no lines behind the first one. -/
theorem OneLine.hangs {text : String} (h : OneLine text) (depth : Nat) :
    Hangs depth text.toList := by
  unfold OneLine at h
  generalize text.toList = cs at h
  induction cs with
  | nil => trivial
  | cons c rest ih =>
    rw [List.mem_cons, not_or] at h
    exact ⟨fun hc => absurd hc.symm h.1, ih h.2⟩

/-- Texts with such lines have such lines together. -/
theorem Hangs.append {depth : Nat} {text other : List Char} (h : Hangs depth text)
    (hother : Hangs depth other) : Hangs depth (text ++ other) := by
  induction text with
  | nil => exact hother
  | cons c rest ih => exact ⟨fun hc => (h.1 hc).append other, ih h.2⟩

/-- A line that belongs to the block can come next. -/
theorem Hangs.newline {depth : Nat} {line : List Char} (hline : Indented depth line)
    (h : Hangs depth line) : Hangs depth ('\n' :: line) :=
  ⟨fun _ => hline, h⟩

/-! ## Blocks -/

/-- The characters of a block behind its first line. -/
def blockLines (depth : Nat) : List (List Char) → List Char
  | [] => List.replicate (2 * depth) ' ' ++ ['\x7d']
  | line :: rest =>
    List.replicate (2 * (depth + 1)) ' ' ++ line ++ '\n' :: blockLines depth rest

/-- The characters of a block that has lines. -/
theorem toList_block (depth : Nat) {lines : List String} (h : lines ≠ []) :
    (block depth lines).toList = '\x7b' :: '\n' :: blockLines depth (lines.map String.toList) := by
  have hlines : ∀ lines : List String,
      (String.join (lines.map fun line => indentation (depth + 1) ++ line ++ "\n")).toList ++
        ((indentation depth).toList ++ ['\x7d']) =
          blockLines depth (lines.map String.toList) := by
    intro lines
    induction lines with
    | nil =>
      rw [List.map_nil, List.map_nil, blockLines, toList_indentation]
      rfl
    | cons line rest ih =>
      rw [List.map_cons, List.map_cons, blockLines, String.join_cons, String.toList_append,
        List.append_assoc, ih, String.toList_append, String.toList_append, toList_indentation]
      simp
  unfold block
  rw [List.isEmpty_eq_false_iff.mpr h, if_neg Bool.false_ne_true, ← hlines]
  simp [String.toList_append]

/-- The first line behind that of a block belongs to it. -/
theorem indented_blockLines (depth : Nat) (lines : List (List Char)) :
    Indented depth (blockLines depth lines) := by
  cases lines with
  | nil => exact .inr List.prefix_rfl
  | cons line rest =>
    refine .inl ?_
    rw [blockLines, List.append_assoc]
    exact List.prefix_append _ _

/-- All lines of a block belong to it. -/
theorem hangs_blockLines {depth : Nat} {lines : List (List Char)}
    (h : ∀ line ∈ lines, Hangs (depth + 1) line) : Hangs depth (blockLines depth lines) := by
  have hspaces : ∀ n, Hangs depth (List.replicate n ' ') := by
    intro n
    induction n with
    | zero => trivial
    | succ n ih => exact ⟨fun hc => absurd hc (by decide), ih⟩
  induction lines with
  | nil => exact (hspaces _).append ⟨fun hc => absurd hc (by decide), trivial⟩
  | cons line rest ih =>
    obtain ⟨hline, hrest⟩ := List.forall_mem_cons.mp h
    rw [blockLines]
    exact ((hspaces _).append hline.outer).append
      (Hangs.newline (indented_blockLines depth rest) (ih hrest))

/-- Where a text with deeper lines ends in front of a line that is none of them, it ends there in
every reading. -/
theorem Hangs.append_inj {depth : Nat} {text text' rest rest' : List Char}
    (h : Hangs depth text) (h' : Hangs depth text') (hrest : ¬ Indented depth rest)
    (hrest' : ¬ Indented depth rest')
    (heq : text ++ '\n' :: rest = text' ++ '\n' :: rest') : text = text' ∧ rest = rest' := by
  -- Both texts are walked at once. Where one ends first the other goes on with a line that is
  -- indented, and that line is the rest behind the first.
  induction text generalizing text' with
  | nil =>
    cases text' with
    | nil => exact ⟨rfl, (List.cons.inj heq).2⟩
    | cons c behind =>
      rw [List.nil_append, List.cons_append] at heq
      obtain ⟨hc, hbehind⟩ := List.cons.inj heq
      have hindented := (h'.1 hc.symm).append ('\n' :: rest')
      rw [← hbehind] at hindented
      exact absurd hindented hrest
  | cons c behind ih =>
    cases text' with
    | nil =>
      rw [List.nil_append, List.cons_append] at heq
      obtain ⟨hc, hbehind⟩ := List.cons.inj heq
      have hindented := (h.1 hc).append ('\n' :: rest)
      rw [hbehind] at hindented
      exact absurd hindented hrest'
    | cons c' behind' =>
      obtain ⟨hc, hbehind⟩ := List.cons.inj heq
      obtain ⟨hsame, hsame'⟩ := ih h.2 h'.2 hbehind
      exact ⟨by rw [hc, hsame], hsame'⟩

/-- A line that begins a selection begins with neither a blank nor a closing brace. -/
def Begins (line : List Char) : Prop :=
  ∃ c rest, line = c :: rest ∧ c ≠ ' ' ∧ c ≠ '\x7d'

/-- Neither a selection nor the end of a block belongs to a block inside. -/
theorem not_indented_blockLines {depth : Nat} {lines : List (List Char)}
    (h : ∀ line ∈ lines, Begins line) : ¬ Indented (depth + 1) (blockLines depth lines) := by
  cases lines with
  | nil =>
    rw [blockLines]
    unfold Indented
    rintro (hstart | hstart)
    · have hlength := hstart.length_le
      rw [List.length_append, List.length_replicate, List.length_replicate,
        List.length_singleton] at hlength
      omega
    · have hlength := hstart.length_le
      rw [List.length_append, List.length_append, List.length_replicate, List.length_replicate,
        List.length_singleton] at hlength
      omega
  | cons line rest =>
    obtain ⟨⟨c, behind, rfl, hblank, hclose⟩, -⟩ := List.forall_mem_cons.mp h
    rw [blockLines, List.append_assoc]
    unfold Indented
    rw [show 2 * (depth + 1 + 1) = 2 * (depth + 1) + 2 by omega,
      ← List.replicate_append_replicate]
    rintro (hstart | hstart)
    · rw [List.prefix_append_right_inj] at hstart
      exact hblank (List.cons_prefix_cons.mp hstart).1.symm
    · rw [List.prefix_append_right_inj] at hstart
      exact hclose (List.cons_prefix_cons.mp hstart).1.symm

/-- A block can be taken apart into its lines. -/
theorem blockLines_injective {depth : Nat} {lines lines' : List (List Char)}
    (hbegins : ∀ line ∈ lines, Begins line) (hbegins' : ∀ line ∈ lines', Begins line)
    (hhangs : ∀ line ∈ lines, Hangs (depth + 1) line)
    (hhangs' : ∀ line ∈ lines', Hangs (depth + 1) line)
    (heq : blockLines depth lines = blockLines depth lines') : lines = lines' := by
  -- The closing brace is indented less than what stands in the block.
  have hends : ∀ line rest, blockLines depth [] ≠ blockLines depth (line :: rest) := by
    intro line rest hends
    have hsplit : 2 * (depth + 1) = 2 * depth + 2 := by omega
    rw [blockLines, blockLines, hsplit, ← List.replicate_append_replicate, List.append_assoc,
      List.append_assoc, List.append_cancel_left_eq] at hends
    exact absurd (List.cons.inj hends).1 (by decide)
  induction lines generalizing lines' with
  | nil =>
    cases lines' with
    | nil => rfl
    | cons line rest => exact absurd heq (hends line rest)
  | cons line rest ih =>
    cases lines' with
    | nil => exact absurd heq.symm (hends line rest)
    | cons line' rest' =>
      obtain ⟨-, hbegins⟩ := List.forall_mem_cons.mp hbegins
      obtain ⟨-, hbegins'⟩ := List.forall_mem_cons.mp hbegins'
      obtain ⟨hline, hhangs⟩ := List.forall_mem_cons.mp hhangs
      obtain ⟨hline', hhangs'⟩ := List.forall_mem_cons.mp hhangs'
      rw [blockLines, blockLines, List.append_assoc, List.append_assoc,
        List.append_cancel_left_eq] at heq
      obtain ⟨hsame, hrest⟩ := hline.append_inj hline' (not_indented_blockLines hbegins)
        (not_indented_blockLines hbegins') heq
      rw [hsame, ih hbegins hbegins' hhangs hhangs' hrest]

/-- A printed block can be taken apart into its lines. -/
theorem map_toList_eq_of_block_eq {depth : Nat} {lines lines' : List String}
    (hbegins : ∀ line ∈ lines, Begins line.toList) (hbegins' : ∀ line ∈ lines', Begins line.toList)
    (hhangs : ∀ line ∈ lines, Hangs (depth + 1) line.toList)
    (hhangs' : ∀ line ∈ lines', Hangs (depth + 1) line.toList)
    (heq : (block depth lines).toList = (block depth lines').toList) :
    lines.map String.toList = lines'.map String.toList := by
  -- An empty block closes on its first line.
  have hends : ∀ {lines : List String}, lines ≠ [] →
      (block depth []).toList ≠ (block depth lines).toList := by
    intro lines hlines hends
    have hempty : block depth [] = "\x7b\x7d" := rfl
    have hlist : "\x7b\x7d".toList = ['\x7b', '\x7d'] := by decide
    rw [toList_block depth hlines, hempty, hlist] at hends
    exact absurd (List.cons.inj (List.cons.inj hends).2).1 (by decide)
  by_cases hlines : lines = []
  · by_cases hlines' : lines' = []
    · rw [hlines, hlines']
    · rw [hlines] at heq
      exact absurd heq (hends hlines')
  · by_cases hlines' : lines' = []
    · rw [hlines'] at heq
      exact absurd heq.symm (hends hlines)
    · rw [toList_block depth hlines, toList_block depth hlines'] at heq
      exact blockLines_injective (List.forall_mem_map.mpr hbegins)
        (List.forall_mem_map.mpr hbegins') (List.forall_mem_map.mpr hhangs)
        (List.forall_mem_map.mpr hhangs') (List.cons.inj (List.cons.inj heq).2).2

end Gateway
