import Gateway.Language.Parser
import Gateway.Proofs.Language.SelectionText
import Gateway.Proofs.Language.Token

/-!
# What readers yield

`Reader.Yields` is a triple for readers: from sound tokens a reader only yields values with a
property, and the tokens that it leaves are sound. There is one rule for each way in which readers
are put together and one lemma for each reader. In the end every selection of a document that is
read is laid out (`isLaidOut_of_parse?`), whatever else the document defines.
-/

namespace Gateway

namespace Reader

variable {α β : Type} {P : α → Prop} {Q : β → Prop}

/-- All tokens are sound. -/
def AreSound (tokens : List Lexeme) : Prop :=
  ∀ lexeme ∈ tokens, lexeme.token.IsSound

/-- From sound tokens the reader yields only such values and leaves sound tokens. -/
def Yields (reader : Reader α) (P : α → Prop) : Prop :=
  ∀ tokens, AreSound tokens → ∀ value rest, reader.run tokens = some (value, rest) →
    P value ∧ AreSound rest

/-- The reader keeps tokens sound. -/
abbrev Keeps (reader : Reader α) : Prop :=
  Yields reader fun _ => True

/-! ## Rules -/

/-- A value is yielded. -/
theorem Yields.pure {value : α} (h : P value) : Yields (pure value) P := by
  rintro tokens htokens _ _ ⟨rfl⟩
  exact ⟨h, htokens⟩

/-- A failure yields nothing. -/
theorem Yields.failure : Yields (failure : Reader α) P := by
  intro tokens htokens value rest h
  have hnone : (Alternative.failure : Reader α).run tokens = none := rfl
  exact absurd (hnone.symm.trans h) (by simp)

/-- A reader yields what the reader behind it does with what it yields itself. -/
theorem Yields.bind {reader : Reader α} {next : α → Reader β} (h : Yields reader P)
    (hnext : ∀ value, P value → Yields (next value) Q) : Yields (reader >>= next) Q := by
  intro tokens htokens value rest hrun
  rw [StateT.run_bind] at hrun
  obtain ⟨⟨first, behind⟩, hfirst, hlast⟩ := Option.bind_eq_some_iff.mp hrun
  obtain ⟨hvalue, hbehind⟩ := h tokens htokens first behind hfirst
  exact hnext first hvalue behind hbehind value rest hlast

/-- A reader with a weaker property. -/
theorem Yields.imp {reader : Reader α} {P' : α → Prop} (h : Yields reader P)
    (himp : ∀ value, P value → P' value) : Yields reader P' := by
  intro tokens htokens value rest hrun
  obtain ⟨hvalue, hrest⟩ := h tokens htokens value rest hrun
  exact ⟨himp value hvalue, hrest⟩

/-- A reader that goes one of two ways. -/
theorem Yields.ite {condition : Prop} [Decidable condition] {reader other : Reader α}
    (h : condition → Yields reader P) (hother : ¬ condition → Yields other P) :
    Yields (if condition then reader else other) P := by
  by_cases hcondition : condition
  · rw [if_pos hcondition]
    exact h hcondition
  · rw [if_neg hcondition]
    exact hother hcondition

/-- A reader that fails under a condition. -/
theorem Yields.unless {condition : Prop} [Decidable condition] {next : PUnit → Reader α}
    (h : Yields (next ⟨⟩) P) :
    Yields (if condition then Alternative.failure >>= next else next ⟨⟩) P :=
  Yields.ite (fun _ => (Yields.failure : Keeps _).bind fun _ _ => h) fun _ => h

/-! ## Tokens -/

/-- The first token is sound, and it stays. -/
theorem yields_peek? : Yields peek? fun first => ∀ token, first = some token → token.IsSound := by
  rintro tokens htokens _ _ ⟨rfl⟩
  refine ⟨fun token htoken => ?_, htokens⟩
  cases tokens with
  | nil => exact absurd htoken (by simp)
  | cons first rest =>
    cases htoken
    exact htokens first List.mem_cons_self

/-- Looking for a comma changes nothing. -/
theorem keeps_isSeparated : Keeps isSeparated := by
  rintro tokens htokens _ _ ⟨rfl⟩
  exact ⟨trivial, htokens⟩

/-- Counting tokens changes nothing. -/
theorem keeps_remaining : Keeps remaining := by
  rintro tokens htokens _ _ ⟨rfl⟩
  exact ⟨trivial, htokens⟩

/-- A token that is taken is sound. -/
theorem yields_next : Yields next Token.IsSound := by
  intro tokens htokens value rest h
  cases tokens with
  | nil => exact absurd h (by simp [next, StateT.run])
  | cons first behind =>
    cases h
    exact ⟨htokens first List.mem_cons_self, fun lexeme hmem =>
      htokens lexeme (List.mem_cons_of_mem _ hmem)⟩

/-- Taking a token keeps the others. -/
theorem keeps_accept (token : Token) : Keeps (accept token) := by
  intro tokens htokens value rest h
  refine ⟨trivial, ?_⟩
  cases tokens with
  | nil =>
    cases h
    exact htokens
  | cons first behind =>
    unfold accept StateT.run at h
    dsimp only at h
    split at h
    · cases h
      exact fun lexeme hmem => htokens lexeme (List.mem_cons_of_mem _ hmem)
    · cases h
      exact htokens

/-- Asking for a token that has to be there keeps the others. -/
theorem keeps_expect (token : Token) : Keeps (expect token) := by
  unfold expect
  refine (keeps_accept token).bind fun accepted _ => ?_
  exact Yields.ite (fun _ => Yields.pure trivial) fun _ => Yields.failure

/-- Asking for tokens without a comma changes nothing. -/
theorem keeps_adjacent : Keeps adjacent := by
  unfold adjacent
  refine keeps_isSeparated.bind fun separated _ => ?_
  exact Yields.ite (fun _ => Yields.failure) fun _ => Yields.pure trivial

/-- A name is a name. -/
theorem yields_name : Yields name fun name => Name.isValid name = true := by
  unfold name
  refine yields_next.bind fun token htoken => ?_
  split
  · exact Yields.pure htoken
  · exact Yields.failure

/-- A name that may be missing is a name. -/
theorem yields_name? : Yields name? fun name? => ∀ name, name? = some name →
    Name.isValid name = true := by
  unfold name?
  refine yields_peek?.bind fun first hfirst => ?_
  split
  · refine yields_next.bind fun _ _ => Yields.pure ?_
    rintro name ⟨rfl⟩
    exact hfirst _ rfl
  · exact Yields.pure (by simp)

/-- Looking at a token changes nothing. -/
theorem keeps_looksAt (token : Token) : Keeps (looksAt token) :=
  yields_peek?.bind fun _ _ => Yields.pure trivial

/-! ## Repetitions -/

/-- All items up to a mark are such items. -/
theorem Yields.itemsUntil {item : Reader α} (h : Yields item P) (close : Char) (fuel : Nat) :
    Yields (itemsUntil close item fuel) fun items => ∀ value ∈ items, P value := by
  induction fuel with
  | zero => exact Yields.failure
  | succ fuel ih =>
    unfold Reader.itemsUntil
    refine (keeps_accept _).bind fun closed _ => Yields.ite ?_ ?_
    · exact fun _ => Yields.pure fun _ hmem => absurd hmem List.not_mem_nil
    · intro _
      refine h.bind fun first hfirst => ih.bind fun rest hrest => Yields.pure ?_
      exact List.forall_mem_cons.mpr ⟨hfirst, hrest⟩

/-- All items up to a mark are such items. -/
theorem Yields.manyUntil {item : Reader α} (h : Yields item P) (close : Char) :
    Yields (manyUntil close item) fun items => ∀ value ∈ items, P value :=
  keeps_remaining.bind fun _ _ => h.itemsUntil close _

/-- All items up to a mark are such items. -/
theorem Yields.someUntil {item : Reader α} (h : Yields item P) (close : Char) :
    Yields (someUntil close item) fun items => ∀ value ∈ items, P value := by
  unfold Reader.someUntil
  refine (h.manyUntil close).bind fun items hitems => ?_
  exact Yields.ite (fun _ => Yields.failure) fun _ => Yields.pure hitems

/-- All items between marks are such items. -/
theorem Yields.optionalBetween {item : Reader α} (h : Yields item P) (opening close : Char) :
    Yields (optionalBetween opening close item) fun items => ∀ value ∈ items, P value := by
  unfold Reader.optionalBetween
  refine (keeps_accept _).bind fun opened _ => Yields.ite ?_ ?_
  · exact fun _ => h.someUntil close
  · exact fun _ => Yields.pure fun _ hmem => absurd hmem List.not_mem_nil

/-- All items behind marks are such items. -/
theorem Yields.moreBehind {item : Reader α} (h : Yields item P) (c : Char) (fuel : Nat) :
    Yields (moreBehind c item fuel) fun items => ∀ value ∈ items, P value := by
  induction fuel with
  | zero => exact Yields.pure fun _ hmem => absurd hmem List.not_mem_nil
  | succ fuel ih =>
    unfold Reader.moreBehind
    refine (keeps_accept _).bind fun accepted _ => Yields.ite ?_ ?_
    · intro _
      refine h.bind fun first hfirst => ih.bind fun rest hrest => Yields.pure ?_
      exact List.forall_mem_cons.mpr ⟨hfirst, hrest⟩
    · exact fun _ => Yields.pure fun _ hmem => absurd hmem List.not_mem_nil

/-- All separated items are such items. -/
theorem Yields.separatedBy {item : Reader α} (h : Yields item P) (c : Char) :
    Yields (separatedBy c item) fun items => ∀ value ∈ items, P value := by
  unfold Reader.separatedBy
  refine (keeps_accept _).bind fun _ _ => h.bind fun first hfirst => ?_
  refine keeps_remaining.bind fun _ _ => (h.moreBehind c _).bind fun rest hrest => Yields.pure ?_
  exact List.forall_mem_cons.mpr ⟨hfirst, hrest⟩

/-! ## Values and types -/

/-- Reading a type keeps tokens sound, if reading the items of a list does. -/
theorem keeps_typeWith {item : Reader TypeRef} (h : Keeps item) : Keeps (typeWith item) := by
  have hlast : ∀ type : TypeRef, Keeps (do
      if ← acceptMark '!' then return type.nonNull else return type) := fun type =>
    (keeps_accept _).bind fun marked _ =>
      Yields.ite (fun _ => Yields.pure trivial) fun _ => Yields.pure trivial
  unfold typeWith
  refine yields_next.bind fun token _ => ?_
  dsimp only
  split
  · exact (Yields.pure trivial : Keeps _).bind fun type _ => hlast type
  · refine h.bind fun item _ => (keeps_expect _).bind fun _ _ => ?_
    exact (Yields.pure trivial : Keeps _).bind fun type _ => hlast type
  · exact (Yields.failure : Keeps _).bind fun type _ => hlast type

/-- Reading a type keeps tokens sound. -/
theorem keeps_type : Keeps type := by
  have hwithin : ∀ depth, Keeps (typeWithin depth) := by
    intro depth
    induction depth with
    | zero => exact keeps_typeWith Yields.failure
    | succ depth ih => exact keeps_typeWith ih
  exact hwithin maxDepth

/-- A value that stands on one line. -/
abbrev IsPlain (value : Literal) : Prop :=
  OneLine value.print

/-- A named value is plain and has a name. -/
theorem Yields.named {value : Reader Literal} (h : Yields value IsPlain) :
    Yields (named value) fun found? => ∀ entry, found? = some entry →
      Name.isValid entry.1 = true ∧ IsPlain entry.2 := by
  unfold Reader.named
  refine yields_name.bind fun name hname => (keeps_accept _).bind fun given _ => Yields.ite ?_ ?_
  · intro _
    refine h.bind fun value hvalue => Yields.pure ?_
    rintro entry ⟨rfl⟩
    exact ⟨hname, hvalue⟩
  · exact fun _ => Yields.pure (by simp)

/-- A value is plain, if the values inside are. -/
theorem yields_valueWith (constant : Bool) {inner : Reader Literal} (h : Yields inner IsPlain) :
    Yields (valueWith constant inner) IsPlain := by
  unfold valueWith
  refine yields_next.bind fun token htoken => ?_
  split
  · exact Yields.pure (by decide)
  · exact Yields.pure (by decide)
  · exact Yields.pure (by decide)
  · exact Yields.pure (OneLine.ofName htoken)
  · exact Yields.pure htoken
  · exact Yields.pure htoken
  · exact Yields.pure (OneLine.quoteString _)
  · refine Yields.ite (fun _ => Yields.failure) fun _ => ?_
    refine yields_name.bind fun name hname => Yields.pure ?_
    exact OneLine.append (by decide) (OneLine.ofName hname)
  · exact (h.manyUntil _).bind fun items hitems => Yields.pure (OneLine.list hitems)
  · refine (h.named.manyUntil _).bind fun entries hentries => Yields.pure (OneLine.object ?_)
    intro field hfield
    obtain ⟨found?, hentry, hsome⟩ := List.mem_filterMap.mp hfield
    exact hentries found? hentry field hsome
  · exact Yields.failure

/-- A value is plain. -/
theorem yields_valueWithin (constant : Bool) (depth : Nat) :
    Yields (valueWithin constant depth) IsPlain := by
  induction depth with
  | zero => exact yields_valueWith constant Yields.failure
  | succ depth ih => exact yields_valueWith constant ih

/-- An argument stands on one line. -/
theorem Yields.arguments {value : Reader Literal} (h : Yields value IsPlain) :
    Yields (arguments value) fun given => ∀ argument ∈ given, OneLine argument.print := by
  unfold Reader.arguments
  refine (h.named.optionalBetween _ _).bind fun entries hentries => Yields.pure ?_
  intro argument hargument
  obtain ⟨found?, hentry, hsome⟩ := List.mem_filterMap.mp hargument
  obtain ⟨entry, rfl, rfl⟩ := Option.map_eq_some_iff.mp hsome
  obtain ⟨hname, hvalue⟩ := hentries _ hentry entry rfl
  exact ((OneLine.ofName hname).append (by decide)).append hvalue

/-- A directive stands on one line. -/
theorem Yields.directivesOf {value : Reader Literal} (h : Yields value IsPlain) :
    Yields (directivesOf value) fun given => ∀ directive ∈ given, OneLine directive.print := by
  have hfuel : ∀ fuel, Yields (directivesUpTo value fuel) fun given =>
      ∀ directive ∈ given, OneLine directive.print := by
    intro fuel
    induction fuel with
    | zero => exact Yields.pure fun _ hmem => absurd hmem List.not_mem_nil
    | succ fuel ih =>
      unfold directivesUpTo
      refine (keeps_accept _).bind fun accepted _ => Yields.ite ?_ ?_
      · intro _
        refine yields_name.bind fun name hname => h.arguments.bind fun given hgiven => ?_
        refine ih.bind fun rest hrest => Yields.pure (List.forall_mem_cons.mpr ⟨?_, hrest⟩)
        refine (OneLine.append (by decide) (OneLine.ofName hname)).append ?_
        exact OneLine.parenthesized (List.forall_mem_map.mpr hgiven)
      · exact fun _ => Yields.pure fun _ hmem => absurd hmem List.not_mem_nil
  exact keeps_remaining.bind fun _ _ => hfuel _

/-! ## Selections -/

/-- Selections that are laid out. -/
abbrev AreLaidOut (selections : List Selection) : Prop :=
  ∀ selection ∈ selections, selection.IsLaidOut

/-- A selection is laid out, if the selections inside are. -/
theorem yields_selectionWith {value : Reader Literal} {inner : Reader (List Selection)}
    (hvalue : Yields value IsPlain) (hinner : Yields inner AreLaidOut) :
    Yields (selectionWith value inner) Selection.IsLaidOut := by
  -- What follows the name is read in the same way with and without an alias.
  have hfield : ∀ alias? name, (∀ key, alias? = some key → Name.isValid key = true) →
      Name.isValid name = true → Yields (do
        let arguments ← Reader.arguments value
        let directives ← Reader.directivesOf value
        let selections ← if ← looksAt (.punctuator '\x7b') then inner else pure []
        return Selection.field ⟨alias?, name, arguments, directives, selections⟩)
          Selection.IsLaidOut := by
    intro alias? name halias hname
    refine hvalue.arguments.bind fun arguments harguments => ?_
    refine hvalue.directivesOf.bind fun directives hdirectives => ?_
    have hnested : ∀ selections, AreLaidOut selections → Yields (pure (Selection.field
        ⟨alias?, name, arguments, directives, selections⟩)) Selection.IsLaidOut :=
      fun selections hselections =>
        Yields.pure (Selection.IsLaidOut.field hname halias harguments hdirectives hselections)
    refine (keeps_looksAt _).bind fun opened _ => Yields.ite ?_ ?_
    · exact fun _ => hinner.bind hnested
    · exact fun _ => (Yields.pure fun _ hmem => absurd hmem List.not_mem_nil).bind hnested
  unfold selectionWith
  refine yields_next.bind fun token htoken => ?_
  -- Fragments come first: inline with a condition, spread, and inline without one.
  split
  · refine keeps_adjacent.bind fun _ _ => yields_peek?.bind fun first hfirst => ?_
    split
    · refine (keeps_expect _).bind fun _ _ => yields_name.bind fun condition hcondition => ?_
      refine hvalue.directivesOf.bind fun directives hdirectives => ?_
      refine hinner.bind fun selections hselections => Yields.pure ?_
      refine Selection.IsLaidOut.inline ?_ hdirectives hselections
      rintro name ⟨rfl⟩
      exact hcondition
    · refine yields_next.bind fun _ _ => hvalue.directivesOf.bind fun directives hdirectives => ?_
      exact Yields.pure (Selection.IsLaidOut.spread (hfirst _ rfl) hdirectives)
    · refine hvalue.directivesOf.bind fun directives hdirectives => ?_
      refine hinner.bind fun selections hselections => Yields.pure ?_
      exact Selection.IsLaidOut.inline (by simp) hdirectives hselections
  · rename_i first
    dsimp only
    have hbare : Yields (pure ((none : Option Name), first)) fun found => found = (none, first) :=
      Yields.pure rfl
    -- The first name turns out to be an alias when a colon stands behind it.
    have hlabel : ∀ isAlias : Bool, Yields (do
        let label ← if isAlias then do pure (some first, ← name) else pure (none, first)
        let arguments ← Reader.arguments value
        let directives ← Reader.directivesOf value
        let selections ← if ← looksAt (.punctuator '\x7b') then inner else pure []
        return Selection.field ⟨label.1, label.2, arguments, directives, selections⟩)
          Selection.IsLaidOut := by
      intro isAlias
      refine Yields.ite (fun _ => ?_) fun _ => ?_
      · refine yields_name.bind fun name hname => ?_
        refine (Yields.pure rfl : Yields (pure (some first, name)) fun found =>
          found = (some first, name)).bind ?_
        rintro _ rfl
        refine hfield (some first) name ?_ hname
        rintro key ⟨rfl⟩
        exact htoken
      · refine hbare.bind ?_
        rintro _ rfl
        exact hfield none first (by simp) htoken
    refine keeps_isSeparated.bind fun separated _ => Yields.ite ?_ ?_
    · exact fun _ => (Yields.pure trivial : Keeps _).bind fun isAlias _ => hlabel isAlias
    · exact fun _ => (keeps_accept _).bind fun isAlias _ => hlabel isAlias
  · exact Yields.failure

/-- All selections of a selection set are laid out. -/
theorem yields_selections : Yields selections AreLaidOut := by
  have hwithin : ∀ depth, Yields (selectionsWithin depth) AreLaidOut := by
    intro depth
    induction depth with
    | zero => exact Yields.failure
    | succ depth ih =>
      unfold selectionsWithin
      refine (keeps_expect _).bind fun _ _ => ?_
      exact (yields_selectionWith (yields_valueWithin false depth) ih).someUntil _
  exact hwithin maxDepth

/-! ## Definitions -/

/-- Reading constant directives keeps tokens sound. -/
theorem keeps_directives : Keeps directives :=
  (yields_valueWithin true maxDepth).directivesOf.imp fun _ _ => trivial

/-- Reading directives of an operation or a fragment keeps tokens sound. -/
theorem keeps_executableDirectives : Keeps executableDirectives :=
  (yields_valueWithin false maxDepth).directivesOf.imp fun _ _ => trivial

/-- Reading a default value keeps tokens sound. -/
theorem keeps_defaultValue : Keeps defaultValue := by
  unfold defaultValue
  refine (keeps_accept _).bind fun given _ => Yields.ite (fun _ => ?_) fun _ => ?_
  · exact (yields_valueWithin true maxDepth).bind fun _ _ => Yields.pure trivial
  · exact Yields.pure trivial

/-- Reading a variable definition keeps tokens sound. -/
theorem keeps_variableDefinition : Keeps variableDefinition := by
  unfold variableDefinition
  refine (keeps_expect _).bind fun _ _ => yields_name.bind fun _ _ => ?_
  refine (keeps_expect _).bind fun _ _ => keeps_type.bind fun _ _ => ?_
  exact keeps_defaultValue.bind fun _ _ => keeps_directives.bind fun _ _ => Yields.pure trivial

/-- The selections of an operation are laid out. -/
theorem yields_operation (kind : OperationKind) :
    Yields (operation kind) fun operation => AreLaidOut operation.selections := by
  unfold operation
  refine yields_name?.bind fun _ _ => ?_
  refine (keeps_variableDefinition.optionalBetween _ _).bind fun _ _ => ?_
  refine keeps_executableDirectives.bind fun _ _ => ?_
  exact yields_selections.bind fun _ hselections => Yields.pure hselections

/-- Reading a fragment keeps tokens sound. -/
theorem keeps_fragment : Keeps fragment := by
  unfold fragment
  refine yields_name.bind fun name _ => ?_
  dsimp only
  refine Yields.unless ((keeps_expect _).bind fun _ _ => yields_name.bind fun _ _ => ?_)
  refine keeps_executableDirectives.bind fun _ _ => ?_
  exact yields_selections.bind fun _ _ => Yields.pure trivial

/-- Reading a description keeps tokens sound. -/
theorem keeps_description : Keeps description := by
  unfold description
  refine yields_peek?.bind fun first _ => ?_
  split
  · exact yields_next.bind fun _ _ => Yields.pure trivial
  · exact Yields.pure trivial

/-- Reading an argument or an input field keeps tokens sound. -/
theorem keeps_inputValue : Keeps inputValue := by
  unfold inputValue
  refine keeps_description.bind fun _ _ => yields_name.bind fun _ _ => ?_
  refine (keeps_expect _).bind fun _ _ => keeps_type.bind fun _ _ => ?_
  exact keeps_defaultValue.bind fun _ _ => keeps_directives.bind fun _ _ => Yields.pure trivial

/-- Reading a field definition keeps tokens sound. -/
theorem keeps_fieldDefinition : Keeps fieldDefinition := by
  unfold fieldDefinition
  refine keeps_description.bind fun _ _ => yields_name.bind fun _ _ => ?_
  refine (keeps_inputValue.optionalBetween _ _).bind fun _ _ => (keeps_expect _).bind fun _ _ => ?_
  exact keeps_type.bind fun _ _ => keeps_directives.bind fun _ _ => Yields.pure trivial

/-- Reading an enum value keeps tokens sound. -/
theorem keeps_enumValue : Keeps enumValue := by
  unfold enumValue
  refine keeps_description.bind fun _ _ => yields_name.bind fun name _ => ?_
  dsimp only
  exact Yields.unless (keeps_directives.bind fun _ _ => Yields.pure trivial)

/-- Reading interfaces keeps tokens sound. -/
theorem keeps_interfaces : Keeps interfaces := by
  unfold interfaces
  refine yields_peek?.bind fun first _ => ?_
  split
  · refine (keeps_expect _).bind fun _ _ => ?_
    exact (yields_name?.separatedBy _).bind fun _ _ => Yields.pure trivial
  · exact Yields.failure
  · exact Yields.pure trivial

/-- Reading a type definition keeps tokens sound. -/
theorem keeps_typeDefinition (description? : Option String) (kind : String) :
    Keeps (typeDefinition description? kind) := by
  unfold typeDefinition
  refine yields_name.bind fun name _ => ?_
  split
  · exact keeps_directives.bind fun _ _ => Yields.pure trivial
  · refine keeps_interfaces.bind fun _ _ => keeps_directives.bind fun _ _ => ?_
    exact (keeps_fieldDefinition.optionalBetween _ _).bind fun _ _ => Yields.pure trivial
  · refine keeps_interfaces.bind fun _ _ => keeps_directives.bind fun _ _ => ?_
    exact (keeps_fieldDefinition.optionalBetween _ _).bind fun _ _ => Yields.pure trivial
  · refine keeps_directives.bind fun _ _ => (keeps_accept _).bind fun given _ => ?_
    refine Yields.ite (fun _ => ?_) fun _ => ?_
    · exact (yields_name?.separatedBy _).bind fun _ _ => Yields.pure trivial
    · exact (Yields.pure trivial : Keeps _).bind fun _ _ => Yields.pure trivial
  · refine keeps_directives.bind fun _ _ => ?_
    exact (keeps_enumValue.optionalBetween _ _).bind fun _ _ => Yields.pure trivial
  · refine keeps_directives.bind fun _ _ => ?_
    exact (keeps_inputValue.optionalBetween _ _).bind fun _ _ => Yields.pure trivial
  · exact Yields.failure

/-- Reading a type extension keeps tokens sound. -/
theorem keeps_typeExtension (kind : String) : Keeps (typeExtension kind) := by
  unfold typeExtension
  refine keeps_remaining.bind fun _ _ => (keeps_typeDefinition none kind).bind fun _ _ => ?_
  refine keeps_remaining.bind fun _ _ => ?_
  exact Yields.ite (fun _ => Yields.failure) fun _ => Yields.pure trivial

/-- Reading a kind of operations keeps tokens sound. -/
theorem keeps_operationKind : Keeps operationKind := by
  unfold operationKind
  refine yields_name.bind fun _ _ => ?_
  split
  · exact Yields.pure trivial
  · exact Yields.pure trivial
  · exact Yields.pure trivial
  · exact Yields.failure

/-- Reading a root type keeps tokens sound. -/
theorem keeps_rootType : Keeps rootType := by
  unfold rootType
  refine keeps_operationKind.bind fun _ _ => (keeps_expect _).bind fun _ _ => ?_
  exact yields_name?.bind fun _ _ => Yields.pure trivial

/-- Reading a schema definition keeps tokens sound. -/
theorem keeps_schemaDefinition (description? : Option String) :
    Keeps (schemaDefinition description?) := by
  unfold schemaDefinition
  refine keeps_directives.bind fun _ _ => ?_
  exact (keeps_rootType.optionalBetween _ _).bind fun _ _ => Yields.pure trivial

/-- Reading a schema extension keeps tokens sound. -/
theorem keeps_schemaExtension : Keeps schemaExtension := by
  unfold schemaExtension
  refine keeps_directives.bind fun _ _ => (keeps_accept _).bind fun given _ => ?_
  dsimp only
  refine Yields.ite (fun _ => ?_) fun _ => ?_
  · exact (keeps_rootType.manyUntil _).bind fun _ _ => Yields.unless (Yields.pure trivial)
  · exact (Yields.pure trivial : Keeps _).bind fun _ _ => Yields.unless (Yields.pure trivial)

/-- Reading a place of directives keeps tokens sound. -/
theorem keeps_directiveLocation : Keeps directiveLocation := by
  unfold directiveLocation
  refine yields_name.bind fun _ _ => ?_
  exact Yields.ite (fun _ => Yields.pure trivial) fun _ => Yields.failure

/-- Reading a directive definition keeps tokens sound. -/
theorem keeps_directiveDefinition (description? : Option String) :
    Keeps (directiveDefinition description?) := by
  unfold directiveDefinition
  refine (keeps_expect _).bind fun _ _ => yields_name.bind fun _ _ => ?_
  refine (keeps_inputValue.optionalBetween _ _).bind fun _ _ => (keeps_accept _).bind fun _ _ => ?_
  refine (keeps_expect _).bind fun _ _ => ?_
  exact (keeps_directiveLocation.separatedBy _).bind fun _ _ => Yields.pure trivial

/-- Reading a definition of a type system keeps tokens sound. -/
theorem keeps_typeSystem (description? : Option String) (first : Name) :
    Keeps (typeSystem description? first) := by
  unfold typeSystem
  split
  · exact (keeps_schemaDefinition _).bind fun _ _ => Yields.pure trivial
  · exact (keeps_directiveDefinition _).bind fun _ _ => Yields.pure trivial
  · dsimp only
    refine Yields.unless (keeps_adjacent.bind fun _ _ => yields_name.bind fun kind _ => ?_)
    split
    · exact keeps_schemaExtension.bind fun _ _ => Yields.pure trivial
    · exact (keeps_typeExtension _).bind fun _ _ => Yields.pure trivial
  · exact (keeps_typeDefinition _ _).bind fun _ _ => Yields.pure trivial

/-- A definition whose selections are laid out, if it is an operation. -/
def IsLaidOutDefinition : Definition → Prop
  | .operation operation => AreLaidOut operation.selections
  | _ => True

/-- A definition with a description is no operation. -/
theorem yields_described : Yields described IsLaidOutDefinition := by
  unfold described
  refine keeps_description.bind fun description? _ => keeps_adjacent.bind fun _ _ => ?_
  refine yields_name.bind fun first _ => ?_
  split
  · refine (keeps_expect _).bind fun _ _ => yields_name.bind fun _ _ => ?_
    refine keeps_executableDirectives.bind fun _ _ => ?_
    exact yields_selections.bind fun _ _ => Yields.pure trivial
  · exact (keeps_typeSystem _ _).bind fun _ _ => Yields.pure trivial

/-- The selections of a definition are laid out. -/
theorem yields_definition : Yields definition IsLaidOutDefinition := by
  unfold definition
  refine yields_peek?.bind fun first _ => ?_
  split
  · exact yields_selections.bind fun _ hselections => Yields.pure hselections
  · exact yields_described
  · refine yields_name.bind fun keyword _ => ?_
    split
    · exact (yields_operation _).bind fun _ hoperation => Yields.pure hoperation
    · exact (yields_operation _).bind fun _ hoperation => Yields.pure hoperation
    · exact (yields_operation _).bind fun _ hoperation => Yields.pure hoperation
    · exact keeps_fragment.bind fun _ _ => Yields.pure trivial
    · exact (keeps_typeSystem _ _).bind fun _ _ => Yields.pure trivial

/-- The selections of all definitions are laid out. -/
theorem yields_definitions (fuel : Nat) :
    Yields (definitions fuel) fun definitions => ∀ definition ∈ definitions,
      IsLaidOutDefinition definition := by
  induction fuel with
  | zero => exact Yields.failure
  | succ fuel ih =>
    unfold definitions
    refine yields_peek?.bind fun first _ => ?_
    split
    · exact Yields.pure fun _ hmem => absurd hmem List.not_mem_nil
    · refine yields_definition.bind fun first hfirst => ih.bind fun rest hrest => Yields.pure ?_
      exact List.forall_mem_cons.mpr ⟨hfirst, hrest⟩

end Reader

/-- The selections of the operations of a document that is read are laid out. -/
theorem Document.isLaidOut_of_parse? {text : String} {document : Document}
    (h : Document.parse? text = some document) :
    ∀ definition ∈ document, Reader.IsLaidOutDefinition definition := by
  unfold Document.parse? at h
  obtain ⟨tokens, htokens, h⟩ := Option.bind_eq_some_iff.mp h
  obtain ⟨⟨definitions, rest⟩, hrun, h⟩ := Option.bind_eq_some_iff.mp h
  have hall := (Reader.yields_definitions _ tokens (Token.isSound_of_mem_scan htokens) definitions
    rest hrun).1
  dsimp only at h
  split at h
  · exact absurd h (by simp)
  · cases h
    exact hall

end Gateway
