import Gateway.Input.Literal
import Gateway.Proofs.Entries
import Gateway.Proofs.Names
import Gateway.Request.Bindings

/-!
# Arguments bound to variables

Making an argument read a variable of its own never changes what another argument reads: the
variable is new (`Bindings.freshVariable_not_mem`), so the definitions and values of the variables
that were there stay (`Bindings.Extends`). What arguments read is the value of their literal under
the values that the variables have (`Bindings.valueOf?`), supplied or by default.
-/

namespace Gateway

/-! ## Entries under their names -/

namespace Entries

variable {α : Type} {nameOf : α → String} {entries : Entries α}

/-- Every value stands once, under its own name. -/
structure Named (nameOf : α → String) (entries : Entries α) : Prop where
  /-- No key stands twice. -/
  distinct : entries.keys.Nodup
  /-- The key is the name. -/
  name : ∀ entry ∈ entries, nameOf entry.2 = entry.1

/-- A value can be added under its name. -/
theorem Named.insert (h : entries.Named nameOf) (value : α) :
    (Entries.insert entries (nameOf value) value).Named nameOf where
  distinct := nodup_keys_insert h.distinct ..
  name entry hentry := by
    rcases mem_insert hentry with rfl | hmem
    · rfl
    · exact h.name entry hmem

/-- Values that are collected by name stand under their names. -/
theorem named_ofPairs (nameOf : α → String) (values : List α) :
    (Entries.ofPairs (values.map fun value => (nameOf value, value))).Named nameOf where
  distinct := nodup_keys_ofPairs _
  name entry hentry := by
    have hmem := mem_of_get?_ofPairs (get?_of_mem (nodup_keys_ofPairs _) hentry)
    obtain ⟨value, -, hpair⟩ := List.mem_map.mp hmem
    rw [← (Prod.mk.inj hpair).1, ← (Prod.mk.inj hpair).2]

/-- Only the values themselves are collected by name. -/
theorem mem_of_mem_values_ofPairs {values : List α} {value : α}
    (h : value ∈ Entries.values (Entries.ofPairs (values.map fun value => (nameOf value, value)))) :
    value ∈ values := by
  obtain ⟨entry, hentry, rfl⟩ := List.mem_map.mp h
  have hmem := mem_of_get?_ofPairs (get?_of_mem (nodup_keys_ofPairs _) hentry)
  obtain ⟨value, hvalue, hpair⟩ := List.mem_map.mp hmem
  rw [← (Prod.mk.inj hpair).2]
  exact hvalue

/-- So can several. -/
theorem Named.insertAll (h : entries.Named nameOf) (values : List α) :
    (Entries.insertAll entries (values.map fun value => (nameOf value, value))).Named nameOf := by
  unfold Entries.insertAll
  rw [List.foldl_map]
  exact List.foldlRecOn values _ h fun _ hentries value _ => hentries.insert value

/-- The names of values under their names are the keys. -/
theorem Named.map_values (h : entries.Named nameOf) : entries.values.map nameOf = entries.keys := by
  unfold values keys
  rw [List.map_map]
  exact List.map_congr_left fun entry hentry => h.name entry hentry

/-- Entries under their names are what is collected of their values. -/
theorem Named.ofPairs_values (h : entries.Named nameOf) :
    Entries.ofPairs (entries.values.map fun value => (nameOf value, value)) = entries := by
  have hpairs : entries.values.map (fun value => (nameOf value, value)) = entries := by
    unfold values
    rw [List.map_map]
    refine (List.map_congr_left fun entry hentry => ?_).trans (List.map_id _)
    exact Prod.ext (h.name entry hentry) rfl
  rw [hpairs, ofPairs_eq_self h.distinct]

end Entries

/-! ## Values of variables -/

/-- The values that variables have: those supplied, and the declared defaults of the others. -/
def effectiveValues (definitions : Entries VariableDefinition) (values : Entries Json) :
    Entries Json :=
  definitions.filterMap fun entry =>
    ((values.get? entry.1).or (entry.2.default?.bind (Literal.toJson? []))).map (Prod.mk entry.1)

/-- The value that a defined variable has. -/
theorem get?_effectiveValues {definitions : Entries VariableDefinition}
    (h : definitions.keys.Nodup) (values : Entries Json) (name : Name) :
    (effectiveValues definitions values).get? name =
      (definitions.get? name).bind fun definition =>
        (values.get? name).or (definition.default?.bind (Literal.toJson? [])) :=
  Entries.get?_filterMap h (fun name definition =>
    (values.get? name).or (definition.default?.bind (Literal.toJson? []))) name

namespace Bindings

/-! ## New variables -/

/-- Different numbers make different variables. -/
theorem variableName_inj {argument : Name} {m n : Nat} :
    variableName argument m = variableName argument n ↔ m = n := by
  unfold variableName
  rw [String.append_left_inj, String.append_left_inj, String.append_right_inj, toString_inj]

/-- A generated variable is not defined: more names are tried than are defined. -/
theorem freshVariable_not_mem (defined : List Name) (argument : Name) :
    freshVariable defined argument ∉ defined := by
  unfold freshVariable
  cases hfound : ((List.range (defined.length + 1)).map (variableName argument)).find? fun name =>
      !defined.contains name with
  | some name => simpa using List.find?_some hfound
  | none =>
    have hdistinct : ((List.range (defined.length + 1)).map (variableName argument)).Nodup :=
      List.Nodup.map (fun _ _ h => variableName_inj.mp h) List.nodup_range
    obtain ⟨name, hname, hfree⟩ := exists_free_name defined hdistinct (by simp)
    exact absurd (by simpa using List.find?_eq_none.mp hfound name hname) hfree

/-! ## Binding one more argument -/

/-- Every argument and every definition stands once, under its own name, and no variable has two
values. -/
structure WellNamed (bindings : Bindings) : Prop where
  /-- The arguments do. -/
  arguments : bindings.arguments.Named Argument.name
  /-- The definitions do. -/
  definitions : bindings.definitions.Named VariableDefinition.name
  /-- No variable has two values. -/
  values : bindings.values.keys.Nodup

/-- The arguments and variables are still there with the same values. -/
structure Extends (bindings extended : Bindings) : Prop where
  /-- The arguments are. -/
  arguments : ∀ name argument, bindings.arguments.get? name = some argument →
    extended.arguments.get? name = some argument
  /-- The definitions are. -/
  definitions : ∀ name definition, bindings.definitions.get? name = some definition →
    extended.definitions.get? name = some definition
  /-- The values of defined variables are as they were. -/
  values : ∀ name ∈ bindings.definitions.keys,
    extended.values.get? name = bindings.values.get? name

variable {bindings extended : Bindings}

/-- Everything is still there. -/
theorem Extends.refl (bindings : Bindings) : bindings.Extends bindings :=
  ⟨fun _ _ => id, fun _ _ => id, fun _ _ => rfl⟩

/-- What is there after more is added is there after still more is added. -/
theorem Extends.trans {more : Bindings} (h : bindings.Extends extended)
    (hmore : extended.Extends more) : bindings.Extends more where
  arguments name argument hfound := hmore.arguments name argument (h.arguments name argument hfound)
  definitions name definition hfound :=
    hmore.definitions name definition (h.definitions name definition hfound)
  values name hdefined := by
    obtain ⟨definition, hfound⟩ := Entries.exists_get?_iff.mpr hdefined
    have hstill := Entries.exists_get?_iff.mp ⟨definition, h.definitions name definition hfound⟩
    rw [hmore.values name hstill, h.values name hdefined]

variable {argument : Name}

/-- What is found among the values after an argument is bound: the value of its variable, and those
of the others. -/
theorem get?_values_bind (h : bindings.values.keys.Nodup) (argument : Name) (type : TypeRef)
    (value? : Option Json) (name : Name) :
    (bindings.bind argument type value?).values.get? name =
      if name = freshVariable bindings.definitions.keys argument then value?
      else bindings.values.get? name :=
  Entries.get?_assign h ..

/-- Binding an argument that is not given leaves all others. -/
theorem extends_bind (h : bindings.values.keys.Nodup)
    (hnew : bindings.arguments.get? argument = none) (type : TypeRef) (value? : Option Json) :
    bindings.Extends (bindings.bind argument type value?) where
  arguments name other hfound := by
    unfold bind
    rw [Entries.get?_insert, if_neg (Entries.ne_of_get? hnew hfound).symm, hfound]
  definitions name definition hfound := by
    have hname : name ≠ freshVariable bindings.definitions.keys argument := by
      rintro rfl
      exact freshVariable_not_mem _ _ (Entries.exists_get?_iff.mp ⟨_, hfound⟩)
    unfold bind
    rw [Entries.get?_insert, if_neg hname, hfound]
  values name hdefined := by
    rw [get?_values_bind h, if_neg]
    rintro rfl
    exact freshVariable_not_mem _ _ hdefined

/-- Everything stays under its name when an argument is bound. -/
theorem WellNamed.bind (h : bindings.WellNamed) (argument : Name) (type : TypeRef)
    (value? : Option Json) : (bindings.bind argument type value?).WellNamed :=
  ⟨h.arguments.insert ⟨argument, .var _⟩, h.definitions.insert { name := _, type },
    Entries.nodup_keys_assign h.values ..⟩

/-! ## What arguments read -/

/-- An argument reads a variable without a default, which has the value, if any. -/
def ReadsOwn (bindings : Bindings) (argument : Name) (own? : Option Json) : Prop :=
  ∃ name definition, bindings.arguments.get? argument = some ⟨argument, .var name⟩ ∧
    bindings.definitions.get? name = some definition ∧ definition.default? = none ∧
    bindings.values.get? name = own?

/-- An argument that is bound reads its variable. -/
theorem readsOwn_bind (h : bindings.values.keys.Nodup) (argument : Name) (type : TypeRef)
    (value? : Option Json) : (bindings.bind argument type value?).ReadsOwn argument value? := by
  refine ⟨freshVariable bindings.definitions.keys argument,
    { name := freshVariable bindings.definitions.keys argument, type }, ?_, ?_, rfl, ?_⟩
  · unfold bind
    rw [Entries.get?_insert, if_pos rfl]
  · unfold bind
    rw [Entries.get?_insert, if_pos rfl]
  · rw [get?_values_bind h, if_pos rfl]

/-- It still does after more is added. -/
theorem ReadsOwn.extend {own? : Option Json} (h : bindings.ReadsOwn argument own?)
    (hmore : bindings.Extends extended) : extended.ReadsOwn argument own? := by
  obtain ⟨name, definition, hargument, hdefinition, hdefault, hvalue⟩ := h
  have hdefined := Entries.exists_get?_iff.mp ⟨definition, hdefinition⟩
  exact ⟨name, definition, hmore.arguments _ _ hargument, hmore.definitions _ _ hdefinition,
    hdefault, (hmore.values name hdefined).trans hvalue⟩

/-- The value that a given argument has. -/
def valueOf? (bindings : Bindings) (argument : Name) : Option Json :=
  (bindings.arguments.get? argument).bind fun given =>
    given.value.toJson? (effectiveValues bindings.definitions bindings.values)

/-- The value of an argument that reads a variable of its own is that of the variable. -/
theorem ReadsOwn.valueOf?_eq {own? : Option Json} (h : bindings.ReadsOwn argument own?)
    (hnamed : bindings.WellNamed) : bindings.valueOf? argument = own? := by
  obtain ⟨name, definition, hargument, hdefinition, hdefault, hvalue⟩ := h
  unfold valueOf?
  rw [hargument, Option.bind_some, Literal.toJson?,
    get?_effectiveValues hnamed.definitions.distinct, hdefinition, Option.bind_some, hdefault,
    Option.bind_none, Option.or_none, hvalue]

end Bindings

end Gateway
