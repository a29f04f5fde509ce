import Gateway.Proofs.Fetched.Merge

/-!
# Deep merging

A later value is merged into an earlier one wherever both have a position in common: below objects
under the keys that both have, below lists of one length at every index (`Meets`). What stands there
afterwards is the merge of what stood there before (`at?_merge`), so what holds of a merge at the
root holds at every common position.

Data are lost to a null at a common position exactly when the later value is blank there: an error,
or a leaf that holds null (`toJson_at?_merge`). The plain null replaces nothing. But a key is noted
to come from the last object that has it, also where that one has null for it and the value stays
(`origin_mergeAnswers`).
-/

namespace Gateway

namespace FetchedValue

/-! ## Common positions -/

/-- The same path leads to a part of the target and to a part of the source, through the keys of
objects and through lists of one length. -/
inductive Meets : FetchedValue → FetchedValue → Path → FetchedValue → FetchedValue → Prop
  /-- Both values meet as a whole. -/
  | here (target source : FetchedValue) : Meets target source [] target source
  /-- They meet below a key that both objects have. -/
  | field {target source : FetchedObject} {key : String} {t s t' s' : FetchedValue} {rest : Path}
    (inTarget : target.get? key = some t) (inSource : source.get? key = some s)
    (below : Meets t s rest t' s') :
    Meets (.object target) (.object source) (.key key :: rest) t' s'
  /-- They meet below an index of two lists of one length. -/
  | item {targets sources : List FetchedValue} {position : Nat} {t s t' s' : FetchedValue}
    {rest : Path} (length : targets.length = sources.length)
    (inTarget : targets[position]? = some t) (inSource : sources[position]? = some s)
    (below : Meets t s rest t' s') :
    Meets (.list targets) (.list sources) (.index position :: rest) t' s'

section Merge

variable {target source : FetchedValue}

/-- The plain null replaces nothing. -/
theorem merge_null (target : FetchedValue) : target.merge .null = target := by
  unfold merge
  rw [mergeInto]

/-- Two objects are merged field by field. -/
theorem merge_object (target source : FetchedObject) :
    (FetchedValue.object target).merge (.object source) = .object (target.merge source) := by
  unfold merge
  rw [mergeInto]
  rfl

/-- Two lists of one length are merged item by item. -/
theorem merge_list {targets sources : List FetchedValue}
    (hlength : targets.length = sources.length) :
    (FetchedValue.list targets).merge (.list sources) = .list (mergeItems sources targets) := by
  unfold merge
  rw [mergeInto, if_pos hlength]

/-- A list replaces a list of another length. -/
theorem merge_list_of_length_ne {targets sources : List FetchedValue}
    (hlength : targets.length ≠ sources.length) :
    (FetchedValue.list targets).merge (.list sources) = .list sources := by
  unfold merge
  rw [mergeInto, if_neg hlength]

/-- A leaf replaces everything. -/
theorem merge_leaf (target : FetchedValue) (json : Json) :
    target.merge (.leaf json) = .leaf json := by
  unfold merge
  rw [mergeInto] <;> simp

/-- An error replaces everything. -/
theorem merge_error (target : FetchedValue) (held : FetchedError) :
    target.merge (.error held) = .error held := by
  unfold merge
  rw [mergeInto] <;> simp

/-- A list replaces what is not a list. -/
theorem merge_list_of_no_list (sources : List FetchedValue)
    (htarget : ∀ targets, target ≠ .list targets) :
    target.merge (.list sources) = .list sources := by
  unfold merge
  cases target with
  | list targets => exact absurd rfl (htarget targets)
  | null => rw [mergeInto] <;> simp
  | leaf json => rw [mergeInto] <;> simp
  | object held => rw [mergeInto] <;> simp
  | error held => rw [mergeInto] <;> simp

/-- An object replaces what is not an object. -/
theorem merge_object_of_no_object (source : FetchedObject)
    (htarget : ∀ object, target ≠ .object object) :
    target.merge (.object source) = .object source := by
  unfold merge
  cases target with
  | object held => exact absurd rfl (htarget held)
  | null => rw [mergeInto] <;> simp
  | leaf json => rw [mergeInto] <;> simp
  | list targets => rw [mergeInto] <;> simp
  | error held => rw [mergeInto] <;> simp

/-- Merged items are as many as the targets. -/
theorem length_mergeItems (sources targets : List FetchedValue) :
    (mergeItems sources targets).length = targets.length := by
  induction sources generalizing targets with
  | nil => simp [mergeItems]
  | cons source rest ih =>
    cases targets with
    | nil => simp [mergeItems]
    | cons target others => rw [mergeItems, List.length_cons, ih, List.length_cons]

/-- Items that meet are merged. -/
theorem getElem?_mergeItems {sources targets : List FetchedValue} {position : Nat}
    {t s : FetchedValue} (htarget : targets[position]? = some t)
    (hsource : sources[position]? = some s) :
    (mergeItems sources targets)[position]? = some (t.merge s) := by
  induction sources generalizing targets position with
  | nil => exact absurd hsource (by simp)
  | cons source rest ih =>
    cases targets with
    | nil => exact absurd htarget (by simp)
    | cons target others =>
      rw [mergeItems]
      cases position with
      | zero =>
        rw [List.getElem?_cons_zero, Option.some.injEq] at htarget hsource ⊢
        rw [htarget, hsource, merge]
      | succ position =>
        rw [List.getElem?_cons_succ] at htarget hsource ⊢
        exact ih htarget hsource

/-- Under every key stands what the later fields have there, merged into what was there. -/
theorem get?_mergeFields {sources targets : Entries FetchedValue}
    (hdistinct : (Entries.keys sources).Nodup) (key : String) :
    (mergeFields sources targets).get? key =
      Option.merge merge (targets.get? key) (sources.get? key) := by
  induction sources generalizing targets with
  | nil => simp [mergeFields, Entries.get?]
  | cons first rest ih =>
    obtain ⟨name, source⟩ := first
    obtain ⟨hname, hrest⟩ := List.nodup_cons.mp hdistinct
    have hlater : Entries.get? rest name = none := Entries.get?_eq_none_iff.mpr hname
    rw [mergeFields, ih hrest, Entries.get?_cons]
    cases htarget : targets.get? name with
    | none =>
      dsimp only
      rw [Entries.get?_append, Entries.get?_cons]
      by_cases hkey : key = name
      · rw [if_pos hkey, if_pos hkey, hkey, hlater, htarget]
        rfl
      · rw [if_neg hkey, if_neg hkey]
        simp [Entries.get?]
    | some target =>
      dsimp only
      rw [Entries.get?_insert]
      by_cases hkey : key = name
      · rw [if_pos hkey, if_pos hkey, hkey, hlater, htarget]
        rfl
      · rw [if_neg hkey, if_neg hkey]

end Merge

end FetchedValue

/-! ## Objects -/

namespace ObjectOf

/-- Under every key stands what the later object has there, merged into what was there. -/
theorem get?_merge {target source : FetchedObject} (hdistinct : source.keys.Nodup) (key : String) :
    (target.merge source).get? key =
      Option.merge FetchedValue.merge (target.get? key) (source.get? key) := by
  obtain ⟨fields, errors, owner, fieldOwners⟩ := source
  unfold ObjectOf.merge ObjectOf.get?
  rw [FetchedValue.mergeObject]
  exact FetchedValue.get?_mergeFields hdistinct key

end ObjectOf

namespace FetchedValue

/-! ## What is merged at common positions -/

/-- At a common position stands the merge of what stood there. -/
theorem Meets.at?_merge {target source t s : FetchedValue} {path : Path}
    (h : Meets target source path t s) (hkeyed : source.Keyed) :
    (target.merge source).at? path = some (t.merge s) := by
  induction h with
  | here target source => exact at?_nil _
  | field inTarget inSource below ih =>
    rw [merge_object, at?, ObjectOf.get?_merge hkeyed.nodup, inTarget, inSource]
    exact ih (hkeyed.field inSource)
  | item length inTarget inSource below ih =>
    rw [merge_list length, at?, getElem?_mergeItems inTarget inSource]
    exact ih (hkeyed.item inSource)

/-- What stands at a path of a merge stands there in the target or in the source, or is the merge of
what stands there in both. -/
theorem at?_merge_cases {target source part : FetchedValue} (hkeyed : source.Keyed) {path : Path}
    (h : (target.merge source).at? path = some part) :
    target.at? path = some part ∨ source.at? path = some part ∨
      ∃ t s, target.at? path = some t ∧ source.at? path = some s ∧ part = t.merge s := by
  induction path generalizing target source with
  | nil =>
    rw [at?_nil, Option.some.injEq] at h
    exact .inr (.inr ⟨target, source, at?_nil _, at?_nil _, h.symm⟩)
  | cons segment rest ih =>
    cases source with
    | null => exact .inl (merge_null target ▸ h)
    | leaf json => exact .inr (.inl (merge_leaf target json ▸ h))
    | error held => exact .inr (.inl (merge_error target held ▸ h))
    | list sources =>
      by_cases hlist : ∃ targets, target = .list targets
      · obtain ⟨targets, rfl⟩ := hlist
        by_cases hlength : targets.length = sources.length
        · rw [merge_list hlength] at h
          cases segment with
          | key key => cases h
          | index position =>
            obtain ⟨item, hitem, hpart⟩ := Option.bind_eq_some_iff.mp h
            have hlt : position < targets.length := by
              rw [← length_mergeItems sources targets]
              exact (List.getElem?_eq_some_iff.mp hitem).1
            have htarget := List.getElem?_eq_getElem hlt
            have hsource := List.getElem?_eq_getElem (hlength ▸ hlt)
            cases (getElem?_mergeItems htarget hsource).symm.trans hitem
            rw [at?, htarget, at?, hsource]
            exact ih (hkeyed.item hsource) hpart
        · exact .inr (.inl (merge_list_of_length_ne hlength ▸ h))
      · refine .inr (.inl ?_)
        rwa [merge_list_of_no_list sources fun targets ht => hlist ⟨targets, ht⟩] at h
    | object source =>
      by_cases hobject : ∃ object, target = .object object
      · obtain ⟨object, rfl⟩ := hobject
        rw [merge_object] at h
        cases segment with
        | index position => cases h
        | key key =>
          obtain ⟨item, hitem, hpart⟩ := Option.bind_eq_some_iff.mp h
          rw [ObjectOf.get?_merge hkeyed.nodup] at hitem
          rw [at?, at?]
          cases htarget : object.get? key with
          | none =>
            rw [htarget, Option.merge_none_left] at hitem
            rw [hitem]
            exact .inr (.inl hpart)
          | some t =>
            cases hsource : source.get? key with
            | none =>
              rw [htarget, hsource] at hitem
              cases hitem
              exact .inl hpart
            | some s =>
              rw [htarget, hsource] at hitem
              cases hitem
              exact ih (hkeyed.field hsource) hpart
      · refine .inr (.inl ?_)
        rwa [merge_object_of_no_object source fun object ht => hobject ⟨object, ht⟩] at h

/-- The value has no data, but it is not the plain null: it is an error, or a leaf that holds
null. -/
def isBlank : FetchedValue → Bool
  | .error _ => true
  | .leaf .null => true
  | _ => false

/-- A merge loses the data of its target exactly when the later value is blank. -/
theorem toJson_merge_eq_null_iff {target : FetchedValue} (hdata : target.toJson ≠ .null)
    (source : FetchedValue) :
    (target.merge source).toJson = .null ↔ source.isBlank = true := by
  cases source with
  | null => simp [merge_null, hdata, isBlank]
  | leaf json =>
    rw [merge_leaf, toJson]
    cases json <;> simp [isBlank]
  | error held => simp [merge_error, toJson, isBlank]
  | object source =>
    have hobject : ∃ merged, target.merge (.object source) = .object merged := by
      cases target with
      | object target => exact ⟨_, merge_object target source⟩
      | _ => exact ⟨source, by unfold merge; rw [mergeInto] <;> simp⟩
    obtain ⟨merged, hmerged⟩ := hobject
    simp [hmerged, toJson_object, isBlank]
  | list sources =>
    have hlist : ∃ merged, target.merge (.list sources) = .list merged := by
      cases target with
      | list targets =>
        by_cases hlength : targets.length = sources.length
        · exact ⟨_, merge_list hlength⟩
        · exact ⟨_, merge_list_of_length_ne hlength⟩
      | _ => exact ⟨sources, by unfold merge; rw [mergeInto] <;> simp⟩
    obtain ⟨merged, hmerged⟩ := hlist
    simp [hmerged, toJson_list, isBlank]

/-- Where the target has data at a common position, the merged value has data there unless the
later value is blank there. -/
theorem toJson_at?_merge {target source t s : FetchedValue} {path : Path}
    (hmeets : Meets target source path t s) (hkeyed : source.Keyed) (hdata : t.toJson ≠ .null) :
    ∃ merged, (target.merge source).at? path = some merged ∧
      (merged.toJson = .null ↔ s.isBlank = true) :=
  ⟨t.merge s, hmeets.at?_merge hkeyed, toJson_merge_eq_null_iff hdata s⟩

/-- A user, and a later object in which a leaf that holds null stands in place of its type. -/
def typedUser : FetchedObject where
  fields := [("__typename", .leaf (.string "User"))]
  owner := "accounts"

/-- The later object. -/
def untypedUser : FetchedObject where
  fields := [("__typename", .leaf .null)]
  owner := "accounts"

/-- The type of the user is lost. -/
theorem toJson_at?_merge_untypedUser :
    Meets (.object typedUser) (.object untypedUser) [.key "__typename"] (.leaf (.string "User"))
        (.leaf .null) ∧
      (FetchedValue.object untypedUser).Keyed ∧
      (FetchedValue.leaf (.string "User")).toJson ≠ .null ∧
      ∃ merged, ((FetchedValue.object typedUser).merge (.object untypedUser)).at?
        [.key "__typename"] = some merged ∧ merged.toJson = .null := by
  have hmeets : Meets (.object typedUser) (.object untypedUser) [.key "__typename"]
      (.leaf (.string "User")) (.leaf .null) :=
    .field rfl rfl (.here _ _)
  have hkeyed : (FetchedValue.object untypedUser).Keyed :=
    keyed_object (by decide) (by simp [untypedUser, keyed_leaf])
  have hdata : (FetchedValue.leaf (.string "User")).toJson ≠ .null := by simp [toJson]
  obtain ⟨merged, hmerged, hnull⟩ := toJson_at?_merge hmeets hkeyed hdata
  exact ⟨hmeets, hkeyed, hdata, merged, hmerged, hnull.mpr rfl⟩

end FetchedValue

/-! ## Origins -/

namespace ObjectOf

/-- Where the last of the objects that have a key has its value from. -/
def lastOwner? (sources : List FetchedObject) (key : String) : Option String :=
  (sources.filter fun source => source.keys.contains key).getLast?.map (·.fieldOwner key)

/-- A field comes from where the last object that has it has it from. -/
theorem fieldOwner_mergeAnswers_eq (target : FetchedObject) (sources : List FetchedObject)
    (key : String) :
    (target.mergeAnswers (sources.map FetchedValue.object)).fieldOwner key =
      (lastOwner? sources key).getD (target.fieldOwner key) := by
  induction sources generalizing target with
  | nil => rfl
  | cons first rest ih =>
    rw [mergeAnswers_cons, ih, fieldOwner_merge]
    unfold lastOwner?
    by_cases hkey : key ∈ first.keys
    · have hfirst : first.keys.contains key = true := List.contains_iff_mem.mpr hkey
      rw [if_pos hkey, List.filter_cons, if_pos hfirst, List.getLast?_cons]
      cases (rest.filter fun source => source.keys.contains key).getLast? <;> rfl
    · have hfirst : ¬ first.keys.contains key = true := fun h => hkey (List.contains_iff_mem.mp h)
      rw [if_neg hkey, List.filter_cons, if_neg hfirst]

/-- Objects that have no value for a key but null leave it with its value, and it comes from where
the last of them that has the key has it from. -/
theorem origin_mergeAnswers_of_null {target : FetchedObject} {sources : List FetchedObject}
    (hdistinct : ∀ source ∈ sources, source.keys.Nodup) {key : String}
    (hnull : ∀ source ∈ sources, source.get? key = none ∨
      source.get? key = some .null ∧ target.get? key ≠ none) :
    (target.mergeAnswers (sources.map FetchedValue.object)).get? key = target.get? key ∧
      ((target.mergeAnswers (sources.map FetchedValue.object)).fieldOwner key =
          target.fieldOwner key ↔
        ∀ owner ∈ lastOwner? sources key, owner = target.fieldOwner key) := by
  constructor
  · induction sources generalizing target with
    | nil => rfl
    | cons first rest ih =>
      rw [List.forall_mem_cons] at hdistinct hnull
      have hfirst : (target.merge first).get? key = target.get? key := by
        rw [get?_merge hdistinct.1]
        rcases hnull.1 with hnone | ⟨hsome, hheld⟩
        · rw [hnone]
          cases target.get? key <;> rfl
        · obtain ⟨value, hvalue⟩ := Option.ne_none_iff_exists'.mp hheld
          rw [hsome, hvalue]
          exact congrArg some (FetchedValue.merge_null value)
      rw [mergeAnswers_cons, ih hdistinct.2 (by rw [hfirst]; exact hnull.2), hfirst]
  · rw [fieldOwner_mergeAnswers_eq]
    cases lastOwner? sources key <;> simp

/-- Answers are merged one after the other. -/
theorem mergeAnswers_append (target : FetchedObject) (before after : List FetchedObject) :
    target.mergeAnswers ((before ++ after).map FetchedValue.object) =
      (target.mergeAnswers (before.map FetchedValue.object)).mergeAnswers
        (after.map FetchedValue.object) := by
  unfold mergeAnswers
  rw [List.map_append, List.foldl_append]

/-- The value that an object has for a key is merged into what is there, and objects behind it that
have no value for the key but null leave it there; it comes from where the last of them that has the
key has it from, or from where the object does. -/
theorem origin_mergeAnswers_of_mem {target source : FetchedObject}
    {before after : List FetchedObject}
    (hdistinct : ∀ one ∈ before ++ source :: after, one.keys.Nodup) {key : String}
    {value : FetchedValue} (hvalue : source.get? key = some value)
    (hnull : ∀ later ∈ after, later.get? key = none ∨ later.get? key = some .null) :
    (target.mergeAnswers ((before ++ source :: after).map FetchedValue.object)).get? key =
        Option.merge FetchedValue.merge
          ((target.mergeAnswers (before.map FetchedValue.object)).get? key) (some value) ∧
      ((target.mergeAnswers ((before ++ source :: after).map FetchedValue.object)).fieldOwner key =
          source.fieldOwner key ↔
        ∀ owner ∈ lastOwner? after key, owner = source.fieldOwner key) := by
  -- Once the object has been merged, it is part of a target that those behind it leave as it is.
  let earlier := target.mergeAnswers (before.map FetchedValue.object)
  have hmerged : (earlier.merge source).get? key =
      Option.merge FetchedValue.merge (earlier.get? key) (some value) := by
    rw [get?_merge (hdistinct source (List.mem_append_right _ List.mem_cons_self)), hvalue]
  have hhas : (earlier.merge source).get? key ≠ none := by
    rw [hmerged]
    cases earlier.get? key <;> simp
  have hkey : key ∈ source.keys := Entries.exists_get?_iff.mp ⟨value, hvalue⟩
  have howner : (earlier.merge source).fieldOwner key = source.fieldOwner key := by
    rw [fieldOwner_merge, if_pos hkey]
  have hlater := origin_mergeAnswers_of_null
    (fun later hmem => hdistinct later (List.mem_append_right _ (List.mem_cons_of_mem _ hmem)))
    (fun later hmem => (hnull later hmem).imp_right fun hsome => ⟨hsome, hhas⟩)
  rw [mergeAnswers_append, mergeAnswers_cons, ← hmerged, ← howner]
  exact hlater

/-- Objects that meet become what merging the one into the other makes of them alone. -/
theorem at?_mergeAnswers {target source t s : FetchedObject} (before : List FetchedObject)
    {path : Path} (hkeyed : (FetchedValue.object source).Keyed)
    (hmeets : FetchedValue.Meets
      (.object (target.mergeAnswers (before.map FetchedValue.object))) (.object source) path
      (.object t) (.object s)) :
    (FetchedValue.object
        (target.mergeAnswers ((before ++ [source]).map FetchedValue.object))).at? path =
      some (.object (t.mergeAnswers [.object s])) := by
  have hpart := hmeets.at?_merge hkeyed
  rw [FetchedValue.merge_object, FetchedValue.merge_object] at hpart
  rw [mergeAnswers_append]
  exact hpart

/-- When a key is noted to come from where its value does. A value that no later object replaces
comes from the target: this is what is noted exactly when the last object that has null for the key
has the null from there, too. A value of one of the objects that none behind it replaces comes from
where the object has it: this is what is noted under the same condition for those behind it. Objects
inside that meet are merged in the same way, so the same holds of their keys. -/
theorem origin_mergeAnswers {target : FetchedObject} {sources : List FetchedObject}
    (hkeyed : ∀ source ∈ sources, (FetchedValue.object source).Keyed) :
    (∀ key, (∀ source ∈ sources, source.get? key = none ∨
        source.get? key = some .null ∧ target.get? key ≠ none) →
      (target.mergeAnswers (sources.map FetchedValue.object)).get? key = target.get? key ∧
        ((target.mergeAnswers (sources.map FetchedValue.object)).fieldOwner key =
            target.fieldOwner key ↔
          ∀ owner ∈ lastOwner? sources key, owner = target.fieldOwner key)) ∧
      ∀ before source after, sources = before ++ source :: after →
        (∀ key value, source.get? key = some value →
          (∀ later ∈ after, later.get? key = none ∨ later.get? key = some .null) →
          (target.mergeAnswers (sources.map FetchedValue.object)).get? key =
              Option.merge FetchedValue.merge
                ((target.mergeAnswers (before.map FetchedValue.object)).get? key) (some value) ∧
            ((target.mergeAnswers (sources.map FetchedValue.object)).fieldOwner key =
                source.fieldOwner key ↔
              ∀ owner ∈ lastOwner? after key, owner = source.fieldOwner key)) ∧
        ∀ path t s, FetchedValue.Meets
            (.object (target.mergeAnswers (before.map FetchedValue.object))) (.object source) path
            (.object t) (.object s) →
          (FetchedValue.object
              (target.mergeAnswers ((before ++ [source]).map FetchedValue.object))).at? path =
            some (.object (t.mergeAnswers [.object s])) := by
  have hdistinct : ∀ source ∈ sources, source.keys.Nodup := fun source hmem =>
    (hkeyed source hmem).nodup
  refine ⟨fun key hnull => origin_mergeAnswers_of_null hdistinct hnull, ?_⟩
  rintro before source after rfl
  refine ⟨fun key value hvalue hnull => origin_mergeAnswers_of_mem hdistinct hvalue hnull, ?_⟩
  intro path t s hmeets
  exact at?_mergeAnswers before
    (hkeyed source (List.mem_append_right _ List.mem_cons_self)) hmeets

/-- A user whose name has been fetched from one service, and what another one has: no name. -/
def namedUser : FetchedObject where
  fields := [("name", .leaf (.string "Ann"))]
  owner := "accounts"

/-- What the other service has. -/
def unnamedUser : FetchedObject where
  fields := [("name", .null)]
  owner := "products"

/-- The name stays, but it is noted to come from the other service. -/
theorem origin_mergeAnswers_unnamedUser :
    (FetchedValue.object unnamedUser).Keyed ∧ unnamedUser.get? "name" = some .null ∧
      (namedUser.mergeAnswers [.object unnamedUser]).get? "name" = namedUser.get? "name" ∧
      (namedUser.mergeAnswers [.object unnamedUser]).fieldOwner "name" ≠
        namedUser.fieldOwner "name" := by
  have hkeyed : (FetchedValue.object unnamedUser).Keyed :=
    FetchedValue.keyed_object (by decide) (by simp [unnamedUser, FetchedValue.keyed_null])
  have hnull : ∀ source ∈ [unnamedUser], source.get? "name" = none ∨
      source.get? "name" = some .null ∧ namedUser.get? "name" ≠ none := by
    rw [List.forall_mem_singleton]
    have hname : namedUser.get? "name" = some (.leaf (.string "Ann")) := rfl
    exact .inr ⟨rfl, by rw [hname]; simp⟩
  have hkeyeds : ∀ source ∈ [unnamedUser], (FetchedValue.object source).Keyed :=
    List.forall_mem_singleton.mpr hkeyed
  obtain ⟨hvalue, howner⟩ := (origin_mergeAnswers hkeyeds).1 "name" hnull
  refine ⟨hkeyed, rfl, hvalue, fun hsame => ?_⟩
  exact absurd (howner.mp hsame "products" rfl) (by decide)

end ObjectOf

end Gateway
