import Gateway.Proofs.Stitching.Needs
import Gateway.Proofs.Stitching.Owners

/-!
# Who owns which fields

A type is merged when several services declare it and one of them takes part in it. The owners of a
field are the services that declare it, in order, less those that need the field of an object
themselves: a leaf among the selections that a service needs identifies the object to it. A field
with one owner is unique, one with several is shared, and one without is in neither table
(`Partitions`).

Two folds make these tables. The candidates are the services grouped by the types that they declare,
and the owners are the candidates of a type grouped by the fields that they own; `Entries.Groups`
says what such a fold leads to, and `foldlM_reads` takes the owners out of all else that is built
from the candidates.
-/

namespace Gateway

/-! ## Schemas that declare every name once -/

/-- A schema declares every type once, and every type each of its fields. -/
structure Schema.Keyed (schema : Schema) : Prop where
  /-- The types have different names. -/
  types : (schema.types.map TypeDefinition.name).Nodup
  /-- So have the fields of each. -/
  fields : ∀ type ∈ schema.types, (type.body.fields.map FieldDefinition.name).Nodup

/-- Whether a schema declares every name once can be decided. -/
instance (schema : Schema) : Decidable schema.Keyed :=
  decidable_of_iff ((schema.types.map TypeDefinition.name).Nodup ∧
      ∀ type ∈ schema.types, (type.body.fields.map FieldDefinition.name).Nodup)
    ⟨fun h => ⟨h.1, h.2⟩, fun h => ⟨h.types, h.fields⟩⟩

/-- A schema that is read declares every name once. -/
theorem Schema.keyed_of_parse? {text : String} {schema : Schema}
    (hparse : parse? text = some schema) : schema.Keyed := by
  obtain ⟨htypes, whole, hfields⟩ := exists_fieldsValid hparse
  refine ⟨htypes, fun type hmem => ?_⟩
  rcases hfields type hmem with hnone | hvalid
  · rw [hnone]
    exact List.nodup_nil
  · simp only [fieldsValid, Bool.and_eq_true] at hvalid
    exact of_decide_eq_true hvalid.1.2

/-- The fields of a type have different names. -/
theorem Schema.Keyed.nodup_fields {schema : Schema} (h : schema.Keyed) (type : Name) :
    ((schema.fields type).map FieldDefinition.name).Nodup := by
  rcases schema.fields_cases type with hnone | ⟨definition, hdefinition, hsame⟩
  · rw [hnone]
    exact List.nodup_nil
  · rw [hsame]
    exact h.fields definition hdefinition

/-! ## What is configured -/

/-- A type can be merged in a subschema: it is an object type, neither built in nor a root. -/
structure Subschema.Mergeable (subschema : Subschema) (type : Name) : Prop where
  /-- It is an object type. -/
  object : subschema.view.isObject type = true
  /-- It is not built in. -/
  defined : Builtin.isTypeName type = false
  /-- It is no root. -/
  noRoot : ∀ kind, subschema.view.root? kind ≠ some type

/-- The listed types of a subschema are those that can be merged in it. -/
theorem Subschema.mem_mergeableTypes_iff {subschema : Subschema} {type : Name} :
    type ∈ subschema.mergeableTypes ↔ subschema.Mergeable type := by
  unfold Subschema.mergeableTypes
  simp only [List.mem_filter, Bool.and_eq_true, Bool.not_eq_true', List.all_eq_true, bne_iff_ne]
  constructor
  · rintro ⟨-, ⟨hobject, hdefined⟩, hroots⟩
    exact ⟨hobject, hdefined, fun kind => hroots kind (by cases kind <;> simp)⟩
  · rintro ⟨hobject, hdefined, hroots⟩
    refine ⟨?_, ⟨hobject, hdefined⟩, fun kind _ => hroots kind⟩
    obtain ⟨interfaces, fields, hbody⟩ := Schema.isObject_iff.mp hobject
    obtain ⟨definition, hfound, -⟩ := Option.map_eq_some_iff.mp hbody
    obtain ⟨hmem, hname⟩ := Schema.of_type? hfound
    exact List.mem_map.mpr ⟨definition, hmem, hname⟩

/-- Whether a type can be merged can be decided. -/
instance (subschema : Subschema) (type : Name) : Decidable (subschema.Mergeable type) :=
  decidable_of_iff _ Subschema.mem_mergeableTypes_iff

section Configured

variable {σ : Type}

/-- The selections that a service needs of objects of a type, if it needs any that can be read. -/
def Service.needed? (service : Service σ) (type : Name) : Option (List Selection) := do
  let text ← (service.merging.get? type).bind TypeMerging.selectionSet?
  (parseSelectionSet text).toOption

/-- Whether a service needs a field of an object itself. -/
def Service.needsField (service : Service σ) (type field : Name) : Bool :=
  match service.needed? type with
  | some needed => (directFields needed).any fun node => node.name = field
  | none => false

/-- Whether a service owns a field of a type: it declares the field, which is not a leaf that it
needs of an object itself. -/
def Service.owns (service : Service σ) (type field : Name) : Bool :=
  match service.subschema.view.field? type field with
  | some definition =>
    !(service.subschema.view.isLeaf definition.type.innerName && service.needsField type field)
  | none => false

/-- All that is configured for a field can be read. -/
structure FieldMerging.Readable (merging : FieldMerging) : Prop where
  /-- Its selection set. -/
  selectionSet : ∀ text, merging.selectionSet? = some text →
    ∃ selections, parseSelectionSet text = .ok selections
  /-- Its fragment. -/
  fragment : ∀ text, merging.fragment? = some text → ∃ fragment, parseFragment text = .ok fragment

/-- All that is configured for a type can be read. -/
structure TypeMerging.Readable (merging : TypeMerging σ) : Prop where
  /-- Its selection set. -/
  selectionSet : ∀ text, merging.selectionSet? = some text →
    ∃ selections, parseSelectionSet text = .ok selections
  /-- What is configured for its fields. -/
  fields : ∀ field ∈ merging.fields, field.2.Readable

/-- All that is configured of a service for a type can be read. -/
def Service.Readable (service : Service σ) (type : Name) : Prop :=
  ∀ merging, service.merging.get? type = some merging → merging.Readable

end Configured

namespace Stitching

variable {σ : Type}

/-- The services in which a type can be merged. -/
def declaring (services : List (Service σ)) (type : Name) : List (Service σ) :=
  services.filter fun service => service.subschema.Mergeable type

/-- The owners of a field. -/
def ownersOf (services : List (Service σ)) (type field : Name) : List Subschema :=
  ((declaring services type).filter fun service => service.owns type field).map Service.subschema

/-- A type is merged: several services declare it, and one takes part in it. -/
structure Merges (services : List (Service σ)) (type : Name) : Prop where
  /-- Several services declare it. -/
  several : 2 ≤ (declaring services type).length
  /-- One of them takes part in it. -/
  takesPart : ∃ service ∈ declaring services type, (service.merging.get? type).isSome = true

/-- The fields of a type are in the tables to which their owners assign them. -/
structure Partitions (services : List (Service σ)) (type : Name)
    (merged : MergedType (TypeResolver σ)) : Prop where
  /-- A field of one owner is unique. -/
  unique : ∀ field owner, merged.uniqueFields.get? field = some owner ↔
    ownersOf services type field = [owner]
  /-- A field of several owners is shared. -/
  shared : ∀ field owners, merged.sharedFields.get? field = some owners ↔
    ownersOf services type field = owners ∧ 2 ≤ owners.length
  /-- A field without owners is in neither table. -/
  unowned : ∀ field, merged.uniqueFields.get? field = none ∧ merged.sharedFields.get? field = none ↔
    ownersOf services type field = []

/-! ## Candidates -/

/-- The candidates are the services grouped by the types that can be merged in them. -/
theorem groups_candidates {services : List (Service σ)}
    (hkeyed : ∀ service ∈ services, service.subschema.view.Keyed) :
    Entries.Groups (fun service : Service σ => service.subschema.mergeableTypes) id services
      (candidates services) :=
  Entries.groups_foldl_push fun service hservice => (hkeyed service hservice).types.filter _

/-- The candidates for a type are those that declare it. -/
theorem mem_candidates_iff {services : List (Service σ)}
    (hkeyed : ∀ service ∈ services, service.subschema.view.Keyed) {type : Name}
    {listed : List (Service σ)} :
    (type, listed) ∈ candidates services ↔ listed = declaring services type ∧ listed ≠ [] := by
  have hgroups := groups_candidates hkeyed
  have hsame : ((services.filter fun service =>
      decide (type ∈ service.subschema.mergeableTypes)).map id) = declaring services type := by
    rw [List.map_id]
    exact List.filter_congr fun service _ =>
      decide_eq_decide.mpr Subschema.mem_mergeableTypes_iff
  rw [← hsame, ← hgroups.found]
  exact (Entries.get?_eq_some_iff_mem hgroups.distinct).symm

/-! ## Owners -/

/-- The selections that are read for a candidate are those that it needs. -/
theorem needed?_of_mapM {service : Service σ} {type : Name} {needed : Option (List Selection)}
    (h : ((service.merging.get? type).bind TypeMerging.selectionSet?).mapM parseSelectionSet =
      .ok needed) : service.needed? type = needed := by
  unfold Service.needed?
  rcases option_mapM_eq_ok_iff.mp h with ⟨hnone, rfl⟩ | ⟨text, selections, hsome, rfl, hread⟩
  · rw [hnone]
    rfl
  · rw [hsome, Option.bind_eq_bind, Option.bind_some, hread]
    rfl

/-- A candidate is added as an owner of the fields that it owns. -/
theorem mem_ownedFields_iff {service : Service σ} (hkeyed : service.subschema.view.Keyed)
    {type field : Name} :
    field ∈ Building.ownedFields service.subschema type (service.needed? type) ↔
      service.owns type field = true := by
  have hfound : ∀ definition, service.subschema.view.field? type field = some definition ↔
      definition ∈ service.subschema.view.fields type ∧ definition.name = field :=
    fun definition => Schema.find?_eq_some_iff_of_nodup (hkeyed.nodup_fields type)
  have howns : ∀ definition, service.subschema.view.field? type field = some definition →
      service.owns type field = !(service.subschema.view.isLeaf definition.type.innerName &&
        service.needsField type definition.name) := by
    intro definition hdefinition
    unfold Service.owns
    rw [hdefinition, ((hfound definition).mp hdefinition).2]
  unfold Building.ownedFields
  rw [List.mem_map]
  constructor
  · rintro ⟨definition, hmem, hname⟩
    obtain ⟨hmem, hkept⟩ := List.mem_filter.mp hmem
    rw [howns definition ((hfound definition).mpr ⟨hmem, hname⟩)]
    exact hkept
  · intro h
    cases hdefinition : service.subschema.view.field? type field with
    | none =>
      unfold Service.owns at h
      rw [hdefinition] at h
      exact absurd h Bool.false_ne_true
    | some definition =>
      obtain ⟨hmem, hname⟩ := (hfound definition).mp hdefinition
      rw [howns definition hdefinition] at h
      exact ⟨definition, List.mem_filter.mpr ⟨hmem, h⟩, hname⟩

/-- The owners are the candidates grouped by the fields that they own. -/
theorem groups_owners {services listed : List (Service σ)} {type : Name}
    (hkeyed : ∀ service ∈ listed, service.subschema.view.Keyed) {start building : Building σ}
    (hstart : start.owners = [])
    (h : listed.foldlM (Building.addCandidate services type) start = .ok building) :
    Entries.Groups (fun service : Service σ =>
      Building.ownedFields service.subschema type (service.needed? type)) Service.subschema listed
        building.owners := by
  have hstep : ∀ building : Building σ, ∀ service ∈ listed, ∀ building',
      Building.addCandidate services type building service = .ok building' →
        building'.owners = (Building.ownedFields service.subschema type
          (service.needed? type)).foldl
            (fun owners field => Entries.push owners field service.subschema) building.owners := by
    intro building service _ building' hadded
    obtain ⟨needed, hneeded, howners⟩ := Building.owners_addCandidate hadded
    rw [howners, needed?_of_mapM hneeded]
    rfl
  have howners := foldlM_reads Building.owners (fun owners service =>
    (Building.ownedFields service.subschema type (service.needed? type)).foldl
      (fun owners field => Entries.push owners field service.subschema) owners) hstep h
  rw [howners, hstart]
  refine Entries.groups_foldl_push fun service hservice => ?_
  exact ((hkeyed service hservice).nodup_fields type).sublist (List.filter_sublist.map _)

/-! ## The tables of a merged type -/

section Tables

variable {building : Building σ} {type field : Name} {candidates : List Subschema}

/-- A field is unique when it has one owner. -/
theorem uniqueFields_get?_iff (h : building.owners.keys.Nodup) {owner : Subschema} :
    (finish type candidates building).uniqueFields.get? field = some owner ↔
      building.owners.get? field = some [owner] := by
  rw [Entries.get?_eq_some_iff_mem h]
  refine (Entries.get?_eq_some_iff_mem (Entries.nodup_keys_filterMap h ?_)).trans ?_
  · rintro ⟨name, owners⟩ changed hchanged
    split at hchanged
    · cases hchanged
      rename_i heq
      exact (congrArg Prod.fst heq).symm
    · exact absurd hchanged (by simp)
  · rw [List.mem_filterMap]
    constructor
    · rintro ⟨entry, hentry, hchanged⟩
      split at hchanged
      · cases hchanged
        exact hentry
      · exact absurd hchanged (by simp)
    · exact fun hentry => ⟨_, hentry, rfl⟩

/-- A field is shared when it has owners, but not one. -/
theorem sharedFields_get?_iff (h : building.owners.keys.Nodup) {owners : List Subschema} :
    (finish type candidates building).sharedFields.get? field = some owners ↔
      building.owners.get? field = some owners ∧ owners.length ≠ 1 := by
  rw [Entries.get?_eq_some_iff_mem h]
  refine (Entries.get?_eq_some_iff_mem (Entries.nodup_keys_filter h _)).trans ?_
  rw [List.mem_filter, decide_eq_true_iff]

/-- The tables are those of the owners when the owners of each field are found. -/
theorem partitions_finish {services : List (Service σ)} (h : building.owners.keys.Nodup)
    (hfound : ∀ field owners, building.owners.get? field = some owners ↔
      ownersOf services type field = owners ∧ owners ≠ []) :
    Partitions services type (finish type candidates building) := by
  have hunique : ∀ field owner,
      (finish type candidates building).uniqueFields.get? field = some owner ↔
        ownersOf services type field = [owner] := by
    intro field owner
    rw [uniqueFields_get?_iff h, hfound]
    exact and_iff_left (List.cons_ne_nil _ _)
  have hshared : ∀ field owners,
      (finish type candidates building).sharedFields.get? field = some owners ↔
        ownersOf services type field = owners ∧ 2 ≤ owners.length := by
    intro field owners
    rw [sharedFields_get?_iff h, hfound, and_assoc, ← List.length_pos_iff]
    refine and_congr_right fun _ => ?_
    omega
  refine ⟨hunique, hshared, fun field => ?_⟩
  rw [Option.eq_none_iff_forall_ne_some, Option.eq_none_iff_forall_ne_some]
  simp only [ne_eq, hunique, hshared]
  -- One owner would make the field unique, and more of them would make it shared.
  cases ownersOf services type field with
  | nil => simp
  | cons owner rest =>
    refine iff_of_false ?_ (List.cons_ne_nil owner rest)
    rintro ⟨hnone, hfew⟩
    cases rest with
    | nil => exact hnone owner rfl
    | cons other rest => exact hfew _ ⟨rfl, by simp⟩

end Tables

/-- The tables of a merged type are those of the owners of its fields. -/
theorem partitions_of_ofServices {services : List (Service σ)} {stitching : Stitching σ}
    {type : Name} {merged : MergedType (TypeResolver σ)}
    (hkeyed : ∀ service ∈ services, service.subschema.view.Keyed)
    (h : ofServices services = .ok stitching)
    (hmerged : stitching.mergedType? type = some merged) : Partitions services type merged := by
  obtain ⟨listed, requirements, building, hlisted, hbuilding, rfl⟩ :=
    isFinished_of_ofServices h hmerged
  obtain ⟨rfl, -⟩ := (mem_candidates_iff hkeyed).mp hlisted
  have hdeclaring : ∀ service ∈ declaring services type, service.subschema.view.Keyed :=
    fun service hservice => hkeyed service (List.mem_filter.mp hservice).1
  have hgroups := groups_owners hdeclaring rfl hbuilding
  have hfound : ∀ field owners, building.owners.get? field = some owners ↔
      ownersOf services type field = owners ∧ owners ≠ [] := by
    intro field owners
    have hsame : (declaring services type).filter (fun service => decide (field ∈
        Building.ownedFields service.subschema type (service.needed? type))) =
          (declaring services type).filter fun service => service.owns type field := by
      refine List.filter_congr fun service hservice => ?_
      rw [Bool.eq_iff_iff, decide_eq_true_iff]
      exact mem_ownedFields_iff (hdeclaring service hservice)
    rw [hgroups.found, hsame]
    exact and_congr_left fun _ => eq_comm
  exact partitions_finish hgroups.distinct hfound

/-! ## The merged types -/

/-- After a type is added, those are merged that were, and the type if it is merged. -/
theorem isSome_mergedType?_of_addType {services : List (Service σ)}
    {stitching stitching' : Stitching σ} {entry : Name × List (Service σ)}
    (h : addType services stitching entry = .ok stitching') (type : Name) :
    (stitching'.mergedType? type).isSome = true ↔
      (stitching.mergedType? type).isSome = true ∨
        entry.1 = type ∧ isMerged entry.1 entry.2 = true := by
  obtain ⟨name, listed⟩ := entry
  unfold addType at h
  dsimp only at h
  split at h
  · rename_i hmerged
    obtain ⟨building, -, h⟩ := except_bind_eq_ok_iff.mp h
    cases h
    unfold mergedType?
    rw [Entries.get?_insert]
    by_cases hname : type = name
    · rw [if_pos hname]
      exact iff_of_true rfl (.inr ⟨hname.symm, hmerged⟩)
    · rw [if_neg hname]
      exact (or_iff_left fun hother => hname hother.1.symm).symm
  · rename_i hunmerged
    cases h
    exact (or_iff_left fun hother => hunmerged hother.2).symm

/-- After types are added, those are merged that were, and those of them that are merged. -/
theorem isSome_mergedType?_of_addTypes {services : List (Service σ)}
    {entries : Entries (List (Service σ))} {start stitching : Stitching σ}
    (h : entries.foldlM (addType services) start = .ok stitching) (type : Name) :
    (stitching.mergedType? type).isSome = true ↔
      (start.mergedType? type).isSome = true ∨
        ∃ listed, (type, listed) ∈ entries ∧ isMerged type listed = true := by
  induction entries generalizing start with
  | nil =>
    rw [List.foldlM_nil] at h
    cases h
    simp
  | cons first rest ih =>
    rw [List.foldlM_cons] at h
    obtain ⟨middle, hfirst, hrest⟩ := except_bind_eq_ok_iff.mp h
    rw [ih hrest, isSome_mergedType?_of_addType hfirst, or_assoc]
    refine or_congr_right ?_
    constructor
    · rintro (⟨rfl, hmerged⟩ | ⟨listed, hmem, hmerged⟩)
      · exact ⟨first.2, List.mem_cons_self, hmerged⟩
      · exact ⟨listed, List.mem_cons_of_mem _ hmem, hmerged⟩
    · rintro ⟨listed, hmem, hmerged⟩
      rcases List.mem_cons.mp hmem with rfl | hmem
      · exact .inl ⟨rfl, hmerged⟩
      · exact .inr ⟨listed, hmem, hmerged⟩

/-- Candidates for a type make it a merged type exactly when they are those of one. -/
theorem isMerged_candidates_iff {services : List (Service σ)}
    (hkeyed : ∀ service ∈ services, service.subschema.view.Keyed) {type : Name} :
    (∃ listed, (type, listed) ∈ candidates services ∧ isMerged type listed = true) ↔
      Merges services type := by
  have hmerged : isMerged type (declaring services type) = true ↔ Merges services type := by
    unfold isMerged
    rw [Bool.and_eq_true, decide_eq_true_iff, List.any_eq_true]
    exact ⟨fun h => ⟨h.1, h.2⟩, fun h => ⟨h.several, h.takesPart⟩⟩
  constructor
  · rintro ⟨listed, hlisted, hsome⟩
    obtain ⟨rfl, -⟩ := (mem_candidates_iff hkeyed).mp hlisted
    exact hmerged.mp hsome
  · intro h
    have hnonempty : declaring services type ≠ [] := by
      intro hnil
      have hseveral := h.several
      rw [hnil] at hseveral
      exact absurd hseveral (by simp)
    exact ⟨_, (mem_candidates_iff hkeyed).mpr ⟨rfl, hnonempty⟩, hmerged.mpr h⟩

/-- The merged types are those that are merged by what is configured. -/
theorem isSome_mergedType?_iff {services : List (Service σ)} {stitching : Stitching σ}
    (hkeyed : ∀ service ∈ services, service.subschema.view.Keyed)
    (h : ofServices services = .ok stitching) (type : Name) :
    (stitching.mergedType? type).isSome = true ↔ Merges services type := by
  rw [isSome_mergedType?_of_addTypes h, ← isMerged_candidates_iff hkeyed]
  exact or_iff_right (by simp [mergedType?, Entries.get?])

/-! ## Configurations that can be read -/

/-- What a field needs is added exactly when it can be read. -/
theorem exists_addField_iff {type : Name} {sofar : MergeRequirements × Entries (List Selection)}
    {field : Name × FieldMerging} :
    (∃ sofar', Building.addField type sofar field = .ok sofar') ↔ field.2.Readable := by
  obtain ⟨requirements, needs⟩ := sofar
  obtain ⟨name, selectionSet?, fragment?⟩ := field
  have hreadable : FieldMerging.Readable ⟨selectionSet?, fragment?⟩ ↔
      (∀ text, selectionSet? = some text → ∃ selections, parseSelectionSet text = .ok selections) ∧
        ∀ text, fragment? = some text → ∃ fragment, parseFragment text = .ok fragment :=
    ⟨fun h => ⟨h.selectionSet, h.fragment⟩, fun h => ⟨h.1, h.2⟩⟩
  unfold Building.addField
  rw [hreadable]
  cases selectionSet? with
  | none =>
    cases fragment? with
    | none => simp [pure, Except.pure]
    | some fragment => simp [except_bind_eq_ok_iff, pure, Except.pure]
  | some selections =>
    cases fragment? with
    | none => simp [except_bind_eq_ok_iff, pure, Except.pure]
    | some fragment => simp [except_bind_eq_ok_iff, pure, Except.pure]

/-- What the fields of a candidate need is added exactly when all of it can be read. -/
theorem exists_addFields_iff {type : Name} {building : Building σ} {subschema : Subschema}
    {fields : Entries FieldMerging} :
    (∃ building', Building.addFields type building subschema fields = .ok building') ↔
      ∀ field ∈ fields, field.2.Readable := by
  have hfold : (∃ sofar, fields.foldlM (Building.addField type) (building.requirements, []) =
      .ok sofar) ↔ ∀ field ∈ fields, field.2.Readable := by
    refine exists_foldlM_eq_ok_iff fun sofar field => ?_
    exact exists_addField_iff
  rw [← hfold]
  exact exists_bind_eq_ok_iff fun sofar => ⟨_, rfl⟩

/-- A candidate is added exactly when what is configured for it can be read. -/
theorem exists_addCandidate_iff {services : List (Service σ)} {type : Name}
    {building : Building σ} {service : Service σ} :
    (∃ building', Building.addCandidate services type building service = .ok building') ↔
      service.Readable type := by
  constructor
  · rintro ⟨building', h⟩ merging hmerging
    obtain ⟨needed, middle, hneeded, hpart, -⟩ := Building.of_addCandidate h
    rw [hmerging, Option.bind_some] at hneeded
    refine ⟨exists_option_mapM_iff.mp ⟨needed, hneeded⟩, ?_⟩
    cases hpart with
    | not absent => exact absurd (absent.symm.trans hmerging) (by simp)
    | fields present added _ =>
      cases present.symm.trans hmerging
      exact exists_addFields_iff.mp ⟨_, added⟩
    | resolver present added _ =>
      cases present.symm.trans hmerging
      exact exists_addFields_iff.mp ⟨_, added⟩
  · intro hreadable
    cases hmerging : service.merging.get? type with
    | none => exact Building.exists_addCandidate (by rw [hmerging]; rfl) (.not hmerging)
    | some merging =>
      obtain ⟨hselections, hfields⟩ := hreadable merging hmerging
      obtain ⟨needed, hneeded⟩ := exists_option_mapM_iff.mpr hselections
      rw [← Option.bind_some (f := TypeMerging.selectionSet?), ← hmerging] at hneeded
      obtain ⟨middle, hadded⟩ : ∃ middle,
          Building.addFields type building service.subschema merging.fields = .ok middle :=
        exists_addFields_iff.mpr hfields
      cases hresolver : merging.resolver? (services.filter (·.subschema.is service.subschema)) with
      | none => exact Building.exists_addCandidate hneeded (.fields hmerging hadded hresolver)
      | some resolver =>
        exact Building.exists_addCandidate hneeded (.resolver hmerging hadded hresolver)

/-- A type is added exactly when what is configured for its candidates can be read, if it is
merged. -/
theorem exists_addType_iff {services : List (Service σ)} {stitching : Stitching σ}
    {entry : Name × List (Service σ)} :
    (∃ stitching', addType services stitching entry = .ok stitching') ↔
      (isMerged entry.1 entry.2 = true → ∀ service ∈ entry.2, service.Readable entry.1) := by
  obtain ⟨type, listed⟩ := entry
  unfold addType
  dsimp only
  by_cases hmerged : isMerged type listed = true
  · have hfold : (∃ building, listed.foldlM (Building.addCandidate services type)
        { merged := { typeName? := some type }, requirements := stitching.requirements } =
          .ok building) ↔ ∀ service ∈ listed, service.Readable type := by
      refine exists_foldlM_eq_ok_iff fun building service => ?_
      exact exists_addCandidate_iff
    rw [if_pos hmerged, forall_prop_of_true hmerged, ← hfold]
    exact exists_bind_eq_ok_iff fun building => ⟨_, rfl⟩
  · rw [if_neg hmerged]
    exact iff_of_true ⟨stitching, rfl⟩ fun h => absurd h hmerged

/-- Services can be stitched exactly when all that is configured for their merged types can be
read. -/
theorem exists_ofServices_iff {services : List (Service σ)}
    (hkeyed : ∀ service ∈ services, service.subschema.view.Keyed) :
    (∃ stitching, ofServices services = .ok stitching) ↔
      ∀ type, Merges services type → ∀ service ∈ declaring services type,
        service.Readable type := by
  have hfold : (∃ stitching, ofServices services = .ok stitching) ↔
      ∀ entry ∈ candidates services, isMerged entry.1 entry.2 = true →
        ∀ service ∈ entry.2, service.Readable entry.1 := by
    refine exists_foldlM_eq_ok_iff fun stitching entry => ?_
    exact exists_addType_iff
  rw [hfold]
  constructor
  · intro h type hmerges
    obtain ⟨listed, hlisted, hmerged⟩ := (isMerged_candidates_iff hkeyed).mpr hmerges
    obtain ⟨rfl, -⟩ := (mem_candidates_iff hkeyed).mp hlisted
    exact h _ hlisted hmerged
  · rintro h ⟨type, listed⟩ hlisted hmerged
    obtain ⟨rfl, -⟩ := (mem_candidates_iff hkeyed).mp hlisted
    exact h type ((isMerged_candidates_iff hkeyed).mp ⟨_, hlisted, hmerged⟩)

/-! ## All services -/

/-- Services can be stitched exactly when what is configured for their merged types can be read;
then a type is merged if and only if several of them declare it and one of these takes part in it,
and its fields are unique, shared or in neither table as they have one owner, several owners in
order, or none. Their schemas declare every name once, as all do that are read
(`Schema.keyed_of_parse?`). -/
theorem ofServices_partitions {services : List (Service σ)}
    (hkeyed : ∀ service ∈ services, service.subschema.view.Keyed) :
    ((∃ stitching, ofServices services = .ok stitching) ↔
        ∀ type, Merges services type → ∀ service ∈ declaring services type,
          service.Readable type) ∧
      ∀ stitching, ofServices services = .ok stitching → ∀ type,
        ((stitching.mergedType? type).isSome = true ↔ Merges services type) ∧
          ∀ merged, stitching.mergedType? type = some merged →
            Partitions services type merged := by
  refine ⟨exists_ofServices_iff hkeyed, fun stitching hstitching type => ⟨?_, ?_⟩⟩
  · exact isSome_mergedType?_iff hkeyed hstitching type
  · exact fun merged hmerged => partitions_of_ofServices hkeyed hstitching hmerged

/-- A service of users that needs their id and has another field of them. -/
def keyService (name field : String) : Service Unit where
  subschema :=
    { name
      schema :=
        { types := [
            Builtin.scalar "ID", Builtin.scalar "String",
            Builtin.object "Query" [Builtin.field "user" (.named "User")],
            Builtin.object "User" [
              Builtin.field "id" (.named "ID"), Builtin.field field (.named "String")]]
          directives := []
          roots := [(.query, "Query")] } }
  merging := [("User", { selectionSet? := some "\x7b id \x7d", fieldName? := some "user" })]

/-- Services of users: two have their name, and the id is only a key. -/
def keyServices : List (Service Unit) :=
  [keyService "accounts" "name", keyService "profiles" "name", keyService "reviews" "rating"]

/-- Of the fields of these users the rating has one owner, the name has two, and the id none. -/
theorem ofServices_partitions_keyServices :
    (∀ service ∈ keyServices, service.subschema.view.Keyed) ∧
      ∃ stitching merged, ofServices keyServices = .ok stitching ∧
        stitching.mergedType? "User" = some merged ∧
        merged.uniqueFields.get? "rating" = some (keyService "reviews" "rating").subschema ∧
        merged.sharedFields.get? "name" = some [(keyService "accounts" "name").subschema,
          (keyService "profiles" "name").subschema] ∧
        merged.uniqueFields.get? "id" = none ∧ merged.sharedFields.get? "id" = none := by
  have hkeyed : ∀ service ∈ keyServices, service.subschema.view.Keyed := by decide +kernel
  have hsome : (ofServices keyServices).toOption.isSome = true := by decide +kernel
  obtain ⟨stitching, hstitching⟩ := Option.isSome_iff_exists.mp hsome
  have hok := except_eq_ok_of_toOption hstitching
  obtain ⟨hmerges, htables⟩ := (ofServices_partitions hkeyed).2 stitching hok "User"
  obtain ⟨merged, hmerged⟩ := Option.isSome_iff_exists.mp
    (hmerges.mpr ⟨by decide +kernel, by decide +kernel⟩)
  have hpartitions := htables merged hmerged
  refine ⟨hkeyed, stitching, merged, hok, hmerged, ?_, ?_, ?_⟩
  · exact (hpartitions.unique _ _).mpr (by decide +kernel)
  · exact (hpartitions.shared _ _).mpr ⟨by decide +kernel, by decide⟩
  · exact (hpartitions.unowned _).mpr (by decide +kernel)

end Stitching

end Gateway
