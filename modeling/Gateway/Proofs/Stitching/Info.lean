import Gateway.Proofs.Entries
import Gateway.Proofs.Except
import Gateway.Proofs.Language.Reader
import Gateway.Stitching.Info

/-!
# What stitching derives

`Stitched` says what can be relied on of a merged type that is derived from services: its subschemas
declare an object type, what they need is laid out as it was read, each table of needed selection
sets belongs to a subschema, and the targets are among the subschemas. A merged type is put together
from its candidates (`isFinished_of_ofServices`), so `stitched_of_ofServices` shows this of all
merged types by the fold over their candidates.
-/

namespace Gateway

/-! ## Selection sets of a configuration -/

/-- The selections of a selection set that is read are laid out. -/
theorem areLaidOut_of_parseSelectionSet {text : String} {selections : List Selection}
    (h : parseSelectionSet text = .ok selections) : Reader.AreLaidOut selections := by
  unfold parseSelectionSet at h
  obtain ⟨document, hdocument, h⟩ := except_bind_eq_ok_iff.mp h
  unfold parseConfigured at hdocument
  split at hdocument
  · rename_i parsed hparse
    cases hdocument
    split at h
    · rename_i operation others hoperations
      cases h
      have hmem : operation ∈ Document.operations document := by
        rw [hoperations]
        exact List.mem_cons_self
      unfold Document.operations at hmem
      obtain ⟨definition, hdefinition, hsome⟩ := List.mem_filterMap.mp hmem
      have hlaid := Document.isLaidOut_of_parse? hparse definition hdefinition
      cases definition with
      | operation found =>
        cases hsome
        exact hlaid
      | fragment => exact absurd hsome (by simp)
      | typeSystem => exact absurd hsome (by simp)
    · exact absurd h (by simp [throw, throwThe, MonadExceptOf.throw])
  · exact absurd hdocument (by simp)

namespace Stitching

variable {σ : Type}

/-! ## Candidates -/

/-- A merged type while it is built from candidates: what it has so far is laid out and among
them. -/
structure Building.Sound (type : Name) (candidates : List Subschema) (building : Building σ) :
    Prop where
  /-- The type. -/
  typeName : building.merged.typeName? = some type
  /-- What subschemas need is laid out. -/
  needed : ∀ entry ∈ building.merged.selections, Reader.AreLaidOut entry.2
  /-- What they need for fields is laid out. -/
  fieldNeeded : ∀ entry ∈ building.merged.fieldSelections, ∀ need ∈ entry.2,
    Reader.AreLaidOut need.2
  /-- What completes objects is a candidate. -/
  resolving : ∀ subschema ∈ building.resolving, subschema ∈ candidates

/-- What a field needs is laid out. -/
theorem Building.addField_laidOut {type : Name}
    {sofar sofar' : MergeRequirements × Entries (List Selection)} {field : Name × FieldMerging}
    (hsofar : ∀ need ∈ sofar.2, Reader.AreLaidOut need.2)
    (h : Building.addField type sofar field = .ok sofar') :
    ∀ need ∈ sofar'.2, Reader.AreLaidOut need.2 := by
  obtain ⟨requirements, needs⟩ := sofar
  unfold Building.addField at h
  dsimp only at h
  -- A fragment is required but not needed of an object, so it changes nothing here.
  split at h
  · obtain ⟨selections, hselections, h⟩ := except_bind_eq_ok_iff.mp h
    have hmore : ∀ need ∈ needs.insert field.1 selections, Reader.AreLaidOut need.2 := by
      intro need hneed
      rcases Entries.mem_insert hneed with rfl | hmem
      · exact areLaidOut_of_parseSelectionSet hselections
      · exact hsofar need hmem
    split at h
    · obtain ⟨fragment, -, h⟩ := except_bind_eq_ok_iff.mp h
      cases h
      exact hmore
    · cases h
      exact hmore
  · split at h
    · obtain ⟨fragment, -, h⟩ := except_bind_eq_ok_iff.mp h
      cases h
      exact hsofar
    · cases h
      exact hsofar

/-- The needs of the fields of a candidate are laid out. -/
theorem Building.Sound.addFields {type : Name} {candidates : List Subschema}
    {building building' : Building σ} {subschema : Subschema} {fields : Entries FieldMerging}
    (hsound : building.Sound type candidates)
    (h : Building.addFields type building subschema fields = .ok building') :
    building'.Sound type candidates := by
  unfold Building.addFields at h
  obtain ⟨⟨requirements, needs⟩, hneeds, h⟩ := except_bind_eq_ok_iff.mp h
  have hlaid : ∀ need ∈ needs, Reader.AreLaidOut need.2 :=
    foldlM_keeps
      (P := fun sofar : MergeRequirements × Entries (List Selection) =>
        ∀ need ∈ sofar.2, Reader.AreLaidOut need.2)
      (fun sofar hsofar field _ sofar' hstep => Building.addField_laidOut hsofar hstep)
      (fun _ hmem => absurd hmem List.not_mem_nil) hneeds
  cases h
  refine ⟨hsound.typeName, hsound.needed, ?_, hsound.resolving⟩
  intro entry hentry
  dsimp only at hentry
  split at hentry
  · exact hsound.fieldNeeded entry hentry
  · rcases Entries.mem_insert hentry with rfl | hmem
    · exact hlaid
    · exact hsound.fieldNeeded entry hmem

/-- What completes objects in a candidate is added soundly. -/
theorem Building.Sound.addResolver {type : Name} {candidates : List Subschema}
    {building : Building σ} (hsound : building.Sound type candidates) {subschema : Subschema}
    (hmem : subschema ∈ candidates) (resolver : TypeResolver σ) :
    (building.addResolver subschema resolver).Sound type candidates := by
  refine ⟨hsound.typeName, hsound.needed, hsound.fieldNeeded, ?_⟩
  intro other hother
  rcases List.mem_append.mp hother with hother | hother
  · exact hsound.resolving other hother
  · rw [List.mem_singleton.mp hother]
    exact hmem

/-- What a candidate needs of an object is added soundly when it is laid out. -/
theorem Building.Sound.addNeeded {type : Name} {candidates : List Subschema}
    {building : Building σ} (hsound : building.Sound type candidates) (subschema : Subschema)
    {selections : List Selection} (hlaid : Reader.AreLaidOut selections) :
    (building.addNeeded type subschema selections).Sound type candidates := by
  refine ⟨hsound.typeName, ?_, hsound.fieldNeeded, hsound.resolving⟩
  intro entry hentry
  rcases Entries.mem_insert hentry with rfl | hmem
  · exact hlaid
  · exact hsound.needed entry hmem

/-- What the fields of a candidate need says nothing about owners and resolvers. -/
theorem Building.of_addFields {type : Name} {building building' : Building σ}
    {subschema : Subschema} {fields : Entries FieldMerging}
    (h : Building.addFields type building subschema fields = .ok building') :
    building'.owners = building.owners ∧ building'.resolving = building.resolving ∧
      building'.merged.resolvers = building.merged.resolvers := by
  unfold Building.addFields at h
  obtain ⟨_, -, h⟩ := except_bind_eq_ok_iff.mp h
  cases h
  exact ⟨rfl, rfl, rfl⟩

/-- How a candidate takes part in a type. -/
inductive Building.TakesPart (services : List (Service σ)) (type : Name) (building : Building σ)
    (service : Service σ) : Building σ → Prop
  /-- It does not. -/
  | not (absent : service.merging.get? type = none) :
    TakesPart services type building service building
  /-- It adds what its fields need. -/
  | fields {merging : TypeMerging σ} {building' : Building σ}
    (present : service.merging.get? type = some merging)
    (added : Building.addFields type building service.subschema merging.fields = .ok building')
    (unresolved : merging.resolver? (services.filter (·.subschema.is service.subschema)) = none) :
    TakesPart services type building service building'
  /-- It can complete objects, too. -/
  | resolver {merging : TypeMerging σ} {building' : Building σ} {resolver : TypeResolver σ}
    (present : service.merging.get? type = some merging)
    (added : Building.addFields type building service.subschema merging.fields = .ok building')
    (resolved : merging.resolver? (services.filter (·.subschema.is service.subschema)) =
      some resolver) :
    TakesPart services type building service (building'.addResolver service.subschema resolver)

/-- The building with what a candidate owns and needs. -/
def Building.withOwner (building : Building σ) (type : Name) (subschema : Subschema)
    (needed : Option (List Selection)) : Building σ :=
  let owned := building.addOwner subschema (ownedFields subschema type needed)
  match needed with
  | some selections => owned.addNeeded type subschema selections
  | none => owned

/-- A candidate takes part in the type and is added with what it owns and needs. -/
theorem Building.of_addCandidate {services : List (Service σ)} {type : Name}
    {building building' : Building σ} {service : Service σ}
    (h : Building.addCandidate services type building service = .ok building') :
    ∃ needed middle,
      ((service.merging.get? type).bind TypeMerging.selectionSet?).mapM parseSelectionSet =
        .ok needed ∧
      Building.TakesPart services type building service middle ∧
      building' = middle.withOwner type service.subschema needed := by
  unfold Building.addCandidate at h
  dsimp only at h
  obtain ⟨needed, hneeded, h⟩ := except_bind_eq_ok_iff.mp h
  -- The fields and the resolver come first, if the service takes part, then what it owns and needs.
  split at h
  · rename_i merging hpresent
    obtain ⟨middle, hadded, h⟩ := except_bind_eq_ok_iff.mp h
    split at h
    · rename_i resolver hresolved
      refine ⟨needed, _, hneeded, .resolver hpresent hadded hresolved, ?_⟩
      cases needed <;> exact (Except.ok.inj h).symm
    · rename_i hunresolved
      refine ⟨needed, _, hneeded, .fields hpresent hadded (Option.eq_none_iff_forall_ne_some.mpr
        hunresolved), ?_⟩
      cases needed <;> exact (Except.ok.inj h).symm
  · rename_i habsent
    refine ⟨needed, _, hneeded, .not (Option.eq_none_iff_forall_ne_some.mpr habsent), ?_⟩
    cases needed <;> exact (Except.ok.inj h).symm

/-- A candidate is added that takes part in the type if what it needs can be read. -/
theorem Building.exists_addCandidate {services : List (Service σ)} {type : Name}
    {building middle : Building σ} {service : Service σ} {needed : Option (List Selection)}
    (hneeded : ((service.merging.get? type).bind TypeMerging.selectionSet?).mapM
      parseSelectionSet = .ok needed)
    (hpart : Building.TakesPart services type building service middle) :
    ∃ building', Building.addCandidate services type building service = .ok building' := by
  unfold Building.addCandidate
  dsimp only
  rw [hneeded]
  cases hpart with
  | not absent =>
    rw [absent]
    cases needed <;> exact ⟨_, rfl⟩
  | fields present added unresolved =>
    rw [present]
    dsimp only [bind, Except.bind]
    rw [added, unresolved]
    cases needed <;> exact ⟨_, rfl⟩
  | resolver present added resolved =>
    rw [present]
    dsimp only [bind, Except.bind]
    rw [added]
    dsimp only
    rw [resolved]
    cases needed <;> exact ⟨_, rfl⟩

/-- A candidate keeps what is built sound. -/
theorem Building.Sound.addCandidate {services : List (Service σ)} {type : Name}
    {candidates : List Subschema} {building building' : Building σ} {service : Service σ}
    (hsound : building.Sound type candidates) (hmem : service.subschema ∈ candidates)
    (h : Building.addCandidate services type building service = .ok building') :
    building'.Sound type candidates := by
  obtain ⟨needed, middle, hneeded, hpart, rfl⟩ := Building.of_addCandidate h
  have hmiddle : middle.Sound type candidates := by
    cases hpart with
    | not => exact hsound
    | fields _ added _ => exact hsound.addFields added
    | resolver _ added _ => exact (hsound.addFields added).addResolver hmem _
  have howned : (middle.addOwner service.subschema
      (ownedFields service.subschema type needed)).Sound type candidates :=
    ⟨hmiddle.typeName, hmiddle.needed, hmiddle.fieldNeeded, hmiddle.resolving⟩
  cases needed with
  | none => exact howned
  | some selections =>
    rcases option_mapM_eq_ok_iff.mp hneeded with ⟨-, hnone⟩ | ⟨_, found, -, hsome, hfound⟩
    · exact absurd hnone (by simp)
    · cases hsome
      exact howned.addNeeded _ (areLaidOut_of_parseSelectionSet hfound)

/-- The candidates for a type are services, and the type can be merged in each of them. -/
theorem mem_candidates (services : List (Service σ)) :
    ∀ entry ∈ candidates services, ∀ service ∈ entry.2,
      service ∈ services ∧ entry.1 ∈ service.subschema.mergeableTypes := by
  unfold candidates
  refine List.foldlRecOn (motive := fun sofar : Entries (List (Service σ)) =>
    ∀ entry ∈ sofar, ∀ service ∈ entry.2,
      service ∈ services ∧ entry.1 ∈ service.subschema.mergeableTypes)
    services _ (fun _ h => absurd h List.not_mem_nil) ?_
  intro sofar hsofar service hservice
  -- Within one service the fold is over its types.
  refine List.foldlRecOn (motive := fun sofar : Entries (List (Service σ)) =>
    ∀ entry ∈ sofar, ∀ service ∈ entry.2,
      service ∈ services ∧ entry.1 ∈ service.subschema.mergeableTypes)
    service.subschema.mergeableTypes _ hsofar ?_
  intro sofar hsofar type htype entry hentry listed hlisted
  rcases Entries.mem_push hentry hlisted with ⟨hname, rfl⟩ | ⟨earlier, hmem, hname, hearlier⟩
  · exact ⟨hservice, hname ▸ htype⟩
  · exact hname ▸ hsofar earlier hmem listed hearlier

/-- Only object types can be merged. -/
theorem isObject_of_mem_mergeableTypes {subschema : Subschema} {type : Name}
    (h : type ∈ subschema.mergeableTypes) : subschema.view.isObject type = true := by
  unfold Subschema.mergeableTypes at h
  have hcan := (List.mem_filter.mp h).2
  rw [Bool.and_eq_true, Bool.and_eq_true] at hcan
  exact hcan.1.1

/-! ## Merged types -/

/-- A merged type as it is derived from services. -/
structure Stitched (merged : MergedType (TypeResolver σ)) (type : Name) : Prop where
  /-- It is named. -/
  typeName : merged.typeName? = some type
  /-- Its subschemas declare an object type of its name. -/
  objects : ∀ subschema ∈ merged.subschemas, subschema.view.isObject type = true
  /-- What its subschemas need is laid out. -/
  needed : ∀ needed ∈ neededSelections merged, Reader.AreLaidOut needed
  /-- Its tables are those of its subschemas. -/
  tables : ∀ name table, merged.contains.get? name = some table →
    ∃ subschema ∈ merged.subschemas, subschema.name = name ∧
      table = containment merged type subschema
  /-- Objects of its subschemas are completed by its subschemas. -/
  targets : ∀ name targets, merged.targets.get? name = some targets →
    (∃ subschema ∈ merged.subschemas, subschema.name = name) ∧
      ∀ target ∈ targets, target ∈ merged.subschemas

/-- The merged type of candidates is stitched when it was built soundly. -/
theorem Building.Sound.finish {type : Name} {candidates : List Subschema} {building : Building σ}
    (hsound : building.Sound type candidates)
    (hobjects : ∀ subschema ∈ candidates, subschema.view.isObject type = true) :
    Stitched (Stitching.finish type candidates building) type := by
  refine ⟨hsound.typeName, hobjects, ?_, ?_, ?_⟩
  · intro needed hneeded
    rcases List.mem_append.mp hneeded with hmem | hmem
    · obtain ⟨entry, hentry, rfl⟩ := List.mem_map.mp hmem
      exact hsound.needed entry hentry
    · obtain ⟨needs, hneeds, hmem⟩ := List.mem_flatMap.mp hmem
      obtain ⟨entry, hentry, rfl⟩ := List.mem_map.mp hneeds
      obtain ⟨need, hneed, rfl⟩ := List.mem_map.mp hmem
      exact hsound.fieldNeeded entry hentry need hneed
  · intro name table htable
    obtain ⟨subschema, hsubschema, heq⟩ := List.mem_map.mp (Entries.mem_of_get?_ofPairs htable)
    obtain ⟨rfl, rfl⟩ := Prod.mk.inj heq
    exact ⟨subschema, hsubschema, rfl, rfl⟩
  · intro name targets htargets
    obtain ⟨source, hsource, hsome⟩ :=
      List.mem_filterMap.mp (Entries.mem_of_get?_ofPairs htargets)
    split at hsome
    · exact absurd hsome (by simp)
    · obtain ⟨rfl, rfl⟩ := Prod.mk.inj (Option.some.inj hsome)
      refine ⟨⟨source, hsource, rfl⟩, fun target htarget => ?_⟩
      exact hsound.resolving target (List.mem_filter.mp htarget).1

/-- The candidates for a type are put together to a merged type. -/
def IsFinished (services : List (Service σ)) (merged : MergedType (TypeResolver σ)) (type : Name) :
    Prop :=
  ∃ listed requirements building, (type, listed) ∈ candidates services ∧
    listed.foldlM (Building.addCandidate services type)
      { merged := { typeName? := some type }, requirements } = .ok building ∧
    merged = finish type (listed.map Service.subschema) building

/-- Adding a type to merged types adds one that is put together from its candidates. -/
theorem isFinished_of_addType {services : List (Service σ)} {stitching stitching' : Stitching σ}
    {entry : Name × List (Service σ)} (hentry : entry ∈ candidates services)
    (hfinished : ∀ entry ∈ stitching.mergedTypes, IsFinished services entry.2 entry.1)
    (h : addType services stitching entry = .ok stitching') :
    ∀ entry ∈ stitching'.mergedTypes, IsFinished services entry.2 entry.1 := by
  obtain ⟨type, listed⟩ := entry
  unfold addType at h
  dsimp only at h
  split at h
  · obtain ⟨building, hbuilding, h⟩ := except_bind_eq_ok_iff.mp h
    cases h
    intro entry hmem
    rcases Entries.mem_insert hmem with rfl | hmem
    · exact ⟨listed, _, building, hentry, hbuilding, rfl⟩
    · exact hfinished entry hmem
  · cases h
    exact hfinished

/-- A merged type that is derived from services is put together from its candidates. -/
theorem isFinished_of_ofServices {services : List (Service σ)} {stitching : Stitching σ}
    {type : Name} {merged : MergedType (TypeResolver σ)} (h : ofServices services = .ok stitching)
    (hmerged : stitching.mergedType? type = some merged) : IsFinished services merged type := by
  unfold ofServices at h
  have hall : ∀ entry ∈ stitching.mergedTypes, IsFinished services entry.2 entry.1 :=
    foldlM_keeps
      (P := fun sofar : Stitching σ =>
        ∀ entry ∈ sofar.mergedTypes, IsFinished services entry.2 entry.1)
      (fun _ hfinished _ hentry _ hstep => isFinished_of_addType hentry hfinished hstep)
      (fun _ hmem => absurd hmem List.not_mem_nil) h
  exact hall _ (Entries.mem_of_get? hmerged)

/-- All merged types that are derived from services are stitched. -/
theorem stitched_of_ofServices {services : List (Service σ)} {stitching : Stitching σ}
    {type : Name} {merged : MergedType (TypeResolver σ)} (h : ofServices services = .ok stitching)
    (hmerged : stitching.mergedType? type = some merged) : Stitched merged type := by
  obtain ⟨listed, requirements, building, hlisted, hbuilding, rfl⟩ :=
    isFinished_of_ofServices h hmerged
  have hsound : building.Sound type (listed.map Service.subschema) :=
    foldlM_keeps
      (fun _ hsofar service hservice _ hstep =>
        Building.Sound.addCandidate hsofar (List.mem_map_of_mem hservice) hstep)
      ⟨rfl, fun _ hmem => absurd hmem List.not_mem_nil,
        fun _ hmem => absurd hmem List.not_mem_nil, fun _ hmem => absurd hmem List.not_mem_nil⟩
      hbuilding
  refine hsound.finish fun subschema hsubschema => ?_
  obtain ⟨service, hservice, rfl⟩ := List.mem_map.mp hsubschema
  exact isObject_of_mem_mergeableTypes (mem_candidates services _ hlisted service hservice).2

end Stitching

end Gateway
