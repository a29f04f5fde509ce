import Gateway.Proofs.Schema.Declared
import Gateway.Proofs.Stitching.Info
import Gateway.Proofs.Stitching.Plan

/-!
# Owners declare their fields

The owners of a field in a merged type that is derived from services are services that declare the
field (`declares_of_owns`). Names that are kept for introspection are not declared, so nobody owns
the meta field (`not_owns_typename`).
-/

namespace Gateway

namespace Stitching

variable {σ : Type}

/-- A subschema declares a field of a type. -/
def Declares (type : Name) (subschema : Subschema) (field : Name) : Prop :=
  ∃ definition ∈ subschema.view.fields type, definition.name = field

/-- The owners in a table are services that declare the field. -/
def OwnersDeclare (services : List (Service σ)) (type : Name)
    (owners : Entries (List Subschema)) : Prop :=
  ∀ entry ∈ owners, ∀ owner ∈ entry.2,
    owner ∈ services.map Service.subschema ∧ Declares type owner entry.1

section Owners

variable {services : List (Service σ)} {type : Name}

/-- An owner of fields that it declares is added to those that do. -/
theorem OwnersDeclare.addOwner {building : Building σ} {subschema : Subschema} {fields : List Name}
    (hservice : subschema ∈ services.map Service.subschema)
    (hfields : ∀ field ∈ fields, Declares type subschema field)
    (h : OwnersDeclare services type building.owners) :
    OwnersDeclare services type (building.addOwner subschema fields).owners := by
  unfold Building.addOwner
  refine List.foldlRecOn (motive := OwnersDeclare services type) fields _ h ?_
  intro owners howners field hfield entry hentry owner howner
  rcases Entries.mem_push hentry howner with ⟨hname, rfl⟩ | ⟨earlier, hmem, hname, hearlier⟩
  · exact ⟨hservice, hname ▸ hfields field hfield⟩
  · exact hname ▸ howners earlier hmem owner hearlier

/-- What a subschema owns it declares. -/
theorem declares_of_mem_ownedFields {subschema : Subschema} {needed : Option (List Selection)}
    {field : Name} (h : field ∈ Building.ownedFields subschema type needed) :
    Declares type subschema field := by
  obtain ⟨definition, hmem, rfl⟩ := List.mem_map.mp h
  exact ⟨definition, List.mem_of_mem_filter hmem, rfl⟩

/-- A candidate becomes an owner of what it owns, and of nothing else. -/
theorem Building.owners_addCandidate {building building' : Building σ} {service : Service σ}
    (h : Building.addCandidate services type building service = .ok building') :
    ∃ needed, ((service.merging.get? type).bind TypeMerging.selectionSet?).mapM parseSelectionSet =
        .ok needed ∧
      building'.owners = (building.addOwner service.subschema
        (Building.ownedFields service.subschema type needed)).owners := by
  obtain ⟨needed, middle, hneeded, hpart, rfl⟩ := Building.of_addCandidate h
  have hmiddle : middle.owners = building.owners := by
    cases hpart with
    | not => rfl
    | fields _ added _ => exact (Building.of_addFields added).1
    | resolver _ added _ => exact (Building.of_addFields added).1
  refine ⟨needed, hneeded, ?_⟩
  unfold Building.withOwner
  cases needed <;> simp only [Building.addNeeded, Building.addOwner, hmiddle]

/-- The owners in the table of all candidates declare their fields. -/
theorem ownersDeclare_of_addCandidate {listed : List (Service σ)}
    (hlisted : ∀ service ∈ listed, service ∈ services) {start building : Building σ}
    (hstart : OwnersDeclare services type start.owners)
    (h : listed.foldlM (Building.addCandidate services type) start = .ok building) :
    OwnersDeclare services type building.owners := by
  refine foldlM_keeps (P := fun building => OwnersDeclare services type building.owners)
    (fun building hbuilding service hservice building' hstep => ?_) hstart h
  obtain ⟨needed, -, howners⟩ := Building.owners_addCandidate hstep
  rw [howners]
  exact hbuilding.addOwner (List.mem_map_of_mem (hlisted service hservice))
    fun _ hfield => declares_of_mem_ownedFields hfield

/-- The owners of a merged type are those in the table of its candidates. -/
theorem OwnersDeclare.finish {building : Building σ} {listed : List Subschema}
    (h : OwnersDeclare services type building.owners) {owner : Subschema} {field : Name}
    (howns : (Stitching.finish type listed building).Owns owner field) :
    owner ∈ services.map Service.subschema ∧ Declares type owner field := by
  unfold MergedType.Owns at howns
  split at howns
  · -- An only owner is the one owner of an entry of the table.
    rename_i only honly
    obtain ⟨entry, hentry, hsome⟩ := List.mem_filterMap.mp (Entries.mem_of_get? honly)
    split at hsome
    · cases hsome
      rw [howns]
      exact h _ hentry only List.mem_cons_self
    · exact absurd hsome (by simp)
  · obtain ⟨owners, hfound, hmem⟩ := howns
    exact h _ (List.mem_of_mem_filter (Entries.mem_of_get? hfound)) owner hmem

/-- Who owns a field in a merged type that is derived from services is a service that declares
it. -/
theorem declares_of_owns {stitching : Stitching σ} {merged : MergedType (TypeResolver σ)}
    (h : ofServices services = .ok stitching) (hmerged : stitching.mergedType? type = some merged)
    {owner : Subschema} {field : Name} (howns : merged.Owns owner field) :
    owner ∈ services.map Service.subschema ∧ Declares type owner field := by
  obtain ⟨listed, requirements, building, hlisted, hbuilding, rfl⟩ :=
    isFinished_of_ofServices h hmerged
  have howners : OwnersDeclare services type building.owners :=
    ownersDeclare_of_addCandidate
      (fun service hservice => (mem_candidates services _ hlisted service hservice).1)
      (fun _ hmem => absurd hmem List.not_mem_nil) hbuilding
  exact howners.finish howns

/-- Nobody owns the meta field when the gateway sees schemas that are read. -/
theorem not_owns_typename {stitching : Stitching σ} {merged : MergedType (TypeResolver σ)}
    (h : ofServices services = .ok stitching) (hmerged : stitching.mergedType? type = some merged)
    (hviews : ∀ service ∈ services, ∃ text, Schema.parse? text = some service.subschema.view)
    (owner : Subschema) : ¬ merged.Owns owner typenameField := by
  intro howns
  obtain ⟨hmem, definition, hfield, hname⟩ := declares_of_owns h hmerged howns
  obtain ⟨service, hservice, rfl⟩ := List.mem_map.mp hmem
  obtain ⟨text, hparse⟩ := hviews service hservice
  exact Schema.name_ne_typename hparse hfield hname

end Owners

end Stitching

end Gateway
