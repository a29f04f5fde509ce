import Gateway.Configuration.Apply
import Gateway.Proofs.Stitching.Ownership

/-!
# Accepted configurations

A configuration is accepted when its names are names and its selection sets can be read
(`TypeConfiguration.Accepted`). The fragments next to fields are not looked at until the services
are stitched, and then only those for types that are merged, so an accepted configuration can be
stitched exactly when these can be read (`Stitching.exists_ofServices_configured_iff`).
-/

namespace Gateway

/-! ## What is accepted -/

/-- A part of a configuration for a type is accepted. -/
structure TypeConfiguration.Accepted (type : TypeConfiguration) : Prop where
  /-- What the subschema needs of an object can be read. -/
  selectionSet : ∀ text, type.selectionSet? = some text →
    ∃ selections, parseSelectionSet text = .ok selections
  /-- The root field has a name. -/
  fieldName : ∀ text, type.fieldName? = some text → Name.isValid text = true
  /-- Its arguments have names. -/
  arguments : ∀ key ∈ type.keyArguments.keys, Name.isValid key = true
  /-- The fields have names, and what they need can be read. -/
  fields : ∀ field ∈ type.fields, Name.isValid field.1 = true ∧
    ∀ text, field.2.selectionSet? = some text →
      ∃ selections, parseSelectionSet text = .ok selections

/-- The fragments next to the fields of a type can be read. -/
def TypeConfiguration.FragmentsReadable (type : TypeConfiguration) : Prop :=
  ∀ field ∈ type.fields, ∀ text, field.2.fragment? = some text →
    ∃ fragment, parseFragment text = .ok fragment

namespace Configuration

/-- What is configured for a subschema, by type. -/
def typesOf (configuration : Configuration) (subschema : Subschema) : Entries TypeConfiguration :=
  ((configuration.subschemas.get? subschema.name).map SubschemaConfiguration.merge).getD []

/-- What is configured for a type in a subschema; of two parts for one type the later counts. -/
def typeOf? (configuration : Configuration) (subschema : Subschema) (type : Name) :
    Option TypeConfiguration :=
  (Entries.ofPairs (configuration.typesOf subschema)).get? type

/-- A configuration is accepted for a subschema. -/
def Accepts (configuration : Configuration) (subschema : Subschema) : Prop :=
  ∀ entry ∈ configuration.typesOf subschema, Name.isValid entry.1 = true ∧ entry.2.Accepted

/-- A type is merged by a configuration: several services declare it, and it is configured for one
of them. -/
structure Merges {σ : Type} (configuration : Configuration) (services : List (Service σ))
    (type : Name) : Prop where
  /-- Several services declare it. -/
  several : 2 ≤ (Stitching.declaring services type).length
  /-- It is configured for one of them. -/
  configured : ∃ service ∈ Stitching.declaring services type,
    (configuration.typeOf? service.subschema type).isSome = true

end Configuration

/-! ## What an accepted configuration leads to -/

section Configured

variable {σ : Type}

/-- What is configured for a field, as it is merged. -/
def FieldConfiguration.toMerging (field : FieldConfiguration) : FieldMerging :=
  { selectionSet? := field.selectionSet?, fragment? := field.fragment? }

/-- What is configured for a type, as it is merged. -/
def TypeConfiguration.toMerging (type : TypeConfiguration) : TypeMerging σ where
  selectionSet? := type.selectionSet?
  fieldName? := type.fieldName?
  arguments? :=
    if type.keyArguments.isEmpty then none else some (KeyArguments.ofKeys type.keyArguments)
  fields := type.fields.map fun field => (field.1, field.2.toMerging)

/-- The service with what is configured for a type. -/
def Service.withType (service : Service σ) (entry : String × TypeConfiguration) : Service σ :=
  let merging : TypeMerging σ := entry.2.toMerging
  let fetcher? := (service.merging.get? entry.1).bind TypeMerging.fetcher?
  { service with merging := service.merging.insert entry.1 { merging with fetcher? } }

/-- The service with all that is configured for it. -/
def Service.configured (configuration : Configuration) (service : Service σ) : Service σ :=
  (configuration.typesOf service.subschema).foldl withType service

/-- A name is accepted when it is one. -/
theorem configuredName_eq_ok_iff {text : String} {name : Name} :
    configuredName text = .ok name ↔ Name.isValid text = true ∧ name = text := by
  unfold configuredName
  by_cases hvalid : Name.isValid text = true
  · rw [if_pos hvalid, Except.ok.injEq, eq_comm]
    exact (and_iff_right hvalid).symm
  · rw [if_neg hvalid]
    simp [hvalid]

/-- So is a name that can be left out. -/
theorem option_configuredName_eq_ok_iff {text? : Option String} {name? : Option Name} :
    text?.mapM configuredName = .ok name? ↔
      (∀ text, text? = some text → Name.isValid text = true) ∧ name? = text? := by
  simp only [option_mapM_eq_ok_iff, configuredName_eq_ok_iff]
  cases text? with
  | none => simp
  | some text => simp [and_comm]

/-- Names are accepted together when each of them is one. -/
theorem configuredNames_eq_ok_iff {texts : List String} {names : List Name} :
    texts.mapM configuredName = .ok names ↔
      (∀ text ∈ texts, Name.isValid text = true) ∧ names = texts := by
  have hstep : ∀ text name, configuredName text = .ok name ↔
      Name.isValid text = true ∧ name = id text := fun _ _ => configuredName_eq_ok_iff
  rw [mapM_eq_ok_iff_map hstep, List.map_id]

/-- What is configured for a field is accepted when what it needs can be read. -/
theorem FieldConfiguration.merging_eq_ok_iff {field : FieldConfiguration}
    {merging : FieldMerging} :
    field.merging = .ok merging ↔
      (∀ text, field.selectionSet? = some text →
        ∃ selections, parseSelectionSet text = .ok selections) ∧ merging = field.toMerging := by
  have hsteps : field.merging =
      field.selectionSet?.mapM parseSelectionSet >>= fun _ => .ok field.toMerging := by
    obtain ⟨_ | text, fragment?⟩ := field
    · rfl
    · unfold FieldConfiguration.merging
      cases hread : parseSelectionSet text <;> simp only [Option.mapM_some, hread] <;> rfl
  rw [hsteps, except_check_eq_ok_iff, exists_option_mapM_iff, Except.ok.injEq,
    eq_comm (b := merging)]

/-- What is configured for a type is merged as it is when it is accepted. -/
theorem TypeConfiguration.merging_eq_ok_iff {type : TypeConfiguration} {merging : TypeMerging σ} :
    type.merging = .ok merging ↔ type.Accepted ∧ merging = type.toMerging := by
  have hfield : ∀ (field : String × FieldConfiguration) (named : Name × FieldMerging),
      (do let merging ← field.2.merging; return (← configuredName field.1, merging)) =
        Except.ok named ↔
      (Name.isValid field.1 = true ∧ ∀ text, field.2.selectionSet? = some text →
        ∃ selections, parseSelectionSet text = .ok selections) ∧
        named = (field.1, field.2.toMerging) := by
    intro field named
    simp only [except_bind_eq_ok_iff, FieldConfiguration.merging_eq_ok_iff,
      configuredName_eq_ok_iff, pure, Except.pure, Except.ok.injEq]
    constructor
    · rintro ⟨_, ⟨hread, rfl⟩, _, ⟨hvalid, rfl⟩, rfl⟩
      exact ⟨⟨hvalid, hread⟩, rfl⟩
    · rintro ⟨⟨hvalid, hread⟩, rfl⟩
      exact ⟨_, ⟨hread, rfl⟩, _, ⟨hvalid, rfl⟩, rfl⟩
  have hsteps : type.merging = (do
      let _ ← type.selectionSet?.mapM parseSelectionSet
      let fieldName? ← type.fieldName?.mapM configuredName
      let _ ← type.keyArguments.keys.mapM configuredName
      let fields ← type.fields.mapM fun field => do
        let merging ← field.2.merging
        return (← configuredName field.1, merging)
      return { (type.toMerging : TypeMerging σ) with fieldName?, fields }) := by
    obtain ⟨_ | text, fieldName?, keyArguments, fields⟩ := type
    · rfl
    · unfold TypeConfiguration.merging
      cases hread : parseSelectionSet text <;> simp only [Option.mapM_some, hread] <;> rfl
  rw [hsteps, except_check_eq_ok_iff, exists_option_mapM_iff]
  simp only [except_bind_eq_ok_iff, option_configuredName_eq_ok_iff, configuredNames_eq_ok_iff,
    mapM_eq_ok_iff_map hfield]
  constructor
  · rintro ⟨hread, _, ⟨hname, rfl⟩, _, ⟨harguments, rfl⟩, _, ⟨hfields, rfl⟩, h⟩
    exact ⟨⟨hread, hname, harguments, hfields⟩, (Except.ok.inj h).symm⟩
  · rintro ⟨⟨hread, hname, harguments, hfields⟩, rfl⟩
    exact ⟨hread, _, ⟨hname, rfl⟩, _, ⟨harguments, rfl⟩, _, ⟨hfields, rfl⟩, rfl⟩

/-- A type is configured when it has a name and is accepted. -/
theorem Service.configureType_eq_ok_iff {service service' : Service σ}
    {entry : String × TypeConfiguration} :
    service.configureType entry = .ok service' ↔
      (Name.isValid entry.1 = true ∧ entry.2.Accepted) ∧ service' = service.withType entry := by
  unfold configureType
  simp only [except_bind_eq_ok_iff, configuredName_eq_ok_iff,
    TypeConfiguration.merging_eq_ok_iff]
  constructor
  · rintro ⟨_, ⟨hvalid, rfl⟩, _, ⟨haccepted, rfl⟩, h⟩
    exact ⟨⟨hvalid, haccepted⟩, (Except.ok.inj h).symm⟩
  · rintro ⟨⟨hvalid, haccepted⟩, rfl⟩
    exact ⟨_, ⟨hvalid, rfl⟩, _, ⟨haccepted, rfl⟩, rfl⟩

/-- A service is configured when the configuration is accepted for its subschema. -/
theorem Service.configure_eq_ok_iff {configuration : Configuration} {service service' : Service σ} :
    service.configure configuration = .ok service' ↔
      configuration.Accepts service.subschema ∧ service' = service.configured configuration := by
  have hfold : service.configure configuration =
      (configuration.typesOf service.subschema).foldlM configureType service := by
    unfold configure Configuration.typesOf
    cases configuration.subschemas.get? service.subschema.name <;> rfl
  rw [hfold]
  unfold Configuration.Accepts configured
  refine foldlM_eq_ok_iff_foldl fun service entry service' => ?_
  exact configureType_eq_ok_iff

/-- A service that is configured is that of the same subschema. -/
theorem Service.subschema_configured (configuration : Configuration) (service : Service σ) :
    (service.configured configuration).subschema = service.subschema := by
  unfold configured
  induction configuration.typesOf service.subschema using List.reverseRecOn with
  | nil => rfl
  | append_singleton entries last ih =>
    rw [List.foldl_append]
    exact ih

/-- A service that is configured takes part in a type as it is configured for it, or else as it did
before; what fetches objects in its own way is kept. -/
theorem Service.get?_configured (configuration : Configuration) (service : Service σ)
    (type : Name) :
    (service.configured configuration).merging.get? type =
      match configuration.typeOf? service.subschema type with
      | some configured => some
        { (configured.toMerging : TypeMerging σ) with
          fetcher? := (service.merging.get? type).bind TypeMerging.fetcher? }
      | none => service.merging.get? type := by
  unfold configured Configuration.typeOf?
  induction configuration.typesOf service.subschema using List.reverseRecOn with
  | nil => rfl
  | append_singleton entries last ih =>
    have hpairs : Entries.ofPairs (entries ++ [last]) =
        (Entries.ofPairs entries).insert last.1 last.2 := by
      unfold Entries.ofPairs Entries.insertAll
      rw [List.foldl_append]
      rfl
    rw [List.foldl_append, List.foldl_cons, List.foldl_nil, hpairs, withType, Entries.get?_insert,
      Entries.get?_insert]
    by_cases hlast : type = last.1
    · subst hlast
      rw [if_pos rfl, if_pos rfl, ih]
      cases (Entries.ofPairs entries).get? last.1 <;> rfl
    · rw [if_neg hlast, if_neg hlast, ih]

/-- What is accepted for a type can be read when its fragments can. -/
theorem TypeConfiguration.Accepted.readable_iff {type : TypeConfiguration} (h : type.Accepted)
    (fetcher? : Option (FieldFetcher σ)) :
    TypeMerging.Readable { (type.toMerging : TypeMerging σ) with fetcher? } ↔
      type.FragmentsReadable := by
  constructor
  · intro hreadable field hfield text hfragment
    exact (hreadable.fields _ (List.mem_map_of_mem hfield)).fragment text hfragment
  · intro hfragments
    refine ⟨h.selectionSet, fun field hfield => ?_⟩
    obtain ⟨configured, hconfigured, rfl⟩ := List.mem_map.mp hfield
    exact ⟨(h.fields configured hconfigured).2, hfragments configured hconfigured⟩

namespace Stitching

variable {configuration : Configuration} {services : List (Service σ)}

/-- Services declare the same types when they are configured. -/
theorem declaring_configured (configuration : Configuration) (services : List (Service σ))
    (type : Name) :
    declaring (services.map (Service.configured configuration)) type =
      (declaring services type).map (Service.configured configuration) := by
  unfold declaring
  rw [List.filter_map]
  refine congrArg _ (List.filter_congr fun service _ => ?_)
  simp only [Function.comp_apply, Service.subschema_configured]

/-- Services that take part in no type before they are configured merge the types of the
configuration. -/
theorem merges_configured_iff (hmerging : ∀ service ∈ services, service.merging = [])
    {type : Name} :
    Merges (services.map (Service.configured configuration)) type ↔
      configuration.Merges services type := by
  have htakesPart : ∀ service ∈ declaring services type,
      ((service.configured configuration).merging.get? type).isSome =
        (configuration.typeOf? service.subschema type).isSome := by
    intro service hservice
    rw [Service.get?_configured, hmerging service (List.mem_filter.mp hservice).1]
    cases configuration.typeOf? service.subschema type <;> rfl
  constructor
  · rintro ⟨hseveral, _, hmem, hsome⟩
    rw [declaring_configured] at hseveral hmem
    obtain ⟨service, hservice, rfl⟩ := List.mem_map.mp hmem
    rw [htakesPart service hservice] at hsome
    exact ⟨by simpa using hseveral, service, hservice, hsome⟩
  · rintro ⟨hseveral, service, hservice, hsome⟩
    rw [← htakesPart service hservice] at hsome
    refine ⟨?_, _, ?_, hsome⟩
    · rw [declaring_configured, List.length_map]
      exact hseveral
    · rw [declaring_configured]
      exact List.mem_map_of_mem hservice

/-- A configuration is accepted for services that take part in no type yet when its names are names
and its selection sets can be read. Then the services can be stitched exactly when, for the types
that the configuration merges, the fragments that are configured for the services that declare
them can be read as well. -/
theorem exists_ofServices_configured_iff (configuration : Configuration)
    (hkeyed : ∀ service ∈ services, service.subschema.view.Keyed)
    (hmerging : ∀ service ∈ services, service.merging = []) :
    ((∃ configured, services.mapM (Service.configure · configuration) = .ok configured) ↔
        ∀ service ∈ services, configuration.Accepts service.subschema) ∧
      ∀ configured, services.mapM (Service.configure · configuration) = .ok configured →
        ((∃ stitching, ofServices configured = .ok stitching) ↔
          ∀ type, configuration.Merges services type → ∀ service ∈ declaring services type,
            ∀ merged, configuration.typeOf? service.subschema type = some merged →
              merged.FragmentsReadable) := by
  have hconfigure : ∀ (service service' : Service σ),
      service.configure configuration = .ok service' ↔
        configuration.Accepts service.subschema ∧ service' = service.configured configuration :=
    fun _ _ => Service.configure_eq_ok_iff
  simp only [mapM_eq_ok_iff_map hconfigure]
  refine ⟨by simp, ?_⟩
  rintro configured ⟨haccepts, rfl⟩
  have hkeyed' : ∀ service ∈ services.map (Service.configured configuration),
      service.subschema.view.Keyed := by
    intro _ hmem
    obtain ⟨service, hservice, rfl⟩ := List.mem_map.mp hmem
    rw [Service.subschema_configured]
    exact hkeyed service hservice
  rw [exists_ofServices_iff hkeyed']
  simp only [merges_configured_iff hmerging, declaring_configured, List.forall_mem_map]
  refine forall₂_congr fun type _ => forall₂_congr fun service hservice => ?_
  have hmem := (List.mem_filter.mp hservice).1
  unfold Service.Readable
  rw [Service.get?_configured, hmerging service hmem]
  cases htype : configuration.typeOf? service.subschema type with
  | none => simp [Entries.get?]
  | some merged =>
    have haccepted : merged.Accepted :=
      (haccepts service hmem _ (Entries.mem_of_get?_ofPairs htype)).2
    simp only [Option.some.injEq, forall_eq']
    exact haccepted.readable_iff _

/-- A service of users that declares a field of them. -/
def shippingService (name field : String) : Service Unit where
  subschema :=
    { name
      schema :=
        { types := [
            Builtin.scalar "Int",
            Builtin.object "Query" [Builtin.field "user" (.named "User")],
            Builtin.object "User" [Builtin.field field (.named "Int")]]
          directives := []
          roots := [(.query, "Query")] } }

/-- Services of users, none of which takes part in a type. -/
def shippingServices : List (Service Unit) :=
  [shippingService "accounts" "age", shippingService "products" "shipping"]

/-- A configuration in which the fragment next to a field is none. -/
def brokenConfiguration : Configuration :=
  let shipping : FieldConfiguration := { fragment? := some "not a fragment" }
  { subschemas := [
      ("products", { merge := [
        ("User", { fieldName? := some "user", fields := [("shipping", shipping)] })] })] }

/-- This configuration is accepted, and the services cannot be stitched. -/
theorem not_exists_ofServices_brokenConfiguration :
    (∀ service ∈ shippingServices, service.subschema.view.Keyed) ∧
      (∀ service ∈ shippingServices, service.merging = []) ∧
      ∃ configured,
        shippingServices.mapM (Service.configure · brokenConfiguration) = .ok configured ∧
          ¬ ∃ stitching, ofServices configured = .ok stitching := by
  have hkeyed : ∀ service ∈ shippingServices, service.subschema.view.Keyed := by decide +kernel
  have hmerging : ∀ service ∈ shippingServices, service.merging = [] := by
    simp [shippingServices, shippingService]
  have hsome : (shippingServices.mapM (Service.configure · brokenConfiguration)).toOption.isSome =
      true := by decide +kernel
  obtain ⟨configured, hconfigured⟩ := Option.isSome_iff_exists.mp hsome
  have hok := except_eq_ok_of_toOption hconfigured
  refine ⟨hkeyed, hmerging, configured, hok, ?_⟩
  rw [(exists_ofServices_configured_iff brokenConfiguration hkeyed hmerging).2 configured hok]
  intro hreadable
  have hmerges : brokenConfiguration.Merges shippingServices "User" :=
    ⟨by decide +kernel, by decide +kernel⟩
  have hdeclares : shippingService "products" "shipping" ∈ declaring shippingServices "User" :=
    List.mem_filter.mpr ⟨List.mem_cons_of_mem _ List.mem_cons_self, by decide +kernel⟩
  obtain ⟨fragment, hfragment⟩ := hreadable "User" hmerges _ hdeclares _ rfl
    ("shipping", { fragment? := some "not a fragment" }) List.mem_cons_self _ rfl
  have hnone : (parseFragment "not a fragment").toOption = none := by decide +kernel
  rw [hfragment] at hnone
  cases hnone

end Stitching

end Configured

end Gateway
