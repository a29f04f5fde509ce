import Gateway.Delegation.Delegate
import Gateway.Proofs.Fetched.Conformant
import Gateway.Proofs.Fetched.Grouped

/-!
# Errors that are dropped

Reconstruction without merging reports an error, or drops it. Errors about a list that is declared
and there, and about items that a list does not have, are dropped with a warning. Others are dropped
without one: what is reported of data that are read as a leaf, of a list of unknown type, and what
is displaced at a position without data (`Dropped`).

`DelegationContext.fieldValue_reports` says that every error of a response meets one of these fates,
and that nothing is reported but what is not dropped, and leaves that are no values of their types.
-/

namespace Gateway

/-- The warning is about errors that are dropped. -/
def Warning.isDrop : Warning → Bool
  | .unmatchedKey .. => false
  | .listErrors _ => true
  | .errorsOutsideList .. => true

/-- Errors at a path are dropped when data are read for which they are reported among others, with a
warning or without. -/
inductive Dropped (schema : Schema) : Bool → Child → Json → List GraphError → Path → Prop
  /-- Data that are read as a leaf are there, whatever was reported of them. -/
  | leaf {child : Child} {json : Json} {type? : Option Name} {errors : List GraphError}
    {path : Path} (hreading : child.reading schema json = .leaf type?) :
    Dropped schema false child json errors path
  /-- So is a list; this is noticed when it is declared. -/
  | list {child : Child} {json : Json} {declared : Bool} {items : List (Child × Json)}
    {errors : List GraphError} (hreading : child.reading schema json = .list declared items) :
    Dropped schema declared child json errors []
  /-- It is noticed that a list does not have an item. -/
  | outside {child : Child} {json : Json} {declared : Bool} {items : List (Child × Json)}
    {errors : List GraphError} {segment : Segment} {rest : Path}
    (hreading : child.reading schema json = .list declared items)
    (hnone : (child.reading schema json).part? segment = none) :
    Dropped schema true child json errors (segment :: rest)
  /-- Where there are no data, errors may be displaced by others. -/
  | null {child : Child} {json : Json} {errors : List GraphError} {path : Path}
    (hreading : child.reading schema json = .absent) (h : Displaced errors path) :
    Dropped schema false child json errors path
  /-- Errors about a part are dropped where it is read. -/
  | part {warned : Bool} {child : Child} {json : Json} {errors : List GraphError}
    {segment : Segment} {rest : Path} {known : Child} {part : Json}
    (hpart : (child.reading schema json).part? segment = some (known, part))
    (h : Dropped schema warned known part (errorsOfChild segment errors) rest) :
    Dropped schema warned child json errors (segment :: rest)

section Dropped

variable {schema : Schema} {warned : Bool} {child : Child} {json : Json}
  {errors : List GraphError} {segment : Segment} {rest : Path}

/-- Errors about a part are dropped exactly where it is read. -/
theorem dropped_cons_iff {known : Child} {part : Json}
    (hpart : (child.reading schema json).part? segment = some (known, part)) :
    Dropped schema warned child json errors (segment :: rest) ↔
      Dropped schema warned known part (errorsOfChild segment errors) rest := by
  refine ⟨fun h => ?_, .part hpart⟩
  cases h with
  | leaf hreading => rw [hreading] at hpart; cases segment <;> cases hpart
  | outside _ hnone => exact absurd (hnone.symm.trans hpart) (by simp)
  | null hreading _ => rw [hreading] at hpart; cases segment <;> cases hpart
  | part hpart' h =>
    cases hpart.symm.trans hpart'
    exact h

/-- Errors of an object are not dropped when no part accounts for them. -/
theorem not_dropped_of_object {declared : Bool} {members : List (String × Child × Json)}
    {path : Path} (hreading : child.reading schema json = .object declared members)
    (hnone : ∀ segment, path.head? = some segment →
      (child.reading schema json).part? segment = none) :
    ¬ Dropped schema warned child json errors path := by
  intro h
  cases h with
  | leaf h => exact absurd (hreading.symm.trans h) (by simp)
  | list h => exact absurd (hreading.symm.trans h) (by simp)
  | outside h _ => exact absurd (hreading.symm.trans h) (by simp)
  | null h _ => exact absurd (hreading.symm.trans h) (by simp)
  | part hpart _ => exact absurd ((hnone _ rfl).symm.trans hpart) (by simp)

/-- Where there are no data, errors are dropped that are displaced, and it is not noticed. -/
theorem dropped_iff_of_absent {path : Path} (hreading : child.reading schema json = .absent) :
    Dropped schema warned child json errors path ↔ warned = false ∧ Displaced errors path := by
  constructor
  · intro h
    cases h with
    | leaf h => exact absurd (hreading.symm.trans h) (by simp)
    | list h => exact absurd (hreading.symm.trans h) (by simp)
    | outside h _ => exact absurd (hreading.symm.trans h) (by simp)
    | null _ h => exact ⟨rfl, h⟩
    | @part _ _ _ _ segment _ _ _ hpart _ =>
      rw [hreading] at hpart
      cases segment <;> cases hpart
  · rintro ⟨rfl, h⟩
    exact .null hreading h

end Dropped

/-- An error says of a leaf that is read that it is no value of its type. -/
def SaysInvalid (schema : Schema) (child : Child) (json : Json) (said : GraphError) : Prop :=
  ∃ path known leaf type, child.readAt schema path json = some (known, leaf) ∧
    known.reading schema leaf = .leaf (some type) ∧ leafValue? schema type leaf = none ∧
    said = (leafError type leaf).content

/-- What a value reports of the errors that were reported with its data. -/
structure Reports (schema : Schema) (child : Child) (json : Json) (errors : List GraphError)
    (value : FetchedValue) (warnings : List Warning) : Prop where
  /-- An error is reported, or it is dropped; if this is noticed, there is a warning. -/
  told : ∀ error ∈ errors, error.content ∈ value.contents ∨
    Dropped schema false child json errors (error.path.getD []) ∨
    Dropped schema true child json errors (error.path.getD []) ∧
      ∃ warning ∈ warnings, warning.isDrop = true
  /-- Nothing is reported but what is not dropped, and invalid leaves. -/
  only : json.Keyed → ∀ said ∈ value.contents, SaysInvalid schema child json said ∨
    ∃ error ∈ errors, error.content = said ∧
      ∀ warned, ¬ Dropped schema warned child json errors (error.path.getD [])

section Reports

variable {schema : Schema} {child : Child} {json : Json} {errors : List GraphError}
  {segment : Segment} {known : Child} {part : Json}

/-- An error about a part is told when it is told of the part. -/
theorem Reports.told_of_part {value inner : FetchedValue} {warnings more : List Warning}
    (hpart : (child.reading schema json).part? segment = some (known, part))
    (h : Reports schema known part (errorsOfChild segment errors) inner more)
    (hmore : more ⊆ warnings) (hcontents : inner.contents ⊆ value.contents) {error : GraphError}
    (hmem : error ∈ errors) (hfirst : error.firstSegment? = some segment) :
    error.content ∈ value.contents ∨
      Dropped schema false child json errors (error.path.getD []) ∨
      Dropped schema true child json errors (error.path.getD []) ∧
        ∃ warning ∈ warnings, warning.isDrop = true := by
  rw [error.getD_path_of_firstSegment hfirst, dropped_cons_iff hpart, dropped_cons_iff hpart]
  rcases h.told _ (mem_errorsOfChild_iff.mpr ⟨error, hmem, hfirst, rfl⟩) with hsaid | hsilent |
    ⟨hwarned, warning, hwarning, hdrop⟩
  · exact .inl (hcontents hsaid)
  · exact .inr (.inl hsilent)
  · exact .inr (.inr ⟨hwarned, warning, hmore hwarning, hdrop⟩)

/-- What a part reports is not dropped, or says that a leaf is invalid. -/
theorem Reports.only_of_part {inner : FetchedValue} {warnings : List Warning}
    (hpart : (child.reading schema json).part? segment = some (known, part))
    (h : Reports schema known part (errorsOfChild segment errors) inner warnings)
    (hkeyed : part.Keyed) {said : GraphError} (hsaid : said ∈ inner.contents) :
    SaysInvalid schema child json said ∨ ∃ error ∈ errors, error.content = said ∧
      ∀ warned, ¬ Dropped schema warned child json errors (error.path.getD []) := by
  rcases h.only hkeyed said hsaid with ⟨path, found, leaf, type, hread, hleaf⟩ |
    ⟨_, hmem, hsaid, hkept⟩
  · refine .inl ⟨segment :: path, found, leaf, type, ?_, hleaf⟩
    rw [Child.readAt, hpart]
    exact hread
  · obtain ⟨error, herror, hfirst, rfl⟩ := mem_errorsOfChild_iff.mp hmem
    refine .inr ⟨error, herror, hsaid, fun warned => ?_⟩
    rw [error.getD_path_of_firstSegment hfirst, dropped_cons_iff hpart]
    exact hkept warned

end Reports

namespace Reconstruction

variable {σ : Type} {reconstruction : Reconstruction σ} {info? : Option FieldInfo}

/-- Whatever data are read, their errors are reported. -/
def reporting (reconstruction : Reconstruction σ) : ReadPost :=
  fun child json errors value warnings =>
    Reports reconstruction.schema child json errors value warnings

section Parts

variable {child : Child} {json : Json} {declared : Bool} {errors : List GraphError}
  {warnings : List Warning}

/-- A list reports what its items do. -/
theorem reports_list {items : List (Child × Json)} {values : List FetchedValue}
    (hreading : child.reading reconstruction.schema json = .list declared items)
    (hown : declared = true → ownErrors errors ≠ [] →
      .listErrors reconstruction.owner ∈ warnings)
    (houtside : errors.any (isOutside items.length) = true →
      .errorsOutsideList reconstruction.owner items.length ∈ warnings)
    (hitems : List.Forall₂ (HoldsOfPart reconstruction.reporting errors warnings)
      (indexed 0 items) (indexed 0 values)) :
    Reports reconstruction.schema child json errors (.list values) warnings := by
  constructor
  · intro error hmem
    cases hfirst : error.firstSegment? with
    | none =>
      rw [error.getD_path_of_own hfirst]
      cases declared with
      | false => exact .inr (.inl (.list hreading))
      | true =>
        have hnone : error ∈ ownErrors errors :=
          List.mem_filter.mpr ⟨hmem, by rw [hfirst]; rfl⟩
        exact .inr (.inr ⟨.list hreading, _, hown rfl (List.ne_nil_of_mem hnone), rfl⟩)
    | some segment =>
      cases hpart : (child.reading reconstruction.schema json).part? segment with
      | none =>
        -- Without an item for the segment, the error is about none of the list.
        have hout : isOutside items.length error = true := by
          unfold isOutside
          rw [hfirst]
          rw [hreading] at hpart
          cases segment with
          | key key => rfl
          | index position => exact decide_eq_true (List.getElem?_eq_none_iff.mp hpart)
        refine .inr (.inr ⟨?_, _, houtside (List.any_eq_true.mpr ⟨error, hmem, hout⟩), rfl⟩)
        rw [error.getD_path_of_firstSegment hfirst]
        exact .outside hreading hpart
      | some part =>
        obtain ⟨position, rfl, hitem⟩ : ∃ position, segment = .index position ∧
            items[position]? = some part := by
          rw [hreading] at hpart
          cases segment with
          | key key => cases hpart
          | index position => exact ⟨position, rfl, hpart⟩
        obtain ⟨value, hfound, -, more, hmore, hreports⟩ :=
          exists_getElem?_of_forall₂ hitems (fun _ _ h => h.1) hitem
        refine Reports.told_of_part hpart hreports hmore ?_ hmem hfirst
        exact fun said hsaid => FetchedValue.mem_contents_list_iff.mpr
          ⟨_, List.mem_of_getElem? hfound, hsaid⟩
  · intro hkeyed said hsaid
    obtain ⟨value, hvalue, hsaid⟩ := FetchedValue.mem_contents_list_iff.mp hsaid
    obtain ⟨position, hfound⟩ := List.getElem?_of_mem hvalue
    obtain ⟨part, hitem, -, more, -, hreports⟩ :=
      exists_getElem?_of_forall₂ hitems.flip (fun _ _ h => h.1.symm) hfound
    have hpart : (child.reading reconstruction.schema json).part? (.index position) =
        some part := by
      rw [hreading]
      exact hitem
    exact Reports.only_of_part hpart hreports (Child.keyed_of_part? hpart hkeyed) hsaid

/-- An object reports what its fields do, and what is about none of them. -/
theorem reports_object {members : List (String × Child × Json)} {fields : Entries FetchedValue}
    (hreading : child.reading reconstruction.schema json = .object declared members)
    (hmembers : List.Forall₂ (HoldsOfPart reconstruction.reporting errors warnings)
      (keyed members) (keyed fields)) :
    Reports reconstruction.schema child json errors
      (.object { fields, errors, owner := reconstruction.owner }) warnings := by
  have hkeys : Entries.keys fields = Entries.keys members :=
    keys_eq_of_forall₂ hmembers fun _ _ h => h.1
  have hpart : ∀ {key part}, Entries.get? members key = some part →
      (child.reading reconstruction.schema json).part? (.key key) = some part := by
    intro key part hmember
    rw [hreading]
    exact hmember
  constructor
  · intro error hmem
    by_cases haccounted : FetchedValue.isUnaccounted (Entries.keys fields) error = true
    · exact .inl (FetchedValue.mem_contents_object_iff.mpr (.inr ⟨error, hmem, haccounted, rfl⟩))
    · obtain ⟨key, hfirst, hkey⟩ : ∃ key, error.firstSegment? = some (.key key) ∧
          key ∈ Entries.keys fields := by
        unfold FetchedValue.isUnaccounted at haccounted
        split at haccounted
        · rename_i key hfirst
          exact ⟨key, hfirst, by simpa using haccounted⟩
        · exact absurd rfl haccounted
      rw [hkeys] at hkey
      obtain ⟨part, hmember⟩ := Entries.exists_get?_iff.mpr hkey
      obtain ⟨value, hvalue, -, more, hmore, hreports⟩ :=
        exists_get?_of_forall₂ hmembers (fun _ _ h => h.1) hmember
      refine Reports.told_of_part (hpart hmember) hreports hmore ?_ hmem hfirst
      exact fun said hsaid => FetchedValue.mem_contents_object_iff.mpr
        (.inl ⟨_, Entries.mem_of_get? hvalue, hsaid⟩)
  · intro hkeyed said hsaid
    rcases FetchedValue.mem_contents_object_iff.mp hsaid with ⟨⟨key, value⟩, hfield, hsaid⟩ |
      ⟨error, hmem, hunaccounted, hsaid⟩
    · have hfield' : (Segment.key key, value) ∈ keyed fields :=
        mem_keyed.mpr ⟨key, rfl, hfield⟩
      obtain ⟨⟨_, part⟩, hmember, rfl, more, -, hreports⟩ :=
        exists_of_mem_forall₂ hmembers hfield'
      obtain ⟨_, hname, hmember⟩ := mem_keyed.mp hmember
      obtain rfl := Segment.key.inj hname
      have hdistinct : (Entries.keys members).Nodup := by
        rw [(Child.of_reading_object hreading).1] at hkeyed
        rw [← Entries.keys_mapValues Prod.snd]
        exact hkeyed.nodup
      have hfound := hpart (Entries.get?_of_mem hdistinct hmember)
      exact Reports.only_of_part hfound hreports (Child.keyed_of_part? hfound hkeyed) hsaid
    · -- An error that is listed for the object itself begins with no member.
      refine .inr ⟨error, hmem, hsaid, fun warned => not_dropped_of_object hreading ?_⟩
      intro segment hsegment
      have hfirst : error.firstSegment? = some segment := error.head?_path.symm.trans hsegment
      rw [hreading]
      cases segment with
      | index position => rfl
      | key key =>
        refine Entries.get?_eq_none_iff.mpr fun hkey => ?_
        simp [FetchedValue.isUnaccounted, hfirst, ObjectOf.keys, hkeys, hkey] at hunaccounted

end Parts

/-- Whatever data are read, their errors are reported. -/
theorem reporting_holdsByParts (reconstruction : Reconstruction σ) :
    reconstruction.HoldsByParts reconstruction.reporting where
  absent := by
    intro child json hreading errors
    constructor
    · intro error hmem
      by_cases h : Displaced errors (error.path.getD [])
      · exact .inr (.inl (.null hreading h))
      · exact .inl ((FetchedValue.mem_contents_ofErrors_iff _ _).mpr ⟨error, hmem, rfl, h⟩)
    · intro _ said hsaid
      obtain ⟨error, hmem, hsaid, hkept⟩ :=
        (FetchedValue.mem_contents_ofErrors_iff _ _).mp hsaid
      exact .inr ⟨error, hmem, hsaid,
        fun warned h => hkept ((dropped_iff_of_absent hreading).mp h).2⟩
  kept hreading errors := by
    refine ⟨fun _ _ => .inr (.inl (.leaf hreading)), fun _ said hsaid => ?_⟩
    exact absurd hsaid List.not_mem_nil
  leaf := by
    intro child json type hreading errors
    refine ⟨fun _ _ => .inr (.inl (.leaf hreading)), fun _ said hsaid => ?_⟩
    unfold FetchedValue.ofLeaf at hsaid
    cases hleaf : leafValue? reconstruction.schema type json with
    | some leaf =>
      rw [hleaf] at hsaid
      exact absurd hsaid List.not_mem_nil
    | none =>
      rw [hleaf] at hsaid
      obtain ⟨error, hmem, rfl⟩ := FetchedValue.mem_contents_error_iff.mp hsaid
      rw [List.mem_singleton.mp hmem]
      exact .inl ⟨[], child, json, type, rfl, hreading, hleaf, rfl⟩
  list hreading _ _ _ hown houtside hitems := reports_list hreading hown houtside hitems
  object hreading _ _ _ hmembers := reports_object hreading hmembers

end Reconstruction

namespace DelegationContext

variable {σ : Type} {context : DelegationContext} {complete : Completion σ}

/-- Where an error of a response stands in the data of the delegated field; an error about anything
else is about the field itself. -/
def placeOf (context : DelegationContext) (error : GraphError) : Path :=
  if error.firstSegment? = some (.key context.fieldName) then error.relativeToChild.path.getD []
  else []

/-- An error of a response is dropped, with a warning or without. -/
def Drops (context : DelegationContext) (response : Response) (warned : Bool)
    (error : GraphError) : Prop :=
  Dropped (context.gateway?.getD context.view) warned (.typed context.info? context.returnType)
    ((context.fieldData? response).getD .null) (context.fieldErrors response)
    (context.placeOf error)

/-- An error of a response comes to its place among the errors of the delegated field. -/
theorem mem_fieldErrors_iff {response : Response} {error : GraphError} :
    error ∈ context.fieldErrors response ↔ ∃ reported ∈ response.errors,
      error = if reported.firstSegment? = some (.key context.fieldName)
        then reported.relativeToChild else reported.withPath none := by
  unfold fieldErrors
  rw [List.mem_map]
  simp only [eq_comm]

/-- At its place an error says what it said in the response. -/
theorem content_placed (context : DelegationContext) (error : GraphError) :
    (if error.firstSegment? = some (.key context.fieldName) then error.relativeToChild
      else error.withPath none).content = error.content := by
  split_ifs <;> rfl

/-- The place of an error is its path. -/
theorem getD_path_placed (context : DelegationContext) (error : GraphError) :
    (if error.firstSegment? = some (.key context.fieldName) then error.relativeToChild
      else error.withPath none).path.getD [] = context.placeOf error := by
  unfold placeOf
  split_ifs <;> rfl

/-- Without merging, the value of the delegated field reports each error of the response, unless it
is dropped, with a warning or without. It reports nothing else, but that leaves are no values of
their types. -/
theorem fieldValue_reports
    (hunmerged : context.info?.isSome = true → ∀ info type object,
      complete context.subschema context.context info type object = pure object)
    (response : Response) (session : Session σ) :
    ∃ value warnings,
      runFrom (context.fieldValue complete response) session =
        (.ok value, { session with warnings := session.warnings ++ warnings }) ∧
      (∀ error ∈ response.errors,
        (∃ reported ∈ value.errors, reported.content = error.content) ∨
        context.Drops response false error ∨
        context.Drops response true error ∧ ∃ warning ∈ warnings, warning.isDrop = true) ∧
      (((context.fieldData? response).getD .null).Keyed → ∀ reported ∈ value.errors,
        SaysInvalid (context.gateway?.getD context.view)
          (.typed context.info? context.returnType) ((context.fieldData? response).getD .null)
          reported.content ∨
        ∃ error ∈ response.errors, error.content = reported.content ∧
          ∀ warned, ¬ context.Drops response warned error) := by
  obtain ⟨value, warnings, hrun, htold, honly⟩ :=
    (Reconstruction.reporting_holdsByParts
      { subschema := context.subschema
        schema := context.gateway?.getD context.view
        complete := complete context.subschema context.context }).result hunmerged
      (context.fieldData? response) (context.fieldErrors response) context.returnType
      context.skipsMerging session
  refine ⟨value, warnings, hrun, fun error hmem => ?_, fun hkeyed reported hreported => ?_⟩
  · have hplaced := htold _ (mem_fieldErrors_iff.mpr ⟨error, hmem, rfl⟩)
    rw [content_placed, getD_path_placed] at hplaced
    exact hplaced.imp_left List.mem_map.mp
  · rcases honly hkeyed _ (List.mem_map_of_mem hreported) with hinvalid |
      ⟨placed, hplaced, hsaid, hkept⟩
    · exact .inl hinvalid
    · obtain ⟨error, hmem, rfl⟩ := mem_fieldErrors_iff.mp hplaced
      rw [content_placed] at hsaid
      rw [getD_path_placed] at hkept
      exact .inr ⟨error, hmem, hsaid, hkept⟩

/-- The delegation of a user. -/
def userContext : DelegationContext where
  subschema := { name := "accounts", schema := Reconstruction.userSchema }
  fieldName := "user"
  returnType := .named "User"

/-- A response with a name that is there, although an error was reported for it. -/
def namedResponse : Response where
  data := some (.object [("user", .object [("name", .string "Ann")])])
  errors := [{ message := "boom", path := some [.key "user", .key "name"] }]

/-- The error about the name is dropped without a warning. -/
theorem fieldValue_reports_namedResponse :
    (userContext.info?.isSome = true → ∀ info type object,
      (Stitching.completion? none none : Completion Unit) userContext.subschema
        userContext.context info type object = pure object) ∧
    ∃ value warnings,
      runFrom (userContext.fieldValue (Stitching.completion? none none) namedResponse)
        { world := () } = (.ok value, { world := (), warnings }) ∧
      value.errors = [] ∧ warnings = [] ∧
      ∀ error ∈ namedResponse.errors, userContext.Drops namedResponse false error := by
  have hunmerged : userContext.info?.isSome = true → ∀ info type object,
      (Stitching.completion? none none : Completion Unit) userContext.subschema
        userContext.context info type object = pure object := fun _ _ _ _ => rfl
  obtain ⟨value, warnings, hrun, htold, -⟩ :=
    fieldValue_reports hunmerged namedResponse { world := () }
  have hvalue : runFrom (userContext.fieldValue (Stitching.completion? none none) namedResponse)
      { world := () } = (.ok (.object {
        fields := [("name", .leaf (.string "Ann"))]
        errors := [{ message := "boom", path := some [.key "name"] }]
        owner := "accounts" }), { world := () }) := rfl
  cases hrun.symm.trans hvalue
  refine ⟨hunmerged, _, _, hrun, rfl, rfl, fun error hmem => ?_⟩
  rcases htold error hmem with ⟨reported, hreported, -⟩ | hsilent | ⟨-, warning, hwarning, -⟩
  · exact absurd hreported List.not_mem_nil
  · exact hsilent
  · exact absurd hwarning List.not_mem_nil

end DelegationContext

end Gateway
