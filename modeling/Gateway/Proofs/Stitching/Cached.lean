import Gateway.Proofs.Language.SelectionShape
import Gateway.Proofs.Stitching.Needs

/-!
# What the tables of a merged type add

The tables of a merged type tell for each of its subschemas whether that subschema alone has a
needed selection set, while without tables the types of all sources are walked at once. Both agree
on fields, but the condition of an inline fragment is compared with the first of the types only, so
one source alone may have what all of them together do not (`not_sourcesContain_eq_emptied`).

`sourcesContain_iff_emptied` shows that nothing else is added: the tables only answer for one source
at a time, and where all sources read the inline fragments alike (`ReadAlike`) they answer as
without tables. A table is keyed by texts, so this rests on `Has.of_print_eq`: selections with the
same text are had by the same types.
-/

namespace Gateway

/-! ## Selections of one text -/

/-- Types that have a selection have all selections of its text. -/
theorem Has.of_print_eq {types : List (Schema × Name)} {selection selection' : Selection}
    (h : Has types selection) {depth : Nat} (hlaid : selection.IsLaidOut)
    (hlaid' : selection'.IsLaidOut)
    (heq : (selection.print depth).toList = (selection'.print depth).toList) :
    Has types selection' := by
  -- What is inside of the other selection has the text of something inside of the first one.
  induction h generalizing selection' depth with
  | typename named =>
    obtain ⟨halike, -⟩ := hlaid.alike_of_print_eq hlaid' heq
    cases halike with
    | field hname => exact .typename (hname ▸ named)
  | field declared _ ih =>
    obtain ⟨halike, htexts⟩ := hlaid.alike_of_print_eq hlaid' heq
    cases halike with
    | field hname =>
      refine .field (hname ▸ declared) fun inner' hinner' => ?_
      obtain ⟨inner, hinner, htext⟩ := exists_of_texts_eq htexts hinner'
      rw [← hname]
      exact ih inner hinner (hlaid.inner inner hinner) (hlaid'.inner inner' hinner') htext
  | spread =>
    obtain ⟨halike, -⟩ := hlaid.alike_of_print_eq hlaid' heq
    cases halike with
    | spread => exact .spread
  | elsewhere other =>
    obtain ⟨halike, -⟩ := hlaid.alike_of_print_eq hlaid' heq
    cases halike with
    | inline => exact .elsewhere other
  | inline _ ih =>
    obtain ⟨halike, htexts⟩ := hlaid.alike_of_print_eq hlaid' heq
    cases halike with
    | inline =>
      refine .inline fun inner' hinner' => ?_
      obtain ⟨inner, hinner, htext⟩ := exists_of_texts_eq htexts hinner'
      exact ih inner hinner (hlaid.inner inner hinner) (hlaid'.inner inner' hinner') htext

/-- Types have all or none of the selection sets that are known by one text. -/
theorem typesHaveAll_of_selectionSetKey_eq {types : List (Schema × Name)}
    {written needed : List Selection} (hwritten : Reader.AreLaidOut written)
    (hneeded : Reader.AreLaidOut needed)
    (hkey : selectionSetKey written = selectionSetKey needed)
    (h : typesHaveAll types written = true) : typesHaveAll types needed = true := by
  rw [typesHaveAll_iff] at h ⊢
  intro selection hselection
  obtain ⟨other, hother, htext⟩ :=
    exists_of_texts_eq (texts_eq_of_selectionSetKey_eq hwritten hneeded hkey) hselection
  exact (h other hother).of_print_eq (hwritten other hother) (hneeded selection hselection) htext

/-! ## Selections that are read alike -/

/-- All types read the inline fragments of a selection as the first one does: each fragment is for
another type than the first one, or for all of them. -/
inductive ReadAlike : List (Schema × Name) → Selection → Prop
  /-- A field, whose own types read what is inside alike. -/
  | field {types : List (Schema × Name)} {node : Field}
    (nested : ∀ selection ∈ node.selections, ReadAlike (innerTypes types node.name) selection) :
    ReadAlike types (.field node)
  /-- A spread. -/
  | spread {types : List (Schema × Name)} {fragment : Name} {directives : List Directive} :
    ReadAlike types (.spread fragment directives)
  /-- An inline fragment for another type than the first one. -/
  | elsewhere {schema : Schema} {type condition : Name} {rest : List (Schema × Name)}
    {directives : List Directive} {selections : List Selection} (other : condition ≠ type) :
    ReadAlike ((schema, type) :: rest) (.inline (some condition) directives selections)
  /-- An inline fragment for all of the types. -/
  | inline {types : List (Schema × Name)} {condition : Option Name} {directives : List Directive}
    {selections : List Selection}
    (same : ∀ name, condition = some name → ∀ type ∈ types, type.2 = name)
    (nested : ∀ selection ∈ selections, ReadAlike types selection) :
    ReadAlike types (.inline condition directives selections)

/-- What one type has, all of the types have together, if they read it alike. -/
theorem ReadAlike.has {types : List (Schema × Name)} {selection : Selection}
    (halike : ReadAlike types selection) {type : Schema × Name} (htype : type ∈ types)
    (h : Has [type] selection) : Has types selection := by
  induction halike generalizing type with
  | @field types node _ ih =>
    cases h with
    | typename named => exact .typename named
    | field declared hnested =>
      obtain ⟨_, hmem, hsome⟩ := declared
      rw [List.mem_singleton.mp hmem] at hsome
      refine .field ⟨type, htype, hsome⟩ fun selection hselection => ?_
      obtain ⟨inner, hinner⟩ := Option.isSome_iff_exists.mp hsome
      have halone : innerTypes [type] node.name = [(type.1, inner)] := by
        unfold innerTypes
        rw [List.filterMap_cons, hinner]
        rfl
      have hamong : (type.1, inner) ∈ innerTypes types node.name :=
        List.mem_filterMap.mpr ⟨type, htype, by rw [hinner]; rfl⟩
      exact ih selection hselection hamong (halone ▸ hnested selection hselection)
  | spread => exact .spread
  | elsewhere other => exact .elsewhere other
  | inline same _ ih =>
    cases h with
    | elsewhere other => exact absurd (same _ rfl _ htype).symm other
    | inline hnested =>
      exact .inline fun selection hselection =>
        ih selection hselection htype (hnested selection hselection)

/-! ## Tables -/

namespace MergedType

variable {ρ : Type}

/-- The merged type without its tables. -/
def emptied (merged : MergedType ρ) : MergedType ρ :=
  { merged with contains := [] }

/-- Without tables nothing is known of sources. -/
theorem emptied_isKnown (merged : MergedType ρ) (sources : List Subschema)
    (needed : List Selection) : merged.emptied.isKnown sources needed = false :=
  List.any_eq_false.mpr fun source _ => by simp [emptied, Entries.get?]

/-- Sources contain what is known of them and what they contain without tables. -/
theorem sourcesContain_eq_emptied (merged : MergedType ρ) (sources : List Subschema)
    (needed : List Selection) :
    merged.sourcesContain sources needed =
      (merged.isKnown sources needed || merged.emptied.sourcesContain sources needed) := by
  unfold sourcesContain
  rw [emptied_isKnown, Bool.false_or]
  rfl

/-- Without tables the types of all sources decide. -/
theorem emptied_sourcesContain {merged : MergedType ρ} {type : Name}
    (htype : merged.typeName? = some type) (sources : List Subschema) (needed : List Selection) :
    merged.emptied.sourcesContain sources needed =
      typesHaveAll (sources.map fun source => (source.view, type)) needed := by
  unfold sourcesContain
  rw [emptied_isKnown, Bool.false_or]
  have hname : merged.emptied.typeName? = some type := htype
  rw [hname]

end MergedType

namespace Stitching

variable {σ : Type} {merged : MergedType (TypeResolver σ)} {type : Name}

/-- Each subschema of a merged type that is derived from services has a table. -/
theorem exists_table_of_ofServices {services : List (Service σ)} {stitching : Stitching σ}
    (h : ofServices services = .ok stitching) (hmerged : stitching.mergedType? type = some merged)
    {subschema : Subschema} (hsubschema : subschema ∈ merged.subschemas) :
    ∃ table, merged.contains.get? subschema.name = some table := by
  obtain ⟨listed, requirements, building, -, -, rfl⟩ := isFinished_of_ofServices h hmerged
  rw [Entries.exists_get?_iff]
  refine Entries.mem_keys_ofPairs_iff.mpr ?_
  unfold Entries.keys
  rw [List.map_map]
  exact List.mem_map_of_mem hsubschema

/-- The table of a subschema has an entry for each needed selection set. -/
theorem exists_get?_containment (type : Name) (subschema : Subschema) {needed : List Selection}
    (hneeded : needed ∈ neededSelections merged) :
    ∃ has, (containment merged type subschema).get? (selectionSetKey needed) = some has := by
  rw [Entries.exists_get?_iff]
  refine Entries.mem_keys_ofPairs_iff.mpr ?_
  unfold Entries.keys
  rw [List.map_map]
  exact List.mem_map_of_mem hneeded

/-- The entry for a needed selection set tells whether the subschema has it, even where another one
with the same text is needed, too. -/
theorem Stitched.get?_containment (hstitched : Stitched merged type) (subschema : Subschema)
    {needed : List Selection} (hneeded : needed ∈ neededSelections merged) :
    (containment merged type subschema).get? (selectionSetKey needed) =
      some (typesHaveAll [(subschema.view, type)] needed) := by
  obtain ⟨has, hentry⟩ := exists_get?_containment type subschema hneeded
  obtain ⟨written, hwritten, heq⟩ := List.mem_map.mp (Entries.mem_of_get?_ofPairs hentry)
  obtain ⟨hkey, rfl⟩ := Prod.mk.inj heq
  have hlaid := hstitched.needed written hwritten
  have hlaid' := hstitched.needed needed hneeded
  rw [hentry, Option.some.injEq, Bool.eq_iff_iff]
  exact ⟨typesHaveAll_of_selectionSetKey_eq hlaid hlaid' hkey,
    typesHaveAll_of_selectionSetKey_eq hlaid' hlaid hkey.symm⟩

/-- The sources are subschemas of a merged type, and all subschemas of their names have their
schemas. -/
structure AreSources (merged : MergedType (TypeResolver σ)) (sources : List Subschema) : Prop where
  /-- Each source is a subschema of the type. -/
  mem : ∀ source ∈ sources, source ∈ merged.subschemas
  /-- A name stands for one schema. -/
  same : ∀ source ∈ sources, ∀ subschema ∈ merged.subschemas, subschema.name = source.name →
    subschema.view = source.view

/-- The tables of sources know what one of the sources has alone. -/
theorem knows_iff {services : List (Service σ)} {stitching : Stitching σ}
    (h : ofServices services = .ok stitching) (hmerged : stitching.mergedType? type = some merged)
    {sources : List Subschema} (hsources : AreSources merged sources) {needed : List Selection}
    (hneeded : needed ∈ neededSelections merged) :
    merged.Knows sources needed ↔
      ∃ source ∈ sources, typesHaveAll [(source.view, type)] needed = true := by
  have hstitched := stitched_of_ofServices h hmerged
  -- The table of a source is that of a subschema of its name, which has its schema.
  have htable : ∀ source ∈ sources, ∀ table, merged.contains.get? source.name = some table →
      table.get? (selectionSetKey needed) =
        some (typesHaveAll [(source.view, type)] needed) := by
    intro source hsource table htable
    obtain ⟨subschema, hsubschema, hname, rfl⟩ := hstitched.tables _ _ htable
    rw [hstitched.get?_containment subschema hneeded,
      hsources.same source hsource subschema hsubschema hname]
  constructor
  · rintro ⟨source, hsource, table, hfound, hentry⟩
    rw [htable source hsource table hfound] at hentry
    exact ⟨source, hsource, Option.some.inj hentry⟩
  · rintro ⟨source, hsource, hhas⟩
    obtain ⟨table, hfound⟩ := exists_table_of_ofServices h hmerged (hsources.mem source hsource)
    refine ⟨source, hsource, table, hfound, ?_⟩
    rw [htable source hsource table hfound, hhas]

/-- For a merged type that is derived from services, the tables only add what one of the sources
contains by itself, and where all sources read the inline fragments of what is needed alike, they
add nothing. -/
theorem sourcesContain_iff_emptied {services : List (Service σ)} {stitching : Stitching σ}
    (h : ofServices services = .ok stitching) (hmerged : stitching.mergedType? type = some merged)
    {sources : List Subschema} (hsources : AreSources merged sources) {needed : List Selection}
    (hneeded : needed ∈ neededSelections merged) :
    (merged.sourcesContain sources needed = true ↔
      merged.emptied.sourcesContain sources needed = true ∨
        ∃ source ∈ sources, merged.emptied.sourcesContain [source] needed = true) ∧
    ((∀ selection ∈ needed,
        ReadAlike (sources.map fun source => (source.view, type)) selection) →
      merged.sourcesContain sources needed = merged.emptied.sourcesContain sources needed) := by
  have hwithout := merged.emptied_sourcesContain (stitched_of_ofServices h hmerged).typeName
  have hiff : merged.sourcesContain sources needed = true ↔
      merged.emptied.sourcesContain sources needed = true ∨
        ∃ source ∈ sources, merged.emptied.sourcesContain [source] needed = true := by
    rw [MergedType.sourcesContain_eq_emptied, Bool.or_eq_true, MergedType.isKnown_iff,
      knows_iff h hmerged hsources hneeded, or_comm]
    refine or_congr_right (exists_congr fun source => and_congr_right fun _ => ?_)
    rw [hwithout [source], List.map_singleton]
  refine ⟨hiff, fun halike => Bool.eq_iff_iff.mpr (hiff.trans (or_iff_left_of_imp ?_))⟩
  rintro ⟨source, hsource, halone⟩
  rw [hwithout [source], List.map_singleton, typesHaveAll_iff] at halone
  rw [hwithout sources, typesHaveAll_iff]
  exact fun selection hselection => (halike selection hselection).has
    (List.mem_map_of_mem hsource) (halone selection hselection)

/-- The weight that shipping needs is contained in the sources as without tables. -/
theorem sourcesContain_iff_emptied_user :
    ofServices userServices = .ok userStitching ∧
      userStitching.mergedType? "User" = some userType ∧
      AreSources userType (userServices.map Service.subschema) ∧
      [.field { name := "weight" }] ∈ neededSelections userType ∧
      userType.sourcesContain (userServices.map Service.subschema) [.field { name := "weight" }] =
        userType.emptied.sourcesContain (userServices.map Service.subschema)
          [.field { name := "weight" }] := by
  have hsources : AreSources userType (userServices.map Service.subschema) :=
    ⟨by decide +kernel, by decide +kernel⟩
  have hneeded : [.field { name := "weight" }] ∈ neededSelections userType := by decide +kernel
  refine ⟨ofServices_userServices, mergedType?_user, hsources, hneeded, ?_⟩
  refine (sourcesContain_iff_emptied ofServices_userServices mergedType?_user hsources
    hneeded).2 fun selection hselection => ?_
  rw [List.mem_singleton.mp hselection]
  exact .field fun _ hmem => absurd hmem List.not_mem_nil

/-! ## Owners of different types -/

/-- A service whose users have an owner, of a type with one field. -/
def ownerService (name : String) (owner field : Name) (needed? : Option String) : Service Unit where
  subschema :=
    { name
      schema :=
        { types := [
            { name := "Query", body := .object [] [{ name := "user", type := .named "User" }] },
            { name := "User", body := .object [] [{ name := "owner", type := .named owner }] },
            { name := owner, body := .object [] [{ name := field, type := .named "String" }] }]
          directives := []
          roots := [(.query, "Query")] } }
  merging := [("User", { selectionSet? := needed?, fieldName? := some "user" })]

/-- The owners of users are people in one service and companies in the other, which needs the names
of people. -/
def ownerServices : List (Service Unit) := [
  ownerService "people" "Person" "age" none,
  ownerService "companies" "Company" "size"
    (some "\x7b owner \x7b ... on Person \x7b name \x7d \x7d \x7d")]

/-- Two services of one name, where only the second one knows the name that it needs. -/
def namesakes : List (Service Unit) := [
  ownerService "people" "Person" "age" none,
  ownerService "people" "Person" "name" (some "\x7b owner \x7b name \x7d \x7d")]

/-- The tables of merged users add something: sources contain what is needed, but do not contain it
without tables. -/
def TablesAdd (services : List (Service Unit)) (sources : List Subschema)
    (needed : List Selection) : Prop :=
  ∃ stitching merged, ofServices services = .ok stitching ∧
    stitching.mergedType? "User" = some merged ∧ (∀ source ∈ sources, source ∈ merged.subschemas) ∧
    needed ∈ neededSelections merged ∧ merged.sourcesContain sources needed = true ∧
    merged.emptied.sourcesContain sources needed = false

/-- Whether the tables of merged users add something can be computed. -/
theorem tablesAdd_of_any {services : List (Service Unit)} {sources : List Subschema}
    {needed : List Selection}
    (h : ((ofServices services).toOption.bind fun stitching =>
      stitching.mergedType? "User").any (fun merged =>
        decide ((∀ source ∈ sources, source ∈ merged.subschemas) ∧
          needed ∈ neededSelections merged ∧ merged.sourcesContain sources needed = true ∧
          merged.emptied.sourcesContain sources needed = false)) = true) :
    TablesAdd services sources needed := by
  cases hservices : ofServices services with
  | error error =>
    rw [hservices] at h
    exact absurd h (by simp [Except.toOption])
  | ok stitching =>
    rw [hservices] at h
    obtain ⟨merged, hmerged, hchecked⟩ := (Option.any_eq_true _ _).mp h
    exact ⟨stitching, merged, hservices, hmerged, of_decide_eq_true hchecked⟩

/-- Together the sources read the fragment for people as the first one does, whose people have no
names, but to companies it does not apply. And the table of a name is that of the last subschema of
the name, so it answers for the first one, too. -/
theorem not_sourcesContain_eq_emptied :
    TablesAdd ownerServices (ownerServices.map Service.subschema)
      [.field { name := "owner", selections := [
        .inline (some "Person") [] [.field { name := "name" }]] }] ∧
    TablesAdd namesakes ((namesakes.take 1).map Service.subschema)
      [.field { name := "owner", selections := [.field { name := "name" }] }] :=
  ⟨tablesAdd_of_any (by decide +kernel), tablesAdd_of_any (by decide +kernel)⟩

end Stitching

end Gateway
