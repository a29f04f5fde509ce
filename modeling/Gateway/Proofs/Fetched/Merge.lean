import Gateway.Fetched.Merge
import Gateway.Proofs.Fetched.Position

/-!
# Merging objects without common keys

Merging is deep where both objects have a key. Objects whose keys are all different lose nothing by
being merged: the fields of the later ones are put behind those of the first in order
(`fields_mergeAnswers`), and each field is noted to come from where its object had it from
(`fieldOwner_mergeAnswers`).

Merging moves nothing: `PutAt` follows a part from where it was put when a value was made, through
all answers that were merged into objects around it. There it stands when the answers had no keys in
common with these objects (`PutAt.at?_eq`).
-/

namespace Gateway

/-- Fields under new keys are put behind the others. -/
theorem FetchedValue.mergeFields_fresh (sources : List (String × FetchedValue))
    (targets : Entries FetchedValue) (hdistinct : (Entries.keys sources).Nodup)
    (hfresh : ∀ key ∈ Entries.keys sources, key ∉ Entries.keys targets) :
    FetchedValue.mergeFields sources targets = targets ++ sources := by
  induction sources generalizing targets with
  | nil => rw [FetchedValue.mergeFields, List.append_nil]
  | cons source rest ih =>
    obtain ⟨key, value⟩ := source
    obtain ⟨hkey, hrest⟩ := List.nodup_cons.mp hdistinct
    have hnone : targets.get? key = none :=
      Entries.get?_eq_none_iff.mpr (hfresh key List.mem_cons_self)
    rw [FetchedValue.mergeFields, hnone, ih _ hrest, List.append_assoc, List.singleton_append]
    intro other hother hmem
    unfold Entries.keys at hmem
    rw [List.map_append, List.mem_append] at hmem
    rcases hmem with hmem | hmem
    · exact hfresh other (List.mem_cons_of_mem _ hother) hmem
    · rw [List.mem_singleton.mp hmem] at hother
      exact hkey hother

namespace ObjectOf

/-- A merge of an object with new keys puts its fields behind the others. -/
theorem fields_merge {target source : FetchedObject} (hdistinct : source.keys.Nodup)
    (hfresh : ∀ key ∈ source.keys, key ∉ target.keys) :
    (target.merge source).fields = target.fields ++ source.fields := by
  unfold ObjectOf.merge
  rw [FetchedValue.mergeObject]
  exact FetchedValue.mergeFields_fresh source.fields target.fields hdistinct hfresh

/-- A merged object has each field of the later one from where that one has it. -/
theorem fieldOwner_merge (target source : FetchedObject) (key : String) :
    (target.merge source).fieldOwner key =
      if key ∈ source.keys then source.fieldOwner key else target.fieldOwner key := by
  obtain ⟨fields, errors, owner, fieldOwners⟩ := source
  have hkeys : ((Entries.keys fields).map fun key =>
      (key, (fieldOwners.get? key).getD owner)).map Prod.fst = Entries.keys fields := by
    rw [List.map_map]
    exact List.map_id _
  unfold ObjectOf.merge ObjectOf.fieldOwner ObjectOf.keys
  rw [FetchedValue.mergeObject]
  by_cases hkey : key ∈ Entries.keys fields
  · have hfound : (target.fieldOwners.insertAll <| (Entries.keys fields).map fun key =>
        (key, (fieldOwners.get? key).getD owner)).get? key =
          some ((fieldOwners.get? key).getD owner) := by
      refine Entries.get?_insertAll_of_forall (by rw [hkeys]; exact hkey) fun pair hpair hname => ?_
      obtain ⟨other, -, rfl⟩ := List.mem_map.mp hpair
      rw [← hname]
    rw [hfound, if_pos hkey, Option.getD_some]
  · rw [Entries.get?_insertAll_of_not_mem (by rw [hkeys]; exact hkey), if_neg hkey]

/-- A first answer is merged first. -/
theorem mergeAnswers_cons (target source : FetchedObject) (rest : List FetchedObject) :
    target.mergeAnswers ((source :: rest).map FetchedValue.object) =
      (target.merge source).mergeAnswers (rest.map FetchedValue.object) :=
  rfl

/-- Answers whose keys are all new and different are put behind the object in order. -/
theorem fields_mergeAnswers (target : FetchedObject) (sources : List FetchedObject)
    (hdistinct : (sources.flatMap ObjectOf.keys).Nodup)
    (hfresh : ∀ key ∈ sources.flatMap ObjectOf.keys, key ∉ target.keys) :
    (target.mergeAnswers (sources.map FetchedValue.object)).fields =
      target.fields ++ sources.flatMap ObjectOf.fields := by
  induction sources generalizing target with
  | nil => exact (List.append_nil _).symm
  | cons source rest ih =>
    rw [List.flatMap_cons] at hdistinct hfresh
    obtain ⟨hsource, hrest, hapart⟩ := List.nodup_append.mp hdistinct
    have hmerge := fields_merge hsource fun key hkey =>
      hfresh key (List.mem_append_left _ hkey)
    rw [mergeAnswers_cons, ih _ hrest, hmerge, List.append_assoc, List.flatMap_cons]
    intro key hkey hmem
    unfold ObjectOf.keys Entries.keys at hmem
    rw [hmerge, List.map_append, List.mem_append] at hmem
    rcases hmem with hmem | hmem
    · exact hfresh key (List.mem_append_right _ hkey) hmem
    · exact hapart key hmem key hkey rfl

section MergeAnswers

variable (target : FetchedObject) {sources : List FetchedObject}
  (hdistinct : (sources.flatMap ObjectOf.keys).Nodup)
  (hfresh : ∀ key ∈ sources.flatMap ObjectOf.keys, key ∉ target.keys)

include hdistinct hfresh

/-- The keys of the object and of all answers are those of the merged object. -/
theorem mem_keys_mergeAnswers {key : String} :
    key ∈ (target.mergeAnswers (sources.map FetchedValue.object)).keys ↔
      key ∈ target.keys ∨ ∃ source ∈ sources, key ∈ source.keys := by
  have hkeys : Entries.keys (sources.flatMap ObjectOf.fields) = sources.flatMap ObjectOf.keys :=
    List.map_flatMap
  unfold ObjectOf.keys
  rw [target.fields_mergeAnswers sources hdistinct hfresh, ← List.mem_flatMap]
  unfold Entries.keys at hkeys ⊢
  rw [List.map_append, List.mem_append, hkeys]
  rfl

/-- The fields that the object has keep their values. -/
theorem get?_mergeAnswers_of_mem {key : String} (hkey : key ∈ target.keys) :
    (target.mergeAnswers (sources.map FetchedValue.object)).get? key = target.get? key := by
  obtain ⟨value, hvalue⟩ : ∃ value, Entries.get? target.fields key = some value :=
    Entries.exists_get?_iff.mpr hkey
  unfold ObjectOf.get?
  rw [target.fields_mergeAnswers sources hdistinct hfresh, Entries.get?_append, hvalue,
    Option.some_or]

/-- The fields of an answer get its values. -/
theorem get?_mergeAnswers_of_answer {source : FetchedObject} (hsource : source ∈ sources)
    {key : String} {value : FetchedValue} (hvalue : source.get? key = some value) :
    (target.mergeAnswers (sources.map FetchedValue.object)).get? key = some value := by
  have hentry : (key, value) ∈ sources.flatMap ObjectOf.fields :=
    List.mem_flatMap.mpr ⟨source, hsource, Entries.mem_of_get? hvalue⟩
  have hkeys : Entries.keys (sources.flatMap ObjectOf.fields) = sources.flatMap ObjectOf.keys :=
    List.map_flatMap
  have hkey : key ∈ sources.flatMap ObjectOf.keys := by
    rw [← hkeys]
    exact List.mem_map_of_mem hentry
  unfold ObjectOf.get?
  rw [target.fields_mergeAnswers sources hdistinct hfresh, Entries.get?_append,
    Entries.get?_eq_none_iff.mpr (hfresh key hkey), Option.none_or]
  exact Entries.get?_of_mem (hkeys ▸ hdistinct) hentry

end MergeAnswers

/-- A field that no answer has comes from where the object has it. -/
theorem fieldOwner_mergeAnswers_of_not_mem (target : FetchedObject) (sources : List FetchedObject)
    {key : String} (h : key ∉ sources.flatMap ObjectOf.keys) :
    (target.mergeAnswers (sources.map FetchedValue.object)).fieldOwner key =
      target.fieldOwner key := by
  induction sources generalizing target with
  | nil => rfl
  | cons source rest ih =>
    rw [List.flatMap_cons, List.mem_append, not_or] at h
    rw [mergeAnswers_cons, ih _ h.2, fieldOwner_merge, if_neg h.1]

/-- A field that one answer has comes from where the answer has it. -/
theorem fieldOwner_mergeAnswers (target : FetchedObject) (sources : List FetchedObject)
    (hdistinct : (sources.flatMap ObjectOf.keys).Nodup) {source : FetchedObject}
    (hsource : source ∈ sources) {key : String} (hkey : key ∈ source.keys) :
    (target.mergeAnswers (sources.map FetchedValue.object)).fieldOwner key =
      source.fieldOwner key := by
  induction sources generalizing target with
  | nil => exact absurd hsource List.not_mem_nil
  | cons first rest ih =>
    rw [List.flatMap_cons] at hdistinct
    obtain ⟨-, hrest, hapart⟩ := List.nodup_append.mp hdistinct
    rw [mergeAnswers_cons]
    rcases List.mem_cons.mp hsource with rfl | hmem
    · rw [fieldOwner_mergeAnswers_of_not_mem, fieldOwner_merge, if_pos hkey]
      intro hother
      exact hapart key hkey key hother rfl
    · exact ih _ hrest hmem

end ObjectOf

/-! ## Answers with fields of their own -/

/-- The objects among answers. -/
def FetchedValue.objectsOf (answers : List FetchedValue) : List FetchedObject :=
  answers.filterMap fun
    | .object source => some source
    | _ => none

namespace ObjectOf

variable {target : FetchedObject} {answers : List FetchedValue} {key : String}
  {value : FetchedValue}

/-- The fields of a merged object depend on the fields of the target only. -/
theorem fields_mergeAnswer_congr {other : FetchedObject} (h : target.fields = other.fields)
    (answer : FetchedValue) :
    (target.mergeAnswer answer).fields = (other.mergeAnswer answer).fields := by
  cases answer with
  | object source =>
    obtain ⟨fields, errors, owner, fieldOwners⟩ := source
    rw [mergeAnswer, mergeAnswer]
    unfold ObjectOf.merge
    rw [FetchedValue.mergeObject, FetchedValue.mergeObject]
    exact congrArg (FetchedValue.mergeFields fields) h
  | error held => exact h
  | null => exact h
  | leaf json => exact h
  | list items => exact h

/-- Only the objects among answers have fields to merge. -/
theorem fields_mergeAnswers_objectsOf (target : FetchedObject) (answers : List FetchedValue) :
    (target.mergeAnswers answers).fields =
      (target.mergeAnswers ((FetchedValue.objectsOf answers).map FetchedValue.object)).fields := by
  -- Answers that are no objects may add errors, so the targets only have their fields in common.
  suffices h : ∀ other : FetchedObject, target.fields = other.fields →
      (target.mergeAnswers answers).fields =
        (other.mergeAnswers ((FetchedValue.objectsOf answers).map FetchedValue.object)).fields from
    h target rfl
  induction answers generalizing target with
  | nil => exact fun _ h => h
  | cons answer rest ih =>
    intro other h
    cases answer with
    | object source => exact ih _ _ (fields_mergeAnswer_congr h _)
    | error held => exact ih _ _ h
    | null => exact ih _ _ h
    | leaf json => exact ih _ _ h
    | list items => exact ih _ _ h

/-- Answers bring fields under keys of their own, which neither the object nor another answer
has. -/
def Apart (target : FetchedObject) (answers : List FetchedValue) : Prop :=
  ((FetchedValue.objectsOf answers).flatMap ObjectOf.keys).Nodup ∧
    ∀ key ∈ (FetchedValue.objectsOf answers).flatMap ObjectOf.keys, key ∉ target.keys

/-- Answers with fields of their own leave those of the object. -/
theorem Apart.get?_of_object (h : target.Apart answers) (hvalue : target.get? key = some value) :
    (target.mergeAnswers answers).get? key = some value := by
  have hkey : key ∈ target.keys := Entries.exists_get?_iff.mp ⟨value, hvalue⟩
  unfold ObjectOf.get?
  rw [fields_mergeAnswers_objectsOf]
  exact (get?_mergeAnswers_of_mem target h.1 h.2 hkey).trans hvalue

/-- Answers with fields of their own bring these. -/
theorem Apart.get?_of_answer (h : target.Apart answers) {source : FetchedObject}
    (hmem : .object source ∈ answers) (hvalue : source.get? key = some value) :
    (target.mergeAnswers answers).get? key = some value := by
  have hsource : source ∈ FetchedValue.objectsOf answers :=
    List.mem_filterMap.mpr ⟨.object source, hmem, rfl⟩
  unfold ObjectOf.get?
  rw [fields_mergeAnswers_objectsOf]
  exact get?_mergeAnswers_of_answer target h.1 h.2 hsource hvalue

end ObjectOf

/-! ## Where parts are put -/

namespace FetchedValue

/-- A part is put at a path of a value when the value is made: in lists and objects, and by merging
answers into objects, where the parts of the object and those of the answers stay where they are. -/
inductive PutAt (merges : FetchedObject → List FetchedValue → Prop) (part : FetchedValue) :
    FetchedValue → Path → Prop
  /-- The part is the value. -/
  | here : PutAt merges part part []
  /-- It is in an item. -/
  | item {items : List FetchedValue} {index : Nat} {inner : FetchedValue} {rest : Path}
    (found : items[index]? = some inner) (below : PutAt merges part inner rest) :
    PutAt merges part (.list items) (.index index :: rest)
  /-- It is in a field. -/
  | field {object : FetchedObject} {key : String} {inner : FetchedValue} {rest : Path}
    (found : object.get? key = some inner) (below : PutAt merges part inner rest) :
    PutAt merges part (.object object) (.key key :: rest)
  /-- It is inside of an object into which answers are merged. -/
  | answered {object : FetchedObject} {answers : List FetchedValue} {segment : Segment}
    {rest : Path} (merged : merges object answers)
    (inObject : PutAt merges part (.object object) (segment :: rest)) :
    PutAt merges part (.object (object.mergeAnswers answers)) (segment :: rest)
  /-- It is inside of an answer that is merged into an object. -/
  | answer {object source : FetchedObject} {answers : List FetchedValue} {segment : Segment}
    {rest : Path} (merged : merges object answers) (mem : .object source ∈ answers)
    (inAnswer : PutAt merges part (.object source) (segment :: rest)) :
    PutAt merges part (.object (object.mergeAnswers answers)) (segment :: rest)

variable {merges : FetchedObject → List FetchedValue → Prop} {part inner whole : FetchedValue}
  {path rest : Path}

/-- What is put in a part is put in the value, further on from the part. -/
theorem PutAt.trans (h : PutAt merges inner whole path) (hinner : PutAt merges part inner rest) :
    PutAt merges part whole (path ++ rest) := by
  induction h with
  | here => exact hinner
  | item found _ ih => exact .item found ih
  | field found _ ih => exact .field found ih
  | answered merged _ ih => exact .answered merged ih
  | answer merged mem _ ih => exact .answer merged mem ih

/-- When answers bring fields of their own, parts stand where they were put. -/
theorem PutAt.at?_eq (h : PutAt ObjectOf.Apart part whole path) : whole.at? path = some part := by
  -- A merged object has all fields of the object and of the answers.
  have hkept : ∀ {object merged : FetchedObject} {segment : Segment} {rest : Path},
      (∀ key value, object.get? key = some value → merged.get? key = some value) →
      (FetchedValue.object object).at? (segment :: rest) = some part →
      (FetchedValue.object merged).at? (segment :: rest) = some part := by
    intro object merged segment rest hfields hpart
    cases segment with
    | index index => cases hpart
    | key key =>
      obtain ⟨inner, hinner, hrest⟩ := Option.bind_eq_some_iff.mp hpart
      rw [at?, hfields key inner hinner]
      exact hrest
  induction h with
  | here => exact at?_nil _
  | item found _ ih =>
    rw [at?, found]
    exact ih
  | field found _ ih =>
    rw [at?, found]
    exact ih
  | answered apart _ ih => exact hkept (fun _ _ => apart.get?_of_object) ih
  | answer apart mem _ ih => exact hkept (fun _ _ => apart.get?_of_answer mem) ih

end FetchedValue

end Gateway
