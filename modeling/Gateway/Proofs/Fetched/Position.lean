import Gateway.Fetched.Value
import Gateway.Proofs.Entries
import Gateway.Proofs.Except
import Mathlib.Data.List.Forall2
import Mathlib.Data.List.Nodup

/-!
# Positions in values

A path leads from a value to the value that it holds there, through the keys of objects and the
indices of lists. The plain data of a fetched list or object are those of its parts, in their
places.

Every object is meant to hold a key once (`Json.Keyed`, `FetchedValue.Keyed`), so that a path leads
to all that stands under a key.
-/

namespace Gateway

/-- The keys of the fields of an object. -/
def ObjectOf.keys {α : Type} (object : ObjectOf α) : List String :=
  Entries.keys object.fields

/-! ## Parts by segment -/

/-- The items of a list from a position on, by segment. -/
def indexed {α : Type} (position : Nat) (items : List α) : List (Segment × α) :=
  (items.zipIdx position).map fun item => (.index item.2, item.1)

/-- The members of an object, by segment. -/
def keyed {α : Type} (members : List (String × α)) : List (Segment × α) :=
  members.map fun member => (.key member.1, member.2)

section Children

variable {α : Type}

/-- The items behind the first one have the next indices. -/
theorem indexed_cons (position : Nat) (item : α) (rest : List α) :
    indexed position (item :: rest) = (.index position, item) :: indexed (position + 1) rest := by
  unfold indexed
  rw [List.zipIdx_cons, List.map_cons]

/-- An item stands at its index. -/
theorem mem_indexed {items : List α} {part : Segment × α} :
    part ∈ indexed 0 items ↔ ∃ position, part.1 = .index position ∧
      items[position]? = some part.2 := by
  obtain ⟨segment, item⟩ := part
  unfold indexed
  simp only [List.mem_map, Prod.exists, List.mem_zipIdx_iff_getElem?, Prod.mk.injEq]
  constructor
  · rintro ⟨_, position, hitem, rfl, rfl⟩
    exact ⟨position, rfl, hitem⟩
  · rintro ⟨position, rfl, hitem⟩
    exact ⟨item, position, hitem, rfl, rfl⟩

/-- Items have different indices. -/
theorem nodup_indexed (position : Nat) (items : List α) :
    ((indexed position items).map Prod.fst).Nodup := by
  have hsegments : (indexed position items).map Prod.fst =
      ((items.zipIdx position).map Prod.snd).map Segment.index := by
    unfold indexed
    rw [List.map_map, List.map_map]
    rfl
  rw [hsegments, List.zipIdx_map_snd]
  exact List.Nodup.map (fun _ _ h => Segment.index.inj h) List.nodup_range'

/-- The parts of a list are its items. -/
theorem indexed_map_snd (position : Nat) (items : List α) :
    (indexed position items).map Prod.snd = items := by
  unfold indexed
  rw [List.map_map]
  exact List.zipIdx_map_fst position items

/-- Mapped items are parts behind the same segments. -/
theorem indexed_map {β : Type} (f : α → β) (position : Nat) (items : List α) :
    indexed position (items.map f) =
      (indexed position items).map fun part => (part.1, f part.2) := by
  unfold indexed
  rw [List.zipIdx_map, List.map_map, List.map_map]
  rfl

/-- A member stands under its key. -/
theorem mem_keyed {members : List (String × α)} {part : Segment × α} :
    part ∈ keyed members ↔ ∃ key, part.1 = .key key ∧ (key, part.2) ∈ members := by
  obtain ⟨segment, item⟩ := part
  unfold keyed
  simp only [List.mem_map, Prod.exists, Prod.mk.injEq]
  constructor
  · rintro ⟨key, _, hmember, rfl, rfl⟩
    exact ⟨key, rfl, hmember⟩
  · rintro ⟨key, rfl, hmember⟩
    exact ⟨key, item, hmember, rfl, rfl⟩

/-- The segments of members are their keys. -/
theorem keyed_map_fst (members : List (String × α)) :
    (keyed members).map Prod.fst = (Entries.keys members).map Segment.key := by
  unfold keyed Entries.keys
  rw [List.map_map, List.map_map]
  rfl

/-- Mapped members are parts behind the same segments. -/
theorem keyed_mapValues {β : Type} (f : α → β) (members : List (String × α)) :
    keyed (Entries.mapValues f members) =
      (keyed members).map fun part => (part.1, f part.2) := by
  unfold keyed Entries.mapValues
  rw [List.map_map, List.map_map]
  rfl

/-- The parts of an object tell its members. -/
theorem keyed_injective : Function.Injective (keyed (α := α)) :=
  List.map_injective_iff.mpr fun _ _ h =>
    Prod.ext (Segment.key.inj (Prod.ext_iff.mp h).1) (Prod.ext_iff.mp h).2

section Related

variable {β : Type} {R : Segment × α → Segment × β → Prop} {members : List (String × α)}
  {fields : List (String × β)}

/-- Members that are related under the same segments have the same keys. -/
theorem keys_eq_of_forall₂ (h : List.Forall₂ R (keyed members) (keyed fields))
    (hsegment : ∀ part field, R part field → field.1 = part.1) :
    Entries.keys fields = Entries.keys members := by
  have hsegments : (keyed fields).map Prod.fst = (keyed members).map Prod.fst := by
    rw [← List.forall₂_eq_eq_eq, List.forall₂_map_left_iff, List.forall₂_map_right_iff]
    exact h.flip.imp fun _ _ h => hsegment _ _ h
  rw [keyed_map_fst, keyed_map_fst] at hsegments
  exact List.map_injective_iff.mpr (fun _ _ h => Segment.key.inj h) hsegments

/-- What is found among members is related to what is found under the same key. -/
theorem exists_get?_of_forall₂ (h : List.Forall₂ R (keyed members) (keyed fields))
    (hsegment : ∀ part field, R part field → field.1 = part.1) {key : String} {item : α}
    (hitem : Entries.get? members key = some item) :
    ∃ field, Entries.get? fields key = some field ∧ R (.key key, item) (.key key, field) := by
  unfold keyed at h
  rw [List.forall₂_map_left_iff, List.forall₂_map_right_iff] at h
  induction h with
  | nil => exact absurd hitem (by simp [Entries.get?])
  | @cons member field members fields hfirst _ ih =>
    have hkey : field.1 = member.1 := Segment.key.inj (hsegment _ _ hfirst)
    rw [Entries.get?_cons] at hitem ⊢
    rw [hkey] at hfirst ⊢
    by_cases hfound : key = member.1
    · rw [if_pos hfound, Option.some.injEq] at hitem
      rw [← hitem, hfound]
      exact ⟨field.2, if_pos rfl, hfirst⟩
    · rw [if_neg hfound] at hitem ⊢
      exact ih hitem

/-- What is found among items is related to what is found at the same index. -/
theorem exists_getElem?_of_forall₂ {items : List α} {values : List β}
    (h : List.Forall₂ R (indexed 0 items) (indexed 0 values))
    (hsegment : ∀ part value, R part value → value.1 = part.1) {position : Nat} {item : α}
    (hitem : items[position]? = some item) :
    ∃ value, values[position]? = some value ∧
      R (.index position, item) (.index position, value) := by
  have hpart : (Segment.index position, item) ∈ indexed 0 items :=
    mem_indexed.mpr ⟨position, rfl, hitem⟩
  obtain ⟨⟨segment, value⟩, hvalue, hrelated⟩ := exists_of_mem_forall₂ h.flip hpart
  obtain ⟨_, rfl, hfound⟩ := mem_indexed.mp hvalue
  obtain rfl := Segment.index.inj (hsegment _ _ hrelated)
  exact ⟨value, hfound, hrelated⟩

end Related

end Children

/-! ## JSON values -/

namespace Json

/-- What a value holds at a path. -/
def at? : Json → Path → Option Json
  | json, [] => some json
  | .array items, .index position :: rest => items[position]?.bind (at? · rest)
  | .object members, .key key :: rest => (Entries.get? members key).bind (at? · rest)
  | _, _ :: _ => none

/-- No object in the value holds a key twice. -/
def Keyed (json : Json) : Prop :=
  ∀ path members, json.at? path = some (.object members) → (Entries.keys members).Nodup

/-- Every value holds itself. -/
@[simp]
theorem at?_nil (json : Json) : json.at? [] = some json := by
  cases json <;> rfl

/-- In a list a path goes on in the item at its index. -/
theorem at?_array_of_getElem? {items : List Json} {position : Nat} {item : Json}
    (h : items[position]? = some item) (rest : Path) :
    (Json.array items).at? (.index position :: rest) = item.at? rest := by
  rw [at?, h, Option.bind_some]

/-- In an object a path goes on in the member under its key. -/
theorem at?_object_of_get? {members : List (String × Json)} {key : String} {item : Json}
    (h : Entries.get? members key = some item) (rest : Path) :
    (Json.object members).at? (.key key :: rest) = item.at? rest := by
  rw [at?, h, Option.bind_some]

/-- A list holds at a path what an item holds. -/
theorem at?_array_eq_some_iff {items : List Json} {segment : Segment} {rest : Path} {part : Json} :
    (Json.array items).at? (segment :: rest) = some part ↔
      ∃ position item, segment = .index position ∧ items[position]? = some item ∧
        item.at? rest = some part := by
  cases segment with
  | index position =>
    rw [at?, Option.bind_eq_some_iff]
    simp
  | key key => simp [at?]

/-- An object holds at a path what a member holds. -/
theorem at?_object_eq_some_iff {members : List (String × Json)} {segment : Segment} {rest : Path}
    {part : Json} :
    (Json.object members).at? (segment :: rest) = some part ↔
      ∃ key item, segment = .key key ∧ Entries.get? members key = some item ∧
        item.at? rest = some part := by
  cases segment with
  | index position => simp [at?]
  | key key =>
    rw [at?, Option.bind_eq_some_iff]
    simp

/-- The items of a list hold keys once. -/
theorem Keyed.item {items : List Json} (h : (Json.array items).Keyed) {position : Nat} {item : Json}
    (hitem : items[position]? = some item) : item.Keyed :=
  fun path members hpart => h (.index position :: path) members
    (at?_array_eq_some_iff.mpr ⟨position, item, rfl, hitem, hpart⟩)

/-- All items of a list hold keys once. -/
theorem Keyed.forall_items {items : List Json} (h : (Json.array items).Keyed) :
    ∀ item ∈ items, item.Keyed := by
  intro item hmem
  obtain ⟨position, hitem⟩ := List.mem_iff_getElem?.mp hmem
  exact h.item hitem

/-- An object holds its own keys once. -/
theorem Keyed.nodup {members : List (String × Json)} (h : (Json.object members).Keyed) :
    (Entries.keys members).Nodup :=
  h [] members (at?_nil _)

/-- The members of an object hold keys once. -/
theorem Keyed.member {members : List (String × Json)} (h : (Json.object members).Keyed)
    {key : String} {item : Json} (hitem : Entries.get? members key = some item) : item.Keyed :=
  fun path inner hpart => h (.key key :: path) inner
    (at?_object_eq_some_iff.mpr ⟨key, item, rfl, hitem, hpart⟩)

/-- All members of an object hold keys once. -/
theorem Keyed.forall_members {members : List (String × Json)} (h : (Json.object members).Keyed) :
    ∀ member ∈ members, member.2.Keyed :=
  fun _ hmem => h.member (Entries.get?_of_mem h.nodup hmem)

/-- Null holds no object. -/
theorem keyed_null : Json.null.Keyed := by
  intro path members hpart
  cases path <;> simp [at?] at hpart

/-- A string holds no object. -/
theorem keyed_string (text : String) : (Json.string text).Keyed := by
  intro path members hpart
  cases path <;> simp [at?] at hpart

/-- A list holds keys once when each of its items does. -/
theorem keyed_array {items : List Json} (hitems : ∀ item ∈ items, item.Keyed) :
    (Json.array items).Keyed := by
  intro path members hpart
  cases path with
  | nil => cases hpart
  | cons segment rest =>
    obtain ⟨position, item, -, hitem, hpart⟩ := at?_array_eq_some_iff.mp hpart
    exact hitems item (List.mem_of_getElem? hitem) rest members hpart

/-- An object holds keys once when it has its own once and each of its members does. -/
theorem keyed_object {members : List (String × Json)} (hdistinct : (Entries.keys members).Nodup)
    (hmembers : ∀ member ∈ members, member.2.Keyed) : (Json.object members).Keyed := by
  intro path inner hpart
  cases path with
  | nil =>
    rw [at?_nil, Option.some.injEq, Json.object.injEq] at hpart
    exact hpart ▸ hdistinct
  | cons segment rest =>
    obtain ⟨key, item, -, hitem, hpart⟩ := at?_object_eq_some_iff.mp hpart
    exact hmembers (key, item) (Entries.mem_of_get? hitem) rest inner hpart

end Json

/-! ## Fetched values -/

namespace FetchedValue

/-- What a value holds at a path. -/
def at? : FetchedValue → Path → Option FetchedValue
  | value, [] => some value
  | .list items, .index position :: rest => items[position]?.bind (at? · rest)
  | .object found, .key key :: rest => (found.get? key).bind (at? · rest)
  | _, _ :: _ => none

/-- No object in the value holds a key twice. -/
def Keyed (value : FetchedValue) : Prop :=
  ∀ path object, value.at? path = some (.object object) → object.keys.Nodup

/-- Every value holds itself. -/
@[simp]
theorem at?_nil (value : FetchedValue) : value.at? [] = some value := by
  cases value <;> rfl

/-- The items of a list hold keys once. -/
theorem Keyed.item {items : List FetchedValue} (h : (FetchedValue.list items).Keyed)
    {position : Nat} {item : FetchedValue} (hitem : items[position]? = some item) : item.Keyed := by
  intro path object hpart
  refine h (.index position :: path) object ?_
  rw [at?, hitem]
  exact hpart

/-- An object holds its own keys once. -/
theorem Keyed.nodup {object : FetchedObject} (h : (FetchedValue.object object).Keyed) :
    object.keys.Nodup :=
  h [] object (at?_nil _)

/-- The fields of an object hold keys once. -/
theorem Keyed.field {object : FetchedObject} (h : (FetchedValue.object object).Keyed) {key : String}
    {item : FetchedValue} (hitem : object.get? key = some item) : item.Keyed := by
  intro path inner hpart
  refine h (.key key :: path) inner ?_
  rw [at?, hitem]
  exact hpart

/-- Null holds no object. -/
theorem keyed_null : FetchedValue.null.Keyed := by
  intro path object hpart
  cases path <;> simp [at?] at hpart

/-- A leaf holds no object. -/
theorem keyed_leaf (json : Json) : (FetchedValue.leaf json).Keyed := by
  intro path object hpart
  cases path <;> simp [at?] at hpart

/-- An object holds keys once when it has its own once and each of its fields does. -/
theorem keyed_object {object : FetchedObject} (hdistinct : object.keys.Nodup)
    (hfields : ∀ field ∈ object.fields, field.2.Keyed) : (FetchedValue.object object).Keyed := by
  intro path inner hpart
  cases path with
  | nil =>
    rw [at?_nil, Option.some.injEq, FetchedValue.object.injEq] at hpart
    rw [← hpart]
    exact hdistinct
  | cons segment rest =>
    cases segment with
    | index position => exact absurd hpart (by simp [at?])
    | key key =>
      rw [at?] at hpart
      obtain ⟨item, hitem, hpart⟩ := Option.bind_eq_some_iff.mp hpart
      exact hfields (key, item) (Entries.mem_of_get? hitem) rest inner hpart

/-! ## Plain data -/

/-- The plain data of items are those of each. -/
theorem toJsonItems_eq_map (items : List FetchedValue) :
    toJsonItems items = items.map toJson := by
  induction items with
  | nil => rfl
  | cons first rest ih => rw [toJsonItems, ih, List.map_cons]

/-- The plain data of fields are those of each. -/
theorem toJsonFields_eq_mapValues (fields : Entries FetchedValue) :
    toJsonFields fields = fields.mapValues toJson := by
  unfold Entries.mapValues
  induction fields with
  | nil => rfl
  | cons first rest ih => rw [toJsonFields, ih, List.map_cons]

/-- The plain data of an object are those of its fields. -/
theorem toJson_object (object : FetchedObject) :
    (FetchedValue.object object).toJson = .object (Entries.mapValues toJson object.fields) := by
  obtain ⟨fields, errors, owner, fieldOwners⟩ := object
  rw [toJson, toJsonFields_eq_mapValues]

/-- The plain data of a list are those of its items. -/
theorem toJson_list (items : List FetchedValue) :
    (FetchedValue.list items).toJson = .array (items.map toJson) := by
  rw [toJson, toJsonItems_eq_map]

end FetchedValue

end Gateway
