import Gateway.Proofs.Delegation.Nested
import Gateway.Proofs.Fetched.Merge
import Gateway.Proofs.Fetched.Reading

/-!
# Completion by position

An object is completed for the gateway field that it answers, and this field has a path. Whether the
path is that of the object cannot be seen from reconstruction itself, which only hands fields on.
`Reconstruction.valueAt` does the same with the position of every value at hand, and completes an
object by where it stands.

Fields that are handed on have the right paths (`Child.path_of_readAt`), so it makes no difference
whether an object is completed by its position or by the path of its field
(`Reconstruction.Agrees.valueAt_eq`). And the position is the one at which the completed object is
put in the value (`Reconstruction.placed_valueAt`).
-/

namespace Gateway

variable {σ : Type}

/-! ## Outcomes -/

namespace Act

variable {α β : Type} {action : Act σ α} {value : α}

/-- From some session the action leads to the value. -/
def Yields (action : Act σ α) (value : α) : Prop :=
  ∃ session session', runFrom action session = (.ok value, session')

/-- A value leads to nothing else. -/
theorem eq_of_yields_pure {found : α} (h : (pure value : Act σ α).Yields found) :
    found = value := by
  obtain ⟨session, session', hrun⟩ := h
  cases hrun
  rfl

/-- What actions in a row lead to, the second leads to from a value of the first. -/
theorem Yields.exists_of_bind {next : α → Act σ β} {found : β}
    (h : (action >>= next).Yields found) :
    ∃ value, action.Yields value ∧ (next value).Yields found := by
  obtain ⟨session, session', hrun⟩ := h
  cases haction : runFrom action session with
  | mk outcome session₁ =>
    cases outcome with
    | error error => cases (runFrom_bind_error haction).symm.trans hrun
    | ok value =>
      exact ⟨value, ⟨session, session₁, haction⟩, session₁, session',
        (runFrom_bind_ok haction).symm.trans hrun⟩

/-- What a mapped action leads to is mapped. -/
theorem Yields.exists_of_map {f : α → β} {found : β} (h : (f <$> action).Yields found) :
    ∃ value, action.Yields value ∧ found = f value := by
  rw [map_eq_pure_bind] at h
  obtain ⟨value, hvalue, hfound⟩ := h.exists_of_bind
  exact ⟨value, hvalue, eq_of_yields_pure hfound⟩

end Act

/-! ## Paths of gateway fields -/

namespace FieldInfo

/-- The same field, with another path. -/
def withPath (info : FieldInfo) (path : Path) : FieldInfo :=
  { info with path }

/-- A field has its own path. -/
@[simp]
theorem withPath_path (info : FieldInfo) : info.withPath info.path = info := rfl

end FieldInfo

/-- The field that is known for a member has the path of the object's and the key. -/
theorem Reconstruction.path_of_child {schema : Schema} {info? : Option FieldInfo}
    {other : FieldInfo} {name : Name} {key : String} {type : TypeRef}
    (h : child schema info? name key = .typed (some other) type) :
    ∃ info, info? = some info ∧ other.path = info.path ++ [.key key] := by
  unfold child at h
  split_ifs at h
  dsimp only at h
  split at h
  · rename_i selected hselected
    cases h
    obtain ⟨info, hinfo, hselected⟩ := Option.bind_eq_some_iff.mp hselected
    obtain ⟨nodes, -, hknown⟩ := Option.bind_eq_some_iff.mp hselected
    exact ⟨info, hinfo, (FieldInfo.of_child? hknown).2.2.1⟩
  · cases h
  · cases h

namespace Child

variable {schema : Schema} {info? : Option FieldInfo} {json part : Json} {segment : Segment}
  {known : Child}

/-- The name of a concrete type is a leaf. -/
theorem reading_typename (schema : Schema) (json : Json) :
    Child.typename.reading schema json = .leaf none := by
  cases json <;> rfl

/-- Data of which nothing is known are read without a type. -/
theorem reading_unknown (schema : Schema) (json : Json) :
    Child.unknown.reading schema json = readUntyped json := by
  cases json <;> rfl

/-- Nothing is known about the parts of data whose type is unknown. -/
theorem eq_unknown_of_part?_untyped (h : (readUntyped json).part? segment = some (known, part)) :
    known = .unknown := by
  cases json with
  | null => cases segment <;> cases h
  | bool _ => cases segment <;> cases h
  | int _ => cases segment <;> cases h
  | float _ => cases segment <;> cases h
  | string _ => cases segment <;> cases h
  | array items =>
    cases segment with
    | key key => cases h
    | index position =>
      rw [readUntyped, Reading.part?, List.getElem?_map, Option.map_eq_some_iff] at h
      obtain ⟨item, -, hitem⟩ := h
      cases hitem
      rfl
  | object members =>
    cases segment with
    | index position => cases h
    | key key =>
      have hmember : (Entries.mapValues (fun value => (Child.unknown, value)) members).get? key =
          some (known, part) := h
      rw [Entries.get?_mapValues, Option.map_eq_some_iff] at hmember
      obtain ⟨value, -, hvalue⟩ := hmember
      cases hvalue
      rfl

/-- Nothing is known about the parts of data that are no list and no object of their type. -/
theorem eq_unknown_of_part?_plain {type : TypeRef}
    (h : (readPlain schema type json).part? segment = some (known, part)) : known = .unknown := by
  unfold readPlain at h
  split_ifs at h
  · cases segment <;> cases h
  · exact eq_unknown_of_part?_untyped h

/-- A part of data of a type is an item of a list, a member of an object, or nothing is known about
it. -/
theorem part?_typed_cases {type : TypeRef}
    (h : ((Child.typed info? type).reading schema json).part? segment = some (known, part)) :
    known = .unknown ∨
      (∃ position item, segment = .index position ∧
        known = .typed (info?.map (·.atIndex position)) item) ∨
      ∃ key name, segment = .key key ∧ known = Reconstruction.child schema info? name key := by
  cases json with
  | null => cases segment <;> cases h
  | bool _ => exact .inl (eq_unknown_of_part?_plain h)
  | int _ => exact .inl (eq_unknown_of_part?_plain h)
  | float _ => exact .inl (eq_unknown_of_part?_plain h)
  | string _ => exact .inl (eq_unknown_of_part?_plain h)
  | array items =>
    rw [reading] at h
    cases hitem : type.item? with
    | none =>
      rw [hitem] at h
      exact .inl (eq_unknown_of_part?_plain h)
    | some item =>
      rw [hitem] at h
      cases segment with
      | key key => cases h
      | index position =>
        rw [Reading.part?, List.getElem?_map, List.getElem?_zipIdx, Option.map_map,
          Option.map_eq_some_iff] at h
        obtain ⟨data, -, hdata⟩ := h
        cases hdata
        exact .inr (.inl ⟨position, item, rfl, by rw [Nat.zero_add]⟩)
  | object members =>
    rw [reading] at h
    split_ifs at h
    · cases segment with
      | index position => cases h
      | key key =>
        obtain ⟨member, -, hmember⟩ := List.mem_map.mp (Entries.mem_of_get? h)
        cases hmember
        exact .inr (.inr ⟨member.1, _, rfl, rfl⟩)
    · exact .inl (eq_unknown_of_part?_plain h)

/-- Data of a type are read only in data of a type. -/
theorem exists_typed_of_readAt {type : TypeRef} {path : Path}
    (h : known.readAt schema path json = some (.typed info? type, part)) :
    ∃ outer? outer, known = .typed outer? outer := by
  induction path generalizing known json with
  | nil =>
    cases h
    exact ⟨info?, type, rfl⟩
  | cons segment rest ih =>
    obtain ⟨⟨inner, data⟩, hpart, hrest⟩ := Option.bind_eq_some_iff.mp h
    cases known with
    | typed outer? outer => exact ⟨outer?, outer, rfl⟩
    | typename =>
      rw [reading_typename] at hpart
      cases segment <;> cases hpart
    | unknown =>
      rw [reading_unknown] at hpart
      obtain ⟨_, _, htyped⟩ := ih hrest
      exact absurd (htyped.symm.trans (eq_unknown_of_part?_untyped hpart)) (by simp)

/-- The gateway field that is known at a path has the path of the whole's, followed by this one. -/
theorem path_of_readAt {other : FieldInfo} {type type' : TypeRef} {path : Path}
    (h : (Child.typed info? type).readAt schema path json =
      some (.typed (some other) type', part)) :
    ∃ info, info? = some info ∧ other.path = info.path ++ path := by
  induction path generalizing info? type json with
  | nil =>
    cases h
    exact ⟨other, rfl, (List.append_nil _).symm⟩
  | cons segment rest ih =>
    obtain ⟨⟨inner, data⟩, hpart, hrest⟩ := Option.bind_eq_some_iff.mp h
    obtain ⟨innerInfo?, innerType, rfl⟩ := exists_typed_of_readAt hrest
    obtain ⟨found, hfound, hpath⟩ := ih hrest
    rcases part?_typed_cases hpart with hunknown | ⟨position, item, rfl, hitem⟩ |
      ⟨key, name, rfl, hchild⟩
    · exact absurd hunknown (by simp)
    · cases hitem
      obtain ⟨info, rfl, rfl⟩ := Option.map_eq_some_iff.mp hfound
      exact ⟨info, rfl, hpath.trans (List.append_cons _ _ _).symm⟩
    · rw [hfound] at hchild
      obtain ⟨info, rfl, hinfo⟩ := Reconstruction.path_of_child hchild.symm
      exact ⟨info, rfl, by rw [hpath, hinfo, ← List.append_cons]⟩

end Child

/-! ## Completion by position -/

/-- How objects are completed at each position. -/
abbrev CompletionAt (σ : Type) :=
  Path → FieldInfo → Name → FetchedObject → Act σ FetchedObject

namespace Reconstruction

mutual

/-- Reconstructs the value at a position; an object is completed by where it stands. -/
def valueAt (reconstruction : Reconstruction σ) (complete : CompletionAt σ) (position : Path) :
    Json → List GraphError → Option FieldInfo → TypeRef → Bool → Act σ FetchedValue
  | .null, errors, _, _, _ => pure (FetchedValue.ofErrors reconstruction.owner errors)
  | .array items, errors, info?, type, skipsMerging =>
    match type.item? with
    | some item => do
      warnList reconstruction errors
      warnOutside reconstruction items.length errors
      return .list
        (← itemValuesAt reconstruction complete position errors info? item skipsMerging 0 items)
    | none => plain reconstruction (.array items) errors type
  | .object members, errors, info?, type, skipsMerging =>
    if reconstruction.schema.isComposite type.innerName then do
      let name := concreteType reconstruction.schema members type.innerName
      warnUnknown reconstruction info? name (Entries.keys members)
      let fields ← memberValuesAt reconstruction complete position errors info? name members
      completed { reconstruction with complete := complete position } info? name skipsMerging
        { fields, errors, owner := reconstruction.owner }
    else plain reconstruction (.object members) errors type
  | json, errors, _, type, _ => plain reconstruction json errors type

/-- Reconstructs the items of the list at a position, from an index on. -/
def itemValuesAt (reconstruction : Reconstruction σ) (complete : CompletionAt σ) (position : Path)
    (errors : List GraphError) (info? : Option FieldInfo) (type : TypeRef) (skipsMerging : Bool)
    (index : Nat) : List Json → Act σ (List FetchedValue)
  | [] => pure []
  | item :: rest => do
    let first ← valueAt reconstruction complete (position ++ [.index index]) item
      (errorsOfChild (.index index) errors) (info?.map (·.atIndex index)) type skipsMerging
    return first :: (← itemValuesAt reconstruction complete position errors info? type skipsMerging
      (index + 1) rest)

/-- Reconstructs the members of the object at a position. -/
def memberValuesAt (reconstruction : Reconstruction σ) (complete : CompletionAt σ)
    (position : Path) (errors : List GraphError) (info? : Option FieldInfo) (type : Name) :
    List (String × Json) → Act σ (Entries FetchedValue)
  | [] => pure []
  | (key, json) :: rest => do
    let childErrors := errorsOfChild (.key key) errors
    let first ← match child reconstruction.schema info? type key with
      | .typename => pure (.leaf json)
      | .typed childInfo? childType =>
        valueAt reconstruction complete (position ++ [.key key]) json childErrors childInfo?
          childType false
      | .unknown => untyped reconstruction json childErrors
    return (key, first) ::
      (← memberValuesAt reconstruction complete position errors info? type rest)

end

variable {reconstruction : Reconstruction σ} {complete : CompletionAt σ}
  {complete' : FieldInfo → Name → FetchedObject → Act σ FetchedObject} {position : Path}
  {info? : Option FieldInfo}

/-! ## The path of a field is the position of its object -/

/-- From a position on, objects are completed by where they stand as they are by the paths of fields
that start with the same path. -/
def Agrees (complete : CompletionAt σ)
    (complete' : FieldInfo → Name → FetchedObject → Act σ FetchedObject) (position : Path)
    (info? : Option FieldInfo) : Prop :=
  ∀ info ∈ info?, ∀ rest other, other.path = info.path ++ rest → ∀ type object,
    complete (position ++ rest) other type object = complete' other type object

/-- This is so for the items of a list. -/
theorem Agrees.item (h : Agrees complete complete' position info?) (index : Nat) :
    Agrees complete complete' (position ++ [.index index]) (info?.map (·.atIndex index)) := by
  intro item hitem rest other hpath
  obtain ⟨info, hinfo, rfl⟩ := Option.map_eq_some_iff.mp hitem
  rw [FieldInfo.atIndex, Path.join, ← List.append_cons] at hpath
  rw [← List.append_cons]
  exact h info hinfo _ other hpath

/-- It is so for the members of an object. -/
theorem Agrees.member (h : Agrees complete complete' position info?) {schema : Schema}
    {name : Name} {key : String} {childInfo? : Option FieldInfo} {type : TypeRef}
    (hchild : child schema info? name key = .typed childInfo? type) :
    Agrees complete complete' (position ++ [.key key]) childInfo? := by
  rintro selected rfl rest other hpath
  obtain ⟨info, hinfo, hselected⟩ := path_of_child hchild
  rw [hselected, ← List.append_cons] at hpath
  rw [← List.append_cons]
  exact h info hinfo _ other hpath

/-- An object is completed as it is for its gateway field. -/
theorem Agrees.completed_eq (h : Agrees complete complete' position info?) (type : Name)
    (skipsMerging : Bool) (object : FetchedObject) :
    completed { reconstruction with complete := complete position } info? type skipsMerging object =
      completed { reconstruction with complete := complete' } info? type skipsMerging object := by
  unfold completed
  cases info? with
  | none => rfl
  | some info =>
    have hobject := h info rfl [] info (List.append_nil _).symm type object
    rw [List.append_nil] at hobject
    dsimp only
    rw [hobject]

mutual

/-- The same value is reconstructed by the positions of objects as by the paths of fields. -/
theorem Agrees.valueAt_eq : ∀ (json : Json) (errors : List GraphError)
    {info? : Option FieldInfo} (type : TypeRef) (skipsMerging : Bool) {position : Path},
    Agrees complete complete' position info? →
    reconstruction.valueAt complete position json errors info? type skipsMerging =
      value { reconstruction with complete := complete' } json errors info? type skipsMerging
  | .null, _, _, _, _, _, _ => rfl
  | .array items, errors, info?, type, skipsMerging, _, h => by
    rw [valueAt, value]
    cases type.item? with
    | none => exact (plain_congr _ _ _).symm
    | some item =>
      dsimp only
      rw [Agrees.itemValuesAt_eq items errors item skipsMerging 0 h]
      rfl
  | .object members, errors, info?, type, skipsMerging, _, h => by
    rw [valueAt, value, @plain_congr σ reconstruction complete']
    dsimp only
    rw [Agrees.memberValuesAt_eq members errors _ h]
    simp only [h.completed_eq]
    rfl
  | .bool _, _, _, _, _, _, _ | .int _, _, _, _, _, _, _ | .float _, _, _, _, _, _, _
  | .string _, _, _, _, _, _, _ => (plain_congr _ _ _).symm

/-- So are the items of a list. -/
theorem Agrees.itemValuesAt_eq : ∀ (items : List Json) (errors : List GraphError)
    {info? : Option FieldInfo} (type : TypeRef) (skipsMerging : Bool) (index : Nat)
    {position : Path}, Agrees complete complete' position info? →
    reconstruction.itemValuesAt complete position errors info? type skipsMerging index items =
      itemValues { reconstruction with complete := complete' } errors info? type skipsMerging index
        items
  | [], _, _, _, _, _, _, _ => rfl
  | item :: rest, errors, info?, type, skipsMerging, index, _, h => by
    rw [itemValuesAt, itemValues, Agrees.valueAt_eq item _ type skipsMerging (h.item index),
      Agrees.itemValuesAt_eq rest errors type skipsMerging (index + 1) h]

/-- So are the members of an object. -/
theorem Agrees.memberValuesAt_eq : ∀ (members : List (String × Json)) (errors : List GraphError)
    {info? : Option FieldInfo} (type : Name) {position : Path},
    Agrees complete complete' position info? →
    reconstruction.memberValuesAt complete position errors info? type members =
      memberValues { reconstruction with complete := complete' } errors info? type members
  | [], _, _, _, _, _ => rfl
  | (key, json) :: rest, errors, info?, type, _, h => by
    rw [memberValuesAt, memberValues, Agrees.memberValuesAt_eq rest errors type h]
    dsimp only
    cases hchild : child reconstruction.schema info? type key with
    | typename => rfl
    | unknown =>
      dsimp only
      rw [@untyped_congr σ reconstruction complete']
    | typed childInfo? childType =>
      dsimp only
      rw [Agrees.valueAt_eq json _ childType false (h.member hchild)]

end

/-! ## The position of an object is where it is put -/

/-- Objects are completed by answers that are merged into them. -/
def Completes (merges : FetchedObject → List FetchedValue → Prop) (complete : CompletionAt σ) :
    Prop :=
  ∀ position info type object result, (complete position info type object).Yields result →
    ∃ answers, merges object answers ∧ result = object.mergeAnswers answers

/-- In a value that is reconstructed from data at a position, the objects of gateway fields are put
where the data have them, as what they are completed to at this position. When merging is skipped,
this starts with the members of objects. -/
def Placed (reconstruction : Reconstruction σ)
    (merges : FetchedObject → List FetchedValue → Prop) (complete : CompletionAt σ)
    (position : Path) (skipsMerging : Bool) (known : Child) (json : Json) (value : FetchedValue) :
    Prop :=
  ∀ path other type members,
    known.readAt reconstruction.schema path json =
      some (.typed (some other) type, .object members) →
    reconstruction.schema.isComposite type.innerName = true →
    (skipsMerging = true → ∃ key, .key key ∈ path) →
    ∃ object result : FetchedObject, object.keys = Entries.keys members ∧
      (complete (position ++ path) other
        (concreteType reconstruction.schema members type.innerName) object).Yields result ∧
      FetchedValue.PutAt merges (.object result) value path

/-- A part of data is reconstructed to the part of a value behind the same segment. -/
def PartPlaced (reconstruction : Reconstruction σ)
    (merges : FetchedObject → List FetchedValue → Prop) (complete : CompletionAt σ)
    (position : Path) (skipsMerging : Bool) (part : Segment × Child × Json)
    (value : Segment × FetchedValue) : Prop :=
  value.1 = part.1 ∧ reconstruction.Placed merges complete (position ++ [part.1]) skipsMerging
    part.2.1 part.2.2 value.2

section Placed

variable {merges : FetchedObject → List FetchedValue → Prop} {known : Child} {json : Json}
  {skipsMerging : Bool}

/-- Where nothing is known about the parts of data, there are no objects of gateway fields. -/
theorem placed_of_unknown
    (hroot : ∀ info? type members, known = .typed info? type → json = .object members →
      ¬ reconstruction.schema.isComposite type.innerName = true)
    (hparts : ∀ segment inner part,
      (known.reading reconstruction.schema json).part? segment = some (inner, part) →
      inner = .unknown) (value : FetchedValue) :
    reconstruction.Placed merges complete position skipsMerging known json value := by
  intro path other type members hread hcomposite _
  cases path with
  | nil =>
    cases hread
    exact absurd hcomposite (hroot _ _ _ rfl rfl)
  | cons segment rest =>
    obtain ⟨⟨inner, part⟩, hpart, hrest⟩ := Option.bind_eq_some_iff.mp hread
    obtain rfl := hparts segment inner part hpart
    obtain ⟨_, _, htyped⟩ := Child.exists_typed_of_readAt hrest
    cases htyped

/-- The name of a concrete type has no objects in it. -/
theorem placed_typename {value : FetchedValue} :
    reconstruction.Placed merges complete position skipsMerging .typename json value := by
  refine placed_of_unknown (by simp) (fun segment _ _ hpart => ?_) value
  rw [Child.reading_typename] at hpart
  cases segment <;> cases hpart

/-- Data whose type is unknown have no objects of gateway fields. -/
theorem placed_untyped {value : FetchedValue} :
    reconstruction.Placed merges complete position skipsMerging .unknown json value := by
  refine placed_of_unknown (by simp) (fun segment _ _ hpart => ?_) value
  rw [Child.reading_unknown] at hpart
  exact Child.eq_unknown_of_part?_untyped hpart

/-- Data that are no list and no object of their type have no objects of gateway fields. -/
theorem placed_plain {type : TypeRef}
    (hreading : (Child.typed info? type).reading reconstruction.schema json =
      Child.readPlain reconstruction.schema type json)
    (hroot : ∀ members, json = .object members →
      ¬ reconstruction.schema.isComposite type.innerName = true) (value : FetchedValue) :
    reconstruction.Placed merges complete position skipsMerging (.typed info? type) json value := by
  refine placed_of_unknown ?_ ?_ value
  · intro _ _ members htyped hjson
    cases htyped
    exact hroot members hjson
  · intro segment inner part hpart
    rw [hreading] at hpart
    exact Child.eq_unknown_of_part?_plain hpart

/-- The objects of items stand in the list. -/
theorem placed_list {declared : Bool} {items : List (Child × Json)} {values : List FetchedValue}
    (hreading : known.reading reconstruction.schema json = .list declared items)
    (h : List.Forall₂ (reconstruction.PartPlaced merges complete position skipsMerging)
      (indexed 0 items) (indexed 0 values)) :
    reconstruction.Placed merges complete position skipsMerging known json (.list values) := by
  intro path other type members hread hcomposite hskips
  cases path with
  | nil =>
    cases hread
    exact absurd (Child.of_reading_list hreading).1 (by simp)
  | cons segment rest =>
    obtain ⟨⟨inner, part⟩, hpart, hrest⟩ := Option.bind_eq_some_iff.mp hread
    rw [hreading] at hpart
    cases segment with
    | key key => cases hpart
    | index index =>
      obtain ⟨value, hvalue, -, hplaced⟩ :=
        exists_getElem?_of_forall₂ h (fun _ _ hpart => hpart.1) hpart
      have hskips' : skipsMerging = true → ∃ key, Segment.key key ∈ rest := by
        intro hskip
        obtain ⟨key, hkey⟩ := hskips hskip
        exact ⟨key, (List.mem_cons.mp hkey).resolve_left (by simp)⟩
      obtain ⟨object, result, hkeys, hresult, hput⟩ :=
        hplaced rest other type members hrest hcomposite hskips'
      rw [← List.append_cons] at hresult
      exact ⟨object, result, hkeys, hresult, .item hvalue hput⟩

/-- The objects of members stand in the object, and the object itself is what it is completed
to. -/
theorem placed_object {declared : Bool} {members : List (String × Child × Json)}
    {fields : Entries FetchedValue} {result : FetchedObject}
    (hreading : known.reading reconstruction.schema json = .object declared members)
    (hroot : ∀ other type members, known = .typed (some other) type → json = .object members →
      skipsMerging = false → ∃ object : FetchedObject, object.keys = Entries.keys members ∧
        (complete position other (concreteType reconstruction.schema members type.innerName)
          object).Yields result)
    (hresult : ∃ object : FetchedObject, object.fields = fields ∧
      (result = object ∨ ∃ answers, merges object answers ∧ result = object.mergeAnswers answers))
    (h : List.Forall₂ (reconstruction.PartPlaced merges complete position false)
      (keyed members) (keyed fields)) :
    reconstruction.Placed merges complete position skipsMerging known json (.object result) := by
  intro path other type data hread hcomposite hskips
  cases path with
  | nil =>
    cases hread
    have hmerges : skipsMerging = false := by
      rw [← Bool.not_eq_true]
      intro hskip
      obtain ⟨key, hkey⟩ := hskips hskip
      exact absurd hkey List.not_mem_nil
    obtain ⟨object, hkeys, hresult⟩ := hroot _ _ _ rfl rfl hmerges
    rw [← List.append_nil position] at hresult
    exact ⟨object, result, hkeys, hresult, .here⟩
  | cons segment rest =>
    obtain ⟨⟨inner, part⟩, hpart, hrest⟩ := Option.bind_eq_some_iff.mp hread
    rw [hreading] at hpart
    cases segment with
    | index index => cases hpart
    | key key =>
      obtain ⟨value, hvalue, -, hplaced⟩ :=
        exists_get?_of_forall₂ h (fun _ _ hpart => hpart.1) hpart
      obtain ⟨object, inside, hkeys, hinside, hput⟩ :=
        hplaced rest other type data hrest hcomposite (by simp)
      rw [← List.append_cons] at hinside
      refine ⟨object, inside, hkeys, hinside, ?_⟩
      obtain ⟨outer, rfl, rfl | ⟨answers, hmerged, rfl⟩⟩ := hresult
      · exact .field hvalue hput
      · exact .answered hmerged (.field hvalue hput)

end Placed

/-- An object stays what it is, when it answers no gateway field or merging is skipped, or else it
is completed for its field. -/
theorem exists_of_completed {type : Name} {skipsMerging : Bool} {object : FetchedObject}
    {value : FetchedValue}
    (h : (completed { reconstruction with complete := complete position } info? type skipsMerging
      object).Yields value) :
    ∃ result, value = .object result ∧
      (result = object ∧ (info? = none ∨ skipsMerging = true) ∨
        ∃ info, info? = some info ∧ skipsMerging = false ∧
          (complete position info type object).Yields result) := by
  unfold completed at h
  cases info? with
  | none => exact ⟨object, Act.eq_of_yields_pure h, .inl ⟨rfl, .inl rfl⟩⟩
  | some info =>
    cases skipsMerging with
    | true => exact ⟨object, Act.eq_of_yields_pure h, .inl ⟨rfl, .inr rfl⟩⟩
    | false =>
      obtain ⟨result, hresult, hvalue⟩ := h.exists_of_map
      exact ⟨result, hvalue, .inr ⟨info, rfl, rfl, hresult⟩⟩

mutual

/-- Objects of gateway fields are put in the value as what they are completed to, at the positions
by which they are. -/
theorem placed_valueAt (hcompletes : Completes merges complete) : ∀ (json : Json)
    (errors : List GraphError) (info? : Option FieldInfo) (type : TypeRef) (skipsMerging : Bool)
    (position : Path) (value : FetchedValue),
    (reconstruction.valueAt complete position json errors info? type skipsMerging).Yields value →
    reconstruction.Placed merges complete position skipsMerging (.typed info? type) json value
  | .null, _, _, _, _, _, _, _ =>
    placed_of_unknown (by simp) (fun segment _ _ hpart => by cases segment <;> cases hpart) _
  | .array items, errors, info?, type, skipsMerging, position, value, hvalue => by
    rw [valueAt] at hvalue
    cases hitem : type.item? with
    | none => exact placed_plain (by rw [Child.reading, hitem]) (by simp) _
    | some item =>
      rw [hitem] at hvalue
      obtain ⟨_, -, hvalue⟩ := hvalue.exists_of_bind
      obtain ⟨_, -, hvalue⟩ := hvalue.exists_of_bind
      obtain ⟨values, hvalues, hvalue⟩ := hvalue.exists_of_bind
      obtain rfl := Act.eq_of_yields_pure hvalue
      exact placed_list (by rw [Child.reading, hitem])
        (partPlaced_itemValuesAt hcompletes items errors info? item skipsMerging 0 position values
          hvalues)
  | .object members, errors, info?, type, skipsMerging, position, value, hvalue => by
    rw [valueAt] at hvalue
    by_cases hcomposite : reconstruction.schema.isComposite type.innerName = true
    · rw [if_pos hcomposite] at hvalue
      obtain ⟨_, -, hvalue⟩ := hvalue.exists_of_bind
      obtain ⟨fields, hfields, hvalue⟩ := hvalue.exists_of_bind
      have hparts := partPlaced_memberValuesAt hcompletes members errors info? _ position fields
        hfields
      have hreading : (Child.typed info? type).reading reconstruction.schema (.object members) =
          .object true (members.map fun member =>
            (member.1, child reconstruction.schema info?
              (concreteType reconstruction.schema members type.innerName) member.1, member.2)) := by
        rw [Child.reading, if_pos hcomposite]
      have hkeys : Entries.keys fields = Entries.keys members := by
        rw [keys_eq_of_forall₂ hparts fun _ _ hpart => hpart.1]
        unfold Entries.keys
        rw [List.map_map]
        rfl
      obtain ⟨result, rfl, hresult⟩ := exists_of_completed hvalue
      refine placed_object hreading ?_ ?_ hparts
      · intro other _ _ hknown hjson hmerges
        cases hknown
        cases hjson
        rcases hresult with ⟨-, hnone | hskips⟩ | ⟨info, hinfo, -, hresult⟩
        · cases hnone
        · exact absurd (hmerges.symm.trans hskips) Bool.false_ne_true
        · cases hinfo
          exact ⟨{ fields, errors, owner := reconstruction.owner }, hkeys, hresult⟩
      · refine ⟨{ fields, errors, owner := reconstruction.owner }, rfl, ?_⟩
        rcases hresult with ⟨rfl, -⟩ | ⟨info, -, -, hresult⟩
        · exact .inl rfl
        · exact .inr (hcompletes _ _ _ _ _ hresult)
    · rw [if_neg hcomposite] at hvalue
      exact placed_plain (by rw [Child.reading, if_neg hcomposite]) (by simpa using hcomposite) _
  | .bool _, _, _, _, _, _, _, _ | .int _, _, _, _, _, _, _, _ | .float _, _, _, _, _, _, _, _
  | .string _, _, _, _, _, _, _, _ => placed_plain rfl (by simp) _

/-- So do those of the items of a list. -/
theorem partPlaced_itemValuesAt (hcompletes : Completes merges complete) : ∀ (items : List Json)
    (errors : List GraphError) (info? : Option FieldInfo) (type : TypeRef) (skipsMerging : Bool)
    (index : Nat) (position : Path) (values : List FetchedValue),
    (reconstruction.itemValuesAt complete position errors info? type skipsMerging index
      items).Yields values →
    List.Forall₂ (reconstruction.PartPlaced merges complete position skipsMerging)
      (indexed index ((items.zipIdx index).map fun part =>
        (Child.typed (info?.map (·.atIndex part.2)) type, part.1)))
      (indexed index values)
  | [], _, _, _, _, _, _, _, hvalues => by
    cases Act.eq_of_yields_pure hvalues
    exact .nil
  | item :: rest, errors, info?, type, skipsMerging, index, position, values, hvalues => by
    rw [itemValuesAt] at hvalues
    obtain ⟨first, hfirst, hvalues⟩ := hvalues.exists_of_bind
    obtain ⟨others, hothers, hvalues⟩ := hvalues.exists_of_bind
    obtain rfl := Act.eq_of_yields_pure hvalues
    rw [List.zipIdx_cons, List.map_cons, indexed_cons, indexed_cons]
    exact .cons ⟨rfl, placed_valueAt hcompletes item _ _ type skipsMerging _ first hfirst⟩
      (partPlaced_itemValuesAt hcompletes rest errors info? type skipsMerging (index + 1) position
        others hothers)

/-- So do those of the members of an object. -/
theorem partPlaced_memberValuesAt (hcompletes : Completes merges complete) :
    ∀ (members : List (String × Json)) (errors : List GraphError) (info? : Option FieldInfo)
    (type : Name) (position : Path) (fields : Entries FetchedValue),
    (reconstruction.memberValuesAt complete position errors info? type members).Yields fields →
    List.Forall₂ (reconstruction.PartPlaced merges complete position false)
      (keyed (members.map fun member =>
        (member.1, child reconstruction.schema info? type member.1, member.2)))
      (keyed fields)
  | [], _, _, _, _, _, hfields => by
    cases Act.eq_of_yields_pure hfields
    exact .nil
  | (key, json) :: rest, errors, info?, type, position, fields, hfields => by
    -- Whatever is known about the first member, the others follow once it is read.
    have hmembers : ∀ first,
        reconstruction.Placed merges complete (position ++ [.key key]) false
          (child reconstruction.schema info? type key) json first →
        Act.Yields (do return (key, first) ::
          (← reconstruction.memberValuesAt complete position errors info? type rest)) fields →
        List.Forall₂ (reconstruction.PartPlaced merges complete position false)
          (keyed (((key, json) :: rest).map fun member =>
            (member.1, child reconstruction.schema info? type member.1, member.2)))
          (keyed fields) := by
      intro first hfirst hfields
      obtain ⟨others, hothers, hfields⟩ := hfields.exists_of_bind
      obtain rfl := Act.eq_of_yields_pure hfields
      exact .cons ⟨rfl, hfirst⟩
        (partPlaced_memberValuesAt hcompletes rest errors info? type position others hothers)
    rw [memberValuesAt] at hfields
    cases hchild : child reconstruction.schema info? type key with
    | typename =>
      rw [hchild] at hfields hmembers
      obtain ⟨first, -, hfields⟩ := Act.Yields.exists_of_bind hfields
      exact hmembers first placed_typename hfields
    | typed childInfo? childType =>
      rw [hchild] at hfields hmembers
      obtain ⟨first, hfirst, hfields⟩ := Act.Yields.exists_of_bind hfields
      exact hmembers first
        (placed_valueAt hcompletes json _ childInfo? childType false _ first hfirst) hfields
    | unknown =>
      rw [hchild] at hfields hmembers
      obtain ⟨first, -, hfields⟩ := Act.Yields.exists_of_bind hfields
      exact hmembers first placed_untyped hfields

end

end Reconstruction

end Gateway
