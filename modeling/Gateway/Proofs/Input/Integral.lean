import Gateway.Input.Literal
import Gateway.Proofs.Input.Projected
import Mathlib

/-!
# Integers of literals

A literal that is built of integers has a JSON value of the same structure, in which each integer
that fits in a signed word is this integer (`Literal.Denotes`). Serializing it for its input type
leaves out undeclared fields, and nothing else (`Literal.Carries`, `Literal.IntegralFor.carries`).

Greater integers that fit in an unsigned word become doubles: of their 64 bits the last eleven are
rounded (`Double.ofDecimal_wide`).
-/

namespace Gateway

/-! ## Integers as doubles -/

namespace Double

/-- The number that a double stands for, when it is whole and not negative. -/
def whole (x : Double) : Nat :=
  x.significand * 2 ^ x.exponent.toNat

/-- Eleven bits are rounded by at most a half. -/
theorem roundQuotient_near (n : Nat) :
    2048 * roundQuotient n 2048 ≤ n + 1024 ∧ n ≤ 2048 * roundQuotient n 2048 + 1024 := by
  unfold roundQuotient
  dsimp only
  split
  · omega
  · split <;> omega

/-- How the double nearest to an integer of 64 bits is encoded. -/
theorem nearestMagnitude_wide {n : Nat} (hlow : 2 ^ 63 ≤ n) (hhigh : n < 2 ^ 64) :
    nearestMagnitude n 1 = roundQuotient n 2048 + 1085 * 2 ^ 52 := by
  have hlog : n.log2 = 63 := (Nat.log2_eq_iff (by omega)).mpr ⟨hlow, hhigh⟩
  have hzero : n ≠ 0 := by omega
  have hk : ((n.log2 : Nat) : Int) - ((Nat.log2 1 : Nat) : Int) = 63 := by
    rw [hlog]
    rfl
  have hbelow : decide (n < 1 * Nat.pow 2 (Int.toNat 63)) = false :=
    decide_eq_false (Nat.not_lt.mpr hlow)
  have he : max ((63 : Int) - 52) (-1074) = 11 := by decide
  have hscale : 1 * Nat.pow 2 (Int.toNat 11) = 2048 := by decide
  have hbias : Int.toNat (11 + 1075) = 1086 := by decide
  have hpow : Nat.pow 2 52 = 2 ^ 52 := rfl
  obtain ⟨hless, hmore⟩ := roundQuotient_near n
  unfold nearestMagnitude infinityBits
  rw [if_neg hzero]
  dsimp only
  rw [hk, if_pos (by decide : (63 : Int) ≥ 0), hbelow, if_neg Bool.false_ne_true, he,
    if_pos (by decide : (11 : Int) ≥ 0), hscale, hbias, hpow, if_neg (by omega)]
  omega

/-- An integer of 64 bits is at most `2^10` away from the double nearest to it. -/
theorem ofDecimal_wide {n : Nat} (hlow : 2 ^ 63 ≤ n) (hhigh : n < 2 ^ 64) :
    (ofDecimal false n 0).isFinite = true ∧
      (ofDecimal false n 0).whole ≤ n + 2 ^ 10 ∧ n ≤ (ofDecimal false n 0).whole + 2 ^ 10 := by
  obtain ⟨hless, hmore⟩ := roundQuotient_near n
  have hbits : (ofDecimal false n 0).bits.toNat = roundQuotient n 2048 + 1085 * 2 ^ 52 := by
    have hzero : n ≠ 0 := by omega
    unfold ofDecimal ofParts
    simp [hzero, nearestMagnitude_wide hlow hhigh]
    omega
  have hpow : Nat.pow 2 52 = 2 ^ 52 := rfl
  unfold isFinite whole significand exponent exponentBits fractionBits
  rw [hbits, hpow]
  generalize roundQuotient n 2048 = m at hless hmore ⊢
  clear hbits hpow
  -- Rounding up may carry into the exponent.
  rcases Nat.lt_or_ge m (2 ^ 53) with hm | hm
  · have hexponent : (m + 1085 * 2 ^ 52) / 2 ^ 52 % 2048 = 1086 := by omega
    have hfraction : (m + 1085 * 2 ^ 52) % 2 ^ 52 = m - 2 ^ 52 := by omega
    have hshift : Int.toNat ((1086 : Nat) - 1075) = 11 := by decide
    have hnormal : (1086 : Nat) ≠ 0 := by omega
    have hscaled : (m - 2 ^ 52 + 2 ^ 52) * 2 ^ 11 = 2048 * m := by omega
    simp only [hexponent, hfraction, hshift, if_neg hnormal, hscaled]
    exact ⟨rfl, hless, hmore⟩
  · have hexponent : (m + 1085 * 2 ^ 52) / 2 ^ 52 % 2048 = 1087 := by omega
    have hfraction : (m + 1085 * 2 ^ 52) % 2 ^ 52 = 0 := by omega
    have hshift : Int.toNat ((1087 : Nat) - 1075) = 12 := by decide
    have hnormal : (1087 : Nat) ≠ 0 := by omega
    have hscaled : (0 + 2 ^ 52) * 2 ^ 12 = 2048 * m := by omega
    simp only [hexponent, hfraction, hshift, if_neg hnormal, hscaled]
    exact ⟨rfl, hless, hmore⟩

end Double

/-- How a JSON number holds an integer: as it is when it fits in a signed word, or else as a double
close to it. -/
inductive Json.Holds : Int → Json → Prop
  /-- The integer. -/
  | exact {n : Int} (fits : Json.fitsInt64 n = true) : Json.Holds n (.int n)
  /-- A double near to a greater integer. -/
  | near {n : Int} {x : Double} (wide : Json.fitsInt64 n = false) (finite : x.isFinite = true)
    (above : (x.whole : Int) ≤ n + 2 ^ 10) (below : n ≤ x.whole + 2 ^ 10) : Json.Holds n (.float x)

/-- An integer that fits in a word is held. -/
theorem Json.holds_ofInt64? {n : Int} (h : Json.fitsWord n = true) :
    ∃ json, Json.ofInt64? n = some json ∧ Json.Holds n json := by
  unfold Json.ofInt64?
  cases hfits : Json.fitsInt64 n with
  | true => exact ⟨.int n, by rw [if_pos rfl], .exact hfits⟩
  | false =>
    have hbounds := of_decide_eq_true h
    have hwide := of_decide_eq_false hfits
    have hpow : Int.pow 2 63 = 2 ^ 63 ∧ Int.pow 2 64 = 2 ^ 64 := ⟨rfl, rfl⟩
    rw [hpow.1] at hwide hbounds
    rw [hpow.2] at hbounds
    obtain ⟨m, rfl⟩ := Int.eq_ofNat_of_zero_le (by omega : 0 ≤ n)
    obtain ⟨hfinite, habove, hbelow⟩ := Double.ofDecimal_wide (by omega : 2 ^ 63 ≤ m) (by omega)
    have hsign : decide ((m : Int) < 0) = false := decide_eq_false (by omega)
    refine ⟨.float (Double.ofDecimal false m 0), ?_, .near hfits hfinite (by omega) (by omega)⟩
    rw [if_neg Bool.false_ne_true, hsign, Int.natAbs_natCast, Json.ofDouble?, if_pos hfinite]

/-- The greatest integer of an unsigned word becomes the power of two above it. -/
example : Json.ofInt64? 18446744073709551615 = some (.float ⟨0x43F0000000000000⟩) := by
  decide +kernel

namespace Literal

/-! ## Literals of integers -/

/-- A literal is built of integers that fit in a word. -/
inductive IsIntegral : Literal → Prop
  /-- An integer. -/
  | int {text : String} {n : Int} (reads : text.toInt? = some n) (fits : Json.fitsWord n = true) :
    IsIntegral (.int text)
  /-- A list of such literals. -/
  | list {items : List Literal} (each : ∀ item ∈ items, IsIntegral item) : IsIntegral (.list items)
  /-- An object of such literals. -/
  | object {fields : List (Name × Literal)} (each : ∀ entry ∈ fields, IsIntegral entry.2) :
    IsIntegral (.object fields)

/-- A JSON value has the structure of a literal, and holds its integers. -/
inductive Denotes : Literal → Json → Prop
  /-- An integer is held. -/
  | int {text : String} {n : Int} {json : Json} (reads : text.toInt? = some n)
    (holds : Json.Holds n json) : Denotes (.int text) json
  /-- A list goes item by item. -/
  | list {items : List Literal} {values : List Json} (each : List.Forall₂ Denotes items values) :
    Denotes (.list items) (.array values)
  /-- An object goes field by field; of two fields of one name the later counts. -/
  | object {fields : List (Name × Literal)} {members : List (String × Json)}
    (names : members.map Prod.fst = fields.map Prod.fst)
    (each : List.Forall₂ Denotes (fields.map Prod.snd) (members.map Prod.snd)) :
    Denotes (.object fields) (.object (Entries.ofPairs members))

/-- A literal is built of integers, objects according to their types. Whatever an input object does
not declare may be anything. -/
inductive IntegralFor (schema : Schema) : TypeRef → Literal → Prop
  /-- Where no input object is expected. -/
  | leaf {type : TypeRef} {literal : Literal} (leaf : schema.inputFields? type.innerName = none)
    (integral : literal.IsIntegral) : IntegralFor schema type literal
  /-- A list for a list type. -/
  | list {type item : TypeRef} {items : List Literal} (listed : type.item? = some item)
    (each : ∀ literal ∈ items, IntegralFor schema item literal) :
    IntegralFor schema type (.list items)
  /-- An object for an input object type, or for a list of it. -/
  | object {type : TypeRef} {inputs : List InputValue} {fields : List (Name × Literal)}
    (declared : schema.inputFields? type.innerName = some inputs)
    (each : ∀ entry ∈ fields, ∀ input ∈ inputs, input.name = entry.1 →
      IntegralFor schema input.type entry.2) : IntegralFor schema type (.object fields)

/-- A JSON value has the structure of a literal and holds its integers, but that it leaves out what
input objects do not declare. -/
inductive Carries (schema : Schema) : TypeRef → Literal → Json → Prop
  /-- Where no input object is expected nothing is left out. -/
  | leaf {type : TypeRef} {literal : Literal} {json : Json}
    (leaf : schema.inputFields? type.innerName = none) (denotes : literal.Denotes json) :
    Carries schema type literal json
  /-- A list goes item by item. -/
  | list {type item : TypeRef} {items : List Literal} {values : List Json}
    (listed : type.item? = some item) (length : values.length = items.length)
    (each : ∀ (position : Nat) literal json, items[position]? = some literal →
      values[position]? = some json → Carries schema item literal json) :
    Carries schema type (.list items) (.array values)
  /-- An object has the declared fields that are given, in the order of the declaration. -/
  | object {type : TypeRef} {inputs : List InputValue} {fields : List (Name × Literal)}
    {kept : Entries Json} (declared : schema.inputFields? type.innerName = some inputs)
    (names : kept.keys = (inputs.map InputValue.name).filter (· ∈ Entries.keys fields))
    (each : ∀ input ∈ inputs, ∀ literal json,
      (Entries.ofPairs fields).get? input.name = some literal → kept.get? input.name = some json →
        Carries schema input.type literal json) :
    Carries schema type (.object fields) (.object kept)

/-! ## Values of literals -/

variable {vars : Entries Json} {fields : List (Name × Literal)}

/-- The values of the items of a list are taken one by one. -/
theorem toJsonItems_eq_map (items : List Literal) :
    toJsonItems vars items = items.map fun item => (item.toJson? vars).getD .null := by
  induction items with
  | nil => rw [toJsonItems, List.map_nil]
  | cons item rest ih => rw [toJsonItems, List.map_cons, ih]

/-- The member of an object for a field, if this has a value. -/
def member? (vars : Entries Json) (entry : Name × Literal) : Option (String × Json) :=
  (entry.2.toJson? vars).map (Prod.mk entry.1)

/-- The members of an object are those of its fields; the later ones count. -/
theorem toJsonFields_eq_insertAll (done : Entries Json) :
    toJsonFields vars done fields = done.insertAll (fields.filterMap (member? vars)) := by
  induction fields generalizing done with
  | nil => rw [toJsonFields, List.filterMap_nil, Entries.insertAll, List.foldl_nil]
  | cons entry rest ih =>
    obtain ⟨name, literal⟩ := entry
    rw [toJsonFields]
    cases hjson : literal.toJson? vars with
    | none =>
      have hnone : member? vars (name, literal) = none := by
        rw [member?, hjson, Option.map_none]
      rw [List.filterMap_cons_none hnone]
      exact ih done
    | some json =>
      have hsome : member? vars (name, literal) = some (name, json) := by
        rw [member?, hjson, Option.map_some]
      rw [List.filterMap_cons_some hsome]
      exact ih (done.insert name json)

/-- The value of an object is made of the members for its fields. -/
theorem toJsonFields_eq_ofPairs :
    toJsonFields vars [] fields = Entries.ofPairs (fields.filterMap (member? vars)) :=
  toJsonFields_eq_insertAll []

/-- Under a name an object has the value of the last field of that name, when all fields of the name
have values. -/
theorem get?_toJsonFields {name : Name}
    (h : ∀ entry ∈ fields, entry.1 = name → (entry.2.toJson? vars).isSome) :
    Entries.get? (toJsonFields vars [] fields) name =
      ((Entries.ofPairs fields).get? name).bind (toJson? vars) := by
  rw [toJsonFields_eq_ofPairs, Entries.get?_ofPairs, Entries.get?_ofPairs, ← List.filterMap_reverse]
  have hreverse : ∀ entry ∈ fields.reverse, entry.1 = name → (entry.2.toJson? vars).isSome :=
    fun entry hmem => h entry (List.mem_reverse.mp hmem)
  generalize fields.reverse = entries at hreverse
  induction entries with
  | nil => rfl
  | cons entry rest ih =>
    obtain ⟨hfirst, hrest⟩ := List.forall_mem_cons.mp hreverse
    have hlater := ih hrest
    cases hmember : member? vars entry with
    | none =>
      have hnone : entry.2.toJson? vars = none := Option.map_eq_none_iff.mp hmember
      have hname : name ≠ entry.1 := by
        rintro rfl
        rw [hnone] at hfirst
        exact Bool.false_ne_true (hfirst rfl)
      rw [List.filterMap_cons_none hmember, Entries.get?_cons, if_neg hname, hlater]
    | some made =>
      obtain ⟨json, hjson, rfl⟩ := Option.map_eq_some_iff.mp hmember
      rw [List.filterMap_cons_some hmember, Entries.get?_cons, Entries.get?_cons]
      by_cases hname : name = entry.1
      · rw [if_pos hname, if_pos hname, Option.bind_some, hjson]
      · rw [if_neg hname, if_neg hname, hlater]

/-- A list whose items have values that denote has a value that does. -/
theorem denotes_items {items : List Literal}
    (h : ∀ item ∈ items, ∃ json, item.toJson? vars = some json ∧ item.Denotes json) :
    List.Forall₂ Denotes items (toJsonItems vars items) := by
  induction items with
  | nil =>
    rw [toJsonItems]
    exact .nil
  | cons item rest ih =>
    obtain ⟨⟨json, hjson, hdenotes⟩, hrest⟩ := List.forall_mem_cons.mp h
    -- The item does not become null, because it has a value.
    rw [toJsonItems, hjson]
    exact .cons hdenotes (ih hrest)

/-- Fields whose literals have values that denote have members that do, under the same names. -/
theorem denotes_members
    (h : ∀ entry ∈ fields, ∃ json, entry.2.toJson? vars = some json ∧ entry.2.Denotes json) :
    (fields.filterMap (member? vars)).map Prod.fst = fields.map Prod.fst ∧
      List.Forall₂ Denotes (fields.map Prod.snd)
        ((fields.filterMap (member? vars)).map Prod.snd) := by
  induction fields with
  | nil => exact ⟨rfl, .nil⟩
  | cons entry rest ih =>
    obtain ⟨⟨json, hjson, hdenotes⟩, hrest⟩ := List.forall_mem_cons.mp h
    obtain ⟨hnames, hvalues⟩ := ih hrest
    -- The field is not left out, because it has a value.
    have hmember : member? vars entry = some (entry.1, json) := by
      rw [member?, hjson, Option.map_some]
    rw [List.filterMap_cons_some hmember]
    exact ⟨congrArg (List.cons _) hnames, .cons hdenotes hvalues⟩

/-- Literals of integers have values, which hold these integers. -/
theorem IsIntegral.denotes {literal : Literal} (h : literal.IsIntegral) (vars : Entries Json) :
    ∃ json, literal.toJson? vars = some json ∧ literal.Denotes json := by
  induction h with
  | @int text n reads fits =>
    obtain ⟨json, hjson, hholds⟩ := Json.holds_ofInt64? fits
    refine ⟨json, ?_, .int reads hholds⟩
    rw [toJson?, intValue?, reads, Option.bind_some, hjson]
  | @list items _ ih => exact ⟨_, by rw [toJson?], .list (denotes_items ih)⟩
  | @object fields _ ih =>
    obtain ⟨hnames, hvalues⟩ := denotes_members ih
    refine ⟨_, by rw [toJson?], ?_⟩
    rw [toJsonFields_eq_ofPairs]
    exact .object hnames hvalues

/-! ## Serialized values of literals -/

variable {schema : Schema}

/-- The names of what is kept are those of the declared fields for which something is. -/
theorem keys_kept_eq_filter {members : Entries Json} {inputs : List InputValue}
    {given : Name → Bool}
    (h : ∀ input ∈ inputs, (schema.keptMember members input).isSome = given input.name) :
    Entries.keys (inputs.filterMap (schema.keptMember members)) =
      (inputs.map InputValue.name).filter given := by
  induction inputs with
  | nil => rfl
  | cons input rest ih =>
    obtain ⟨hfirst, hrest⟩ := List.forall_mem_cons.mp h
    have hlater := ih hrest
    rw [List.map_cons]
    cases hkept : schema.keptMember members input with
    | none =>
      rw [hkept] at hfirst
      rw [List.filterMap_cons_none hkept, List.filter_cons_of_neg (by simp [← hfirst]), hlater]
    | some entry =>
      rw [hkept] at hfirst
      obtain ⟨value, -, rfl⟩ := Option.map_eq_some_iff.mp hkept
      rw [List.filterMap_cons_some hkept, List.filter_cons_of_pos hfirst.symm]
      exact congrArg (List.cons _) hlater

/-- The serialized value of a literal of integers is there, and carries them. -/
theorem IntegralFor.carries (hdistinct : schema.DistinctInputs) {type : TypeRef}
    {literal : Literal} (h : literal.IntegralFor schema type) (vars : Entries Json) :
    ∃ value, (literal.toJson? vars).bind (schema.serializeInput? type) = some value ∧
      literal.Carries schema type value := by
  induction h with
  | @leaf type literal leaf integral =>
    obtain ⟨json, hjson, hdenotes⟩ := integral.denotes vars
    refine ⟨json, ?_, .leaf leaf hdenotes⟩
    rw [hjson, Option.bind_some, Schema.serializeInput?_leaf json leaf]
  | @list type item items listed _ ih =>
    rw [toJson?, Option.bind_some, Schema.serializeInput?, listed]
    refine ⟨_, rfl, .list listed ?_ ?_⟩
    · rw [Schema.serializeItems_eq_map, toJsonItems_eq_map, List.length_map, List.length_map]
    · intro position literal json hliteral hjson
      obtain ⟨value, hvalue, hcarries⟩ := ih literal (List.mem_of_getElem? hliteral)
      obtain ⟨whole, hwhole, hserialized⟩ := Option.bind_eq_some_iff.mp hvalue
      rw [Schema.serializeItems_eq_map, toJsonItems_eq_map, List.getElem?_map, List.getElem?_map,
        hliteral, Option.map_some, Option.map_some, hwhole, Option.getD_some, hserialized] at hjson
      exact Option.some.inj hjson ▸ hcarries
  | @object type inputs fields declared _ ih =>
    have hnames : (inputs.map InputValue.name).Nodup := hdistinct _ _ declared
    have hkeys : (Entries.keys (toJsonFields vars [] fields)).Nodup := by
      rw [toJsonFields_eq_ofPairs]
      exact Entries.nodup_keys_ofPairs _
    -- What a declared field has is what the literal given for it has.
    have hmember : ∀ input ∈ inputs, (Entries.get? (toJsonFields vars [] fields) input.name).bind
        (schema.serializeInput? input.type) = ((Entries.ofPairs fields).get? input.name).bind
          fun literal => (literal.toJson? vars).bind (schema.serializeInput? input.type) := by
      intro input hinput
      rw [get?_toJsonFields fun entry hentry hname => ?_, Option.bind_assoc]
      obtain ⟨value, hvalue, -⟩ := ih entry hentry input hinput hname.symm
      obtain ⟨json, hjson, -⟩ := Option.bind_eq_some_iff.mp hvalue
      rw [hjson]
      rfl
    rw [toJson?, Option.bind_some, Schema.serializeInput?_object declared hnames hkeys]
    refine ⟨_, rfl, .object declared (keys_kept_eq_filter fun input hinput => ?_) ?_⟩
    · unfold Schema.keptMember
      rw [Option.isSome_map, hmember input hinput]
      cases hgiven : (Entries.ofPairs fields).get? input.name with
      | none =>
        have hnot : input.name ∉ Entries.keys fields := fun hmem =>
          Entries.get?_eq_none_iff.mp hgiven (Entries.mem_keys_ofPairs_iff.mpr hmem)
        rw [Option.bind_none]
        exact (decide_eq_false hnot).symm
      | some literal =>
        have hentry := Entries.mem_of_get?_ofPairs hgiven
        obtain ⟨value, hvalue, -⟩ := ih _ hentry input hinput rfl
        rw [Option.bind_some, hvalue]
        exact (decide_eq_true (List.mem_map_of_mem (f := Prod.fst) hentry)).symm
    · intro input hinput literal json hgiven hjson
      rw [Schema.get?_kept hnames hkeys hinput, hmember input hinput, hgiven,
        Option.bind_some] at hjson
      obtain ⟨value, hvalue, hcarries⟩ :=
        ih _ (Entries.mem_of_get?_ofPairs hgiven) input hinput rfl
      rw [hvalue] at hjson
      exact Option.some.inj hjson ▸ hcarries

end Literal

end Gateway
