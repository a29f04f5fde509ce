import Gateway.Proofs.Delegation.Inner
import Gateway.Schema.Builtin

/-!
# Numbers at leaves

Built-in scalars take numbers in different ways. An identifier is an integer that fits in a signed
word of 64 bits, and becomes its decimal text; a value of `Int` is an integer that fits in 32 bits;
every number is a value of `Float`. Any other number at these types becomes the error of an invalid
leaf (`ReadsNumber`). In particular integers from `2^63` on are refused as identifiers, although
they are read exactly and are values of `Float`.

A number is read so wherever it stands (`Reconstruction.value_readsNumber`), and what it becomes is
put in the value at its path, in lists and objects of any depth, whether they are merged or not
(`Reconstruction.result_readsNumbers`).
-/

namespace Gateway

/-! ## Numbers -/

/-- The value is the error of an invalid leaf. -/
structure FetchedValue.IsInvalidLeaf (type : Name) (json : Json) (value : FetchedValue) : Prop where
  /-- The error tells the type and the data. -/
  made : value = .error (.single (leafError type json))
  /-- The error has the code of its kind. -/
  code : (leafError type json).code? = some "INVALID_LEAF_VALUE"

/-- The error of a leaf is the one of an invalid leaf. -/
theorem FetchedValue.isInvalidLeaf_leafError (type : Name) (json : Json) :
    (FetchedValue.error (.single (leafError type json))).IsInvalidLeaf type json :=
  ⟨rfl, rfl⟩

/-- What a number becomes at a built-in scalar. -/
structure ReadsNumber (type : Name) (number : Json) (value : FetchedValue) : Prop where
  /-- An integer within 64 signed bits is an identifier, as its decimal text, and no other is. -/
  identifier : ∀ n : Int, type = "ID" → number = .int n →
    (-Int.pow 2 63 ≤ n ∧ n < Int.pow 2 63 → value = .leaf (.string (toString n))) ∧
      (¬ (-Int.pow 2 63 ≤ n ∧ n < Int.pow 2 63) → value.IsInvalidLeaf type number)
  /-- An integer within 32 signed bits is kept, and no other is a value of `Int`. -/
  int : ∀ n : Int, type = "Int" → number = .int n →
    (-Int.pow 2 31 ≤ n ∧ n ≤ Int.pow 2 31 - 1 → value = .leaf (.int n)) ∧
      (¬ (-Int.pow 2 31 ≤ n ∧ n ≤ Int.pow 2 31 - 1) → value.IsInvalidLeaf type number)
  /-- Every integer is a value of `Float`. -/
  float : ∀ n : Int, type = "Float" → number = .int n → value = .leaf (.int n)
  /-- Other numbers are neither identifiers nor values of `Int`. -/
  inexact : ∀ x : Double, type = "ID" ∨ type = "Int" → number = .float x →
    value.IsInvalidLeaf type number

/-- A leaf of a built-in scalar is read so. -/
theorem ofLeaf_readsNumber {schema : Schema} {type : Name}
    (hscalar : schema.body? type = some .scalar) (number : Json) :
    ReadsNumber type number (.ofLeaf schema type number) := by
  have hvalue : leafValue? schema type number = scalarLeaf? type number := by
    unfold leafValue?
    rw [hscalar]
  -- What the scalar takes is the leaf, and the rest is the error.
  have htaken : ∀ leaf, scalarLeaf? type number = some leaf →
      FetchedValue.ofLeaf schema type number = .leaf leaf := by
    intro leaf hleaf
    unfold FetchedValue.ofLeaf
    rw [hvalue, hleaf]
  have hrefused : scalarLeaf? type number = none →
      (FetchedValue.ofLeaf schema type number).IsInvalidLeaf type number := by
    intro hnone
    unfold FetchedValue.ofLeaf
    rw [hvalue, hnone]
    exact FetchedValue.isInvalidLeaf_leafError type number
  refine ⟨?_, ?_, ?_, ?_⟩
  · rintro n rfl rfl
    have hfits : Json.fitsInt64 n = true ↔ -Int.pow 2 63 ≤ n ∧ n < Int.pow 2 63 :=
      decide_eq_true_iff
    refine ⟨fun hin => htaken _ ?_, fun hout => hrefused ?_⟩
    · exact if_pos (hfits.mpr hin)
    · exact if_neg fun h => hout (hfits.mp h)
  · rintro n rfl rfl
    have hfits : Json.fitsInt32 n = true ↔ -Int.pow 2 31 ≤ n ∧ n ≤ Int.pow 2 31 - 1 :=
      decide_eq_true_iff.trans (and_congr_right fun _ => Int.le_sub_one_iff.symm)
    refine ⟨fun hin => htaken _ ?_, fun hout => hrefused ?_⟩
    · exact if_pos (hfits.mpr hin)
    · exact if_neg fun h => hout (hfits.mp h)
  · rintro n rfl rfl
    exact htaken _ rfl
  · rintro x (rfl | rfl) rfl
    · exact hrefused rfl
    · exact hrefused rfl

/-- An integer or another number. -/
def IsNumber (json : Json) : Prop :=
  (∃ n, json = .int n) ∨ ∃ x, json = .float x

/-! ## Numbers in data -/

namespace Reconstruction

variable {σ : Type} {reconstruction : Reconstruction σ}

/-- Wherever a number is reconstructed at a built-in scalar, it is read as one of the scalar, and
nothing else happens. -/
theorem value_readsNumber {number : Json} (hnumber : IsNumber number) {type : TypeRef}
    (hscalar : reconstruction.schema.body? type.innerName = some .scalar)
    (errors : List GraphError) (info? : Option FieldInfo) (skipsMerging : Bool)
    (session : Session σ) :
    ∃ value, runFrom (reconstruction.value number errors info? type skipsMerging) session =
        (.ok value, session) ∧ ReadsNumber type.innerName number value := by
  refine ⟨_, ?_, ofLeaf_readsNumber hscalar number⟩
  have hleaf : reconstruction.schema.isLeaf type.innerName = true := by
    unfold Schema.isLeaf
    rw [hscalar]
  have hplain : reconstruction.value number errors info? type skipsMerging =
      reconstruction.plain number errors type := by
    rcases hnumber with ⟨n, rfl⟩ | ⟨x, rfl⟩
    · rfl
    · rfl
  rw [hplain, plain, if_pos hleaf, runFrom_pure]

/-- In the data that are reconstructed by a type, a number is read at the path by a scalar. -/
structure NumberAt (reconstruction : Reconstruction σ) (data? : Option Json)
    (info? : Option FieldInfo) (type : TypeRef) (path : Path) (scalar : Name) (number : Json) :
    Prop where
  /-- There is a number. -/
  isNumber : IsNumber number
  /-- It is read by a type, which may belong to a gateway field. -/
  read : ∃ partInfo? partType, (Child.typed info? type).readAt reconstruction.schema path
    (data?.getD .null) = some (.typed partInfo? partType, number) ∧ partType.innerName = scalar
  /-- The type is a scalar. -/
  isScalar : reconstruction.schema.body? scalar = some .scalar

/-- What a number becomes is put in the value at its path. -/
theorem NumberAt.exists_putAt {merges : FetchedObject → List FetchedValue → Prop}
    {info? : Option FieldInfo} (hcompletes : reconstruction.CompletesBy merges info?)
    {data? : Option Json} {errors : List GraphError} {type : TypeRef} {skipsMerging : Bool}
    {value : FetchedValue}
    (hvalue : (reconstruction.result data? errors info? type skipsMerging).Yields value)
    {path : Path} {scalar : Name} {number : Json}
    (h : reconstruction.NumberAt data? info? type path scalar number) :
    ∃ inner, FetchedValue.PutAt merges inner value path ∧ ReadsNumber scalar number inner := by
  obtain ⟨partInfo?, partType, hread, rfl⟩ := h.read
  obtain ⟨partErrors, skips, inner, ⟨session, session', hinner⟩, hput⟩ :=
    exists_putAt_of_readAt hcompletes hvalue hread
  -- It is what the number becomes by itself, in whatever session.
  obtain ⟨found, hfound, hreads⟩ :=
    value_readsNumber h.isNumber h.isScalar partErrors partInfo? skips session
  rw [hinner, Prod.mk.injEq, Except.ok.injEq] at hfound
  exact ⟨inner, hput, hfound.1 ▸ hreads⟩

/-- A number at a built-in scalar is read as one of the scalar, whatever is reconstructed around it.
In data of any type the outcome is put in the value at its path, where merged type resolvers only
merge answers into the objects around it; without merging there always is a value, which has the
outcome at the path. -/
theorem result_readsNumbers (reconstruction : Reconstruction σ) :
    (∀ number, IsNumber number → ∀ type : TypeRef,
      reconstruction.schema.body? type.innerName = some .scalar →
      ∀ errors info? skipsMerging session, ∃ value,
        runFrom (reconstruction.value number errors info? type skipsMerging) session =
          (.ok value, session) ∧ ReadsNumber type.innerName number value) ∧
    (∀ merges info?, reconstruction.CompletesBy merges info? →
      ∀ data? errors type skipsMerging value,
        (reconstruction.result data? errors info? type skipsMerging).Yields value →
        ∀ path scalar number, reconstruction.NumberAt data? info? type path scalar number →
          ∃ inner, FetchedValue.PutAt merges inner value path ∧
            ReadsNumber scalar number inner) ∧
    (∀ (stitching : Stitching σ) depth context info?, CompletesBy
      { reconstruction with
        complete := stitching.completeWithin depth reconstruction.subschema context }
      (fun _ _ => True) info?) ∧
    ∀ info?, reconstruction.Unmerged info? → ∀ data? errors type skipsMerging session,
      ∃ value session',
        runFrom (reconstruction.result data? errors info? type skipsMerging) session =
          (.ok value, session') ∧
        ∀ path scalar number, reconstruction.NumberAt data? info? type path scalar number →
          ∃ inner, value.at? path = some inner ∧ ReadsNumber scalar number inner := by
  refine ⟨fun number hnumber type hscalar => value_readsNumber hnumber hscalar,
    fun merges info? hcompletes data? errors type skipsMerging value hvalue path scalar number
      hnumber => hnumber.exists_putAt hcompletes hvalue,
    fun stitching depth context info? => completesBy_completeWithin stitching depth _ context _ _,
    fun info? hunmerged data? errors type skipsMerging session => ?_⟩
  obtain ⟨value, warnings, hrun⟩ := exists_result hunmerged data? errors type skipsMerging session
  refine ⟨value, _, hrun, fun path scalar number hnumber => ?_⟩
  obtain ⟨inner, hinner, hreads⟩ :=
    hnumber.exists_putAt hunmerged.completesBy ⟨session, _, hrun⟩
  exact ⟨inner, hinner.at?_eq, hreads⟩

/-! ## A sample -/

/-- Samples have lists of identifiers, a count and a weight. -/
def sampleSchema : Schema where
  types := ["ID", "Int", "Float"].map Builtin.scalar ++ [
    Builtin.object "Sample" [Builtin.field "ids" (.list (.list (.named "ID"))),
      Builtin.field "count" (.named "Int"), Builtin.field "weight" (.named "Float")]]
  directives := []
  roots := []

/-- Results of samples, which are not merged. -/
def sampleResults : Reconstruction Unit where
  subschema := { name := "samples", schema := sampleSchema }
  schema := sampleSchema
  complete _ _ object := pure object

/-- A sample with an integer at each end of the 64 bits. -/
def sample : Json :=
  .object [
    ("ids", .array [.array [.int 9223372036854775807, .int 9223372036854775808]]),
    ("count", .int 2147483648),
    ("weight", .int 18446744073709551615)]

/-- The second identifier and the count are too large, but the weight is not. -/
theorem result_readsNumbers_sample :
    ∃ value session', runFrom (sampleResults.result (some sample) [] none (.named "Sample") false)
        { world := () } = (.ok value, session') ∧
      value.at? [.key "ids", .index 0, .index 0] =
        some (.leaf (.string (toString (9223372036854775807 : Int)))) ∧
      value.at? [.key "ids", .index 0, .index 1] =
        some (.error (.single (leafError "ID" (.int 9223372036854775808)))) ∧
      value.at? [.key "count"] = some (.error (.single (leafError "Int" (.int 2147483648)))) ∧
      value.at? [.key "weight"] = some (.leaf (.int 18446744073709551615)) := by
  obtain ⟨value, session', hrun, hat⟩ := (result_readsNumbers sampleResults).2.2.2 none
    (fun _ _ _ _ => rfl) (some sample) [] (.named "Sample") false { world := () }
  refine ⟨value, session', hrun, ?_, ?_, ?_, ?_⟩
  · obtain ⟨inner, hinner, hnumber⟩ := hat [.key "ids", .index 0, .index 0] "ID"
      (.int 9223372036854775807) ⟨.inl ⟨_, rfl⟩, ⟨_, _, rfl, rfl⟩, rfl⟩
    rw [hinner, (hnumber.identifier _ rfl rfl).1 (by decide)]
  · obtain ⟨inner, hinner, hnumber⟩ := hat [.key "ids", .index 0, .index 1] "ID"
      (.int 9223372036854775808) ⟨.inl ⟨_, rfl⟩, ⟨_, _, rfl, rfl⟩, rfl⟩
    rw [hinner, ((hnumber.identifier _ rfl rfl).2 (by decide)).made]
  · obtain ⟨inner, hinner, hnumber⟩ := hat [.key "count"] "Int" (.int 2147483648)
      ⟨.inl ⟨_, rfl⟩, ⟨_, _, rfl, rfl⟩, rfl⟩
    rw [hinner, ((hnumber.int _ rfl rfl).2 (by decide)).made]
  · obtain ⟨inner, hinner, hnumber⟩ := hat [.key "weight"] "Float" (.int 18446744073709551615)
      ⟨.inl ⟨_, rfl⟩, ⟨_, _, rfl, rfl⟩, rfl⟩
    rw [hinner, hnumber.float _ rfl rfl]

end Reconstruction

end Gateway
