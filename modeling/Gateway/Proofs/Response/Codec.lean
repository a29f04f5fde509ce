import Gateway.Proofs.Entries
import Gateway.Response
import Mathlib.Tactic.Common

/-!
# Responses are read back

What a response or an error is written as is read back as it was (`Response.ofJson?_toJson`,
`GraphError.ofJson?_toJson`). Each part has its own rule for what is left out, and reading has the
same default for what is absent, so a part that is left out comes back; only data that are an
explicit null are read as none. A segment of a path is told by its shape alone, so that a key stays
a key even if it looks like a number.

Reading accepts more than is written: parts that are not known, and lists of the parts in order.
Whatever it accepts, it never yields an explicit null, so what is read is read back from its own
encoding (`Response.codec_faithful`).
-/

namespace Gateway

/-! ## Paths and locations -/

/-- Items that are read back one by one are read back together. -/
theorem mapM_map_eq_some {α β : Type} {write : α → β} {read : β → Option α}
    (h : ∀ item, read (write item) = some item) (items : List α) :
    (items.map write).mapM read = some items := by
  induction items with
  | nil => rfl
  | cons first rest ih => simp [h, ih]

/-- A segment is read back: an index from its number and a key from its text. -/
theorem Segment.ofJson?_toJson (segment : Segment) :
    Segment.ofJson? segment.toJson = some segment := by
  cases segment with
  | index position => simp [Segment.toJson, Segment.ofJson?]
  | key name => rfl

/-- A path is read back segment by segment. -/
theorem Path.ofJson?_toJson (path : Path) : Path.ofJson? path.toJson = some path :=
  mapM_map_eq_some Segment.ofJson?_toJson path

/-- A 32-bit number is read back. -/
theorem Location.word?_toNat (word : UInt32) : Location.word? (.int word.toNat) = some word := by
  have hpow : Int.pow 2 32 = ((2 ^ 32 : Nat) : Int) := by decide
  have hfits : (word.toNat : Int) < Int.pow 2 32 := by
    rw [hpow]
    exact Int.ofNat_lt.mpr word.toNat_lt
  unfold Location.word?
  dsimp only
  rw [if_pos ⟨Int.natCast_nonneg _, hfits⟩, Int.toNat_natCast, UInt32.ofNat_toNat]

/-- A location is read when both of its numbers are. -/
theorem Location.ofJson?_members {line column : Json} {location : Location}
    (hline : word? line = some location.line) (hcolumn : word? column = some location.column) :
    Location.ofJson? (.object [("line", line), ("column", column)]) = some location := by
  unfold Location.ofJson?
  simp [Entries.get?_cons, hline, hcolumn]

/-- A location is read back. -/
theorem Location.ofJson?_toJson (location : Location) :
    Location.ofJson? location.toJson = some location :=
  ofJson?_members (word?_toNat _) (word?_toNat _)

/-! ## Parts that may be left out -/

/-- A part under its key, unless it is left out. -/
def written (key : String) (part : Option Json) : Entries Json :=
  match part with
  | none => []
  | some json => [(key, json)]

/-- The part that a list is written as, which is left out when the list is empty. -/
def writtenList {α : Type} (items : List α) (json : Json) : Option Json :=
  if items.isEmpty then none else some json

/-- A part is found under its own key. -/
theorem get?_written_append_self {key : String} (part : Option Json) {rest : Entries Json}
    (hrest : rest.get? key = none) : Entries.get? (written key part ++ rest) key = part := by
  cases part with
  | none => exact hrest
  | some json => rw [written, List.singleton_append, Entries.get?_cons, if_pos rfl]

/-- A part is not found under another key. -/
theorem get?_written_append_of_ne {key other : String} (hkey : other ≠ key) (part : Option Json)
    (rest : Entries Json) : Entries.get? (written key part ++ rest) other = rest.get? other := by
  cases part with
  | none => rfl
  | some json => rw [written, List.singleton_append, Entries.get?_cons, if_neg hkey]

/-- A list is read back from the part that it is written as. -/
theorem readPart_writtenList {α : Type} {items : List α} {json : Json}
    {read : Json → Option (List α)} (hread : read json = some items) :
    readPart (writtenList items json) [] read = some items := by
  cases items with
  | nil => rfl
  | cons first rest => exact hread

/-! ## Errors -/

namespace GraphError

/-- An error is an object of its message and the parts that are not left out. -/
theorem toJson_eq (error : GraphError) :
    error.toJson = .object (written "message" (some (.string error.message)) ++
      (written "locations"
          (writtenList error.locations (.array (error.locations.map Location.toJson))) ++
        (written "path" (error.path.map Path.toJson) ++
          (written "extensions" (writtenList error.extensions (.object error.extensions)) ++
            [])))) := by
  unfold toJson writtenList written
  rw [List.append_nil, List.append_assoc, List.append_assoc]
  cases error.locations <;> cases error.path <;> cases error.extensions <;> rfl

/-- An error is read from parts that are its own. -/
theorem ofParts?_eq_some {error : GraphError} {message locations path extensions : Option Json}
    (hmessage : readPart message "" readMessage = some error.message)
    (hlocations : readPart locations [] readLocations = some error.locations)
    (hpath : readPart path none readPath = some error.path)
    (hextensions : readPart extensions [] readObject = some error.extensions) :
    ofParts? message locations path extensions = some error := by
  unfold ofParts?
  simp [hmessage, hlocations, hpath, hextensions]

/-- A path is read back, an empty one and none too. -/
theorem readPart_path (path : Option Path) :
    readPart (path.map Path.toJson) none readPath = some path := by
  cases path with
  | none => rfl
  | some path => exact congrArg (Option.map some) (Path.ofJson?_toJson path)

/-- An error is read back. -/
theorem ofJson?_toJson (error : GraphError) : GraphError.ofJson? error.toJson = some error := by
  have hnone : ∀ key, Entries.get? ([] : Entries Json) key = none := fun _ => rfl
  rw [toJson_eq, GraphError.ofJson?]
  -- Each part is looked up in front of those behind it, where its key does not occur.
  simp only [get?_written_append_self, get?_written_append_of_ne, ne_eq, not_false_eq_true,
    String.reduceEq, hnone]
  exact ofParts?_eq_some rfl
    (readPart_writtenList (mapM_map_eq_some Location.ofJson?_toJson error.locations))
    (readPart_path error.path) (readPart_writtenList rfl)

end GraphError

/-! ## Responses -/

namespace Response

/-- A response is an object of the parts that are not left out. -/
theorem toJson_eq (response : Response) :
    response.toJson = .object (written "data" response.data ++
      (written "errors"
          (writtenList response.errors (.array (response.errors.map GraphError.toJson))) ++
        (written "extensions" (writtenList response.extensions (.object response.extensions)) ++
          []))) := by
  unfold toJson writtenList written
  rw [List.append_nil, List.append_assoc]
  cases response.data <;> cases response.errors <;> cases response.extensions <;> rfl

/-- A response is read from parts that are its own. -/
theorem ofParts?_eq_some {response : Response} {data errors extensions : Option Json}
    (hdata : readPart data none readData = some response.data)
    (herrors : readPart errors [] readErrors = some response.errors)
    (hextensions : readPart extensions [] GraphError.readObject = some response.extensions) :
    ofParts? data errors extensions = some response := by
  unfold ofParts?
  simp [hdata, herrors, hextensions]

/-- Data are read back, unless they are an explicit null. -/
theorem readPart_data (data : Option Json) :
    readPart data none readData = some (data.filter (· ≠ .null)) := by
  cases data with
  | none => rfl
  | some data => cases data <;> rfl

/-- A response is read back, but for an explicit null in place of data. -/
theorem ofJson?_toJson (response : Response) :
    Response.ofJson? response.toJson =
      some { response with data := response.data.filter (· ≠ .null) } := by
  have hnone : ∀ key, Entries.get? ([] : Entries Json) key = none := fun _ => rfl
  rw [toJson_eq, Response.ofJson?]
  simp only [get?_written_append_self, get?_written_append_of_ne, ne_eq, not_false_eq_true,
    String.reduceEq, hnone]
  exact ofParts?_eq_some (readPart_data response.data)
    (readPart_writtenList (mapM_map_eq_some GraphError.ofJson?_toJson response.errors))
    (readPart_writtenList rfl)

/-- No data that are read are an explicit null. -/
theorem readPart_readData_ne {part : Option Json} {data : Option Json}
    (h : readPart part none readData = some data) : data ≠ some .null := by
  rintro rfl
  unfold readPart at h
  cases part with
  | none => cases h
  | some json => cases json <;> cases h

/-- A response that is read is assembled from parts, whether they come by key or by place. -/
theorem exists_parts_of_ofJson? {json : Json} {response : Response}
    (h : Response.ofJson? json = some response) :
    ∃ data errors extensions, ofParts? data errors extensions = some response := by
  unfold Response.ofJson? at h
  split at h
  · exact ⟨_, _, _, h⟩
  · split_ifs at h
    exact ⟨_, _, _, h⟩
  · cases h

/-- The data of a response that is read are no explicit null. -/
theorem data_ne_of_ofJson? {json : Json} {response : Response}
    (h : Response.ofJson? json = some response) : response.data ≠ some .null := by
  obtain ⟨data, errors, extensions, hparts⟩ := exists_parts_of_ofJson? h
  unfold ofParts? at hparts
  obtain ⟨read, hread, hparts⟩ := Option.bind_eq_some_iff.mp hparts
  obtain ⟨_, -, hparts⟩ := Option.bind_eq_some_iff.mp hparts
  obtain ⟨_, -, hparts⟩ := Option.bind_eq_some_iff.mp hparts
  cases hparts
  exact readPart_readData_ne hread

/-- The encoding of responses is faithful. Every error is read back from what it is written as, and
so is every response, where data that are an explicit null come back as none. Whatever is read as a
response, by key or by place, has no explicit null for its data, and it is read back from its own
encoding. -/
theorem codec_faithful :
    (∀ error : GraphError, GraphError.ofJson? error.toJson = some error) ∧
    (∀ response : Response, Response.ofJson? response.toJson =
      some { response with data := response.data.filter (· ≠ .null) }) ∧
    ∀ json response, Response.ofJson? json = some response →
      response.data ≠ some .null ∧ Response.ofJson? response.toJson = some response := by
  refine ⟨GraphError.ofJson?_toJson, ofJson?_toJson, fun json response h => ?_⟩
  have hdata := data_ne_of_ofJson? h
  refine ⟨hdata, ?_⟩
  have hsame : response.data.filter (· ≠ .null) = response.data := by
    cases hread : response.data with
    | none => rfl
    | some data =>
      have hne : data ≠ .null := fun hnull => hdata (by rw [hread, hnull])
      simp [hne]
  rw [ofJson?_toJson, hsame]

end Response

end Gateway
