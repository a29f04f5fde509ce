import Gateway.Proofs.Fetched.Grouped
import Gateway.Proofs.Names
import Mathlib.Data.List.Dedup
import Mathlib.Data.List.Infix

/-!
# Places of errors

The value of a position without data reports the errors that it is made of at paths of its own. A
path is cut where some error ends, and the items of a list close up, so an index becomes its rank
among the indices there (`placeOf`). This is the one place of an error as long as nowhere on its way
keys and indices stand side by side (`UniformAlong`).

Where they do, the value is an object. It gives the value of every child a name, which a later child
can take over, and reports what is about an item a second time itself: an error has as many places
as `reportedAt` lists, and `FetchedValue.perm_errorsAt_ofErrors` says that these are all.
-/

namespace Gateway

/-! ## Ranks -/

/-- The index of a segment that addresses an item of a list. -/
def Segment.asIndex? : Segment → Option Nat
  | .index position => some position
  | .key _ => none

/-- A segment has the index that it is. -/
theorem Segment.asIndex?_eq_some_iff {segment : Segment} {position : Nat} :
    segment.asIndex? = some position ↔ segment = .index position := by
  cases segment <;> simp [asIndex?]

/-- The rank of an index among the distinct indices that occur. -/
def rankAmong (segments : List Segment) (position : Nat) : Nat :=
  (segments.filterMap Segment.asIndex?).dedup.countP (· < position)

/-- The segment with its rank for an index. -/
def Segment.ranked (segments : List Segment) : Segment → Segment
  | .index position => .index (rankAmong segments position)
  | .key name => .key name

section Ranks

variable {segments segments' : List Segment}

/-- An index occurs when its segment does. -/
theorem mem_filterMap_asIndex? {position : Nat} :
    position ∈ segments.filterMap Segment.asIndex? ↔ .index position ∈ segments := by
  simp [Segment.asIndex?_eq_some_iff]

/-- Distinct indices are ranked by counting those below. -/
theorem countP_eq_rankAmong {positions : List Nat} (hdistinct : positions.Nodup)
    (hmem : ∀ position, position ∈ positions ↔ .index position ∈ segments) (position : Nat) :
    positions.countP (· < position) = rankAmong segments position := by
  refine List.Perm.countP_eq _ ((List.perm_ext_iff_of_nodup hdistinct (List.nodup_dedup _)).mpr ?_)
  intro other
  rw [List.mem_dedup, mem_filterMap_asIndex?, hmem]

/-- Ranks depend only on which segments occur. -/
theorem Segment.ranked_congr (h : ∀ segment, segment ∈ segments ↔ segment ∈ segments')
    (segment : Segment) : segment.ranked segments = segment.ranked segments' := by
  cases segment with
  | key name => rfl
  | index position =>
    refine congrArg Segment.index (countP_eq_rankAmong (List.nodup_dedup _) ?_ position)
    intro other
    rw [List.mem_dedup, mem_filterMap_asIndex?, h]

/-- In a list in order a number stands where as many are below it. -/
theorem zipIdx_eq_of_pairwise {α : Type} {key : α → Nat} {items : List α}
    (h : items.Pairwise fun a b => key a < key b) (start : Nat) :
    items.zipIdx start =
      items.map fun item => (item, start + items.countP fun other => key other < key item) := by
  induction items generalizing start with
  | nil => rfl
  | cons first rest ih =>
    obtain ⟨hfirst, hrest⟩ := List.pairwise_cons.mp h
    have hnone : rest.countP (fun other => decide (key other < key first)) = 0 :=
      List.countP_eq_zero.mpr fun other hother => by
        simpa using Nat.le_of_lt (hfirst other hother)
    rw [List.zipIdx_cons, List.map_cons, ih hrest, List.countP_cons, hnone]
    congr 1
    · simp
    · refine List.map_congr_left fun item hitem => ?_
      rw [List.countP_cons, if_pos (by simpa using hfirst item hitem)]
      congr 1
      omega

end Ranks

/-! ## Ways through errors -/

/-- The segment with which a path goes on from a place, if it leads through the place. -/
def Path.next? (path place : Path) : Option Segment :=
  if place <+: path then path[place.length]? else none

/-- The segments with which errors go on from a place. -/
def nextSegments (errors : List GraphError) (place : Path) : List Segment :=
  errors.filterMap fun error => Path.next? (error.path.getD []) place

/-- The errors that go on from any place on a way go on with keys, or all with indices. -/
def UniformAlong (errors : List GraphError) (path : Path) : Prop :=
  ∀ place, place <+: path → ∀ first ∈ nextSegments errors place,
    ∀ second ∈ nextSegments errors place,
      FetchedValue.isKey first = FetchedValue.isKey second

/-- It is so along every path. -/
def Uniform (errors : List GraphError) : Prop :=
  ∀ error ∈ errors, UniformAlong errors (error.path.getD [])

instance (errors : List GraphError) (path : Path) : Decidable (UniformAlong errors path) :=
  decidable_of_iff (∀ place ∈ path.inits, ∀ first ∈ nextSegments errors place,
    ∀ second ∈ nextSegments errors place,
      FetchedValue.isKey first = FetchedValue.isKey second) <| by
    simp only [UniformAlong, List.mem_inits]

instance (errors : List GraphError) : Decidable (Uniform errors) :=
  inferInstanceAs (Decidable (∀ error ∈ errors, UniformAlong errors (error.path.getD [])))

/-- Some error is about a place; without a path it is about the outermost one. -/
def EndsAt (errors : List GraphError) (place : Path) : Prop :=
  ∃ error ∈ errors, error.path.getD [] = place

instance (errors : List GraphError) (place : Path) : Decidable (EndsAt errors place) :=
  inferInstanceAs (Decidable (∃ error ∈ errors, error.path.getD [] = place))

/-- The shortest beginning of a path that some error is about. -/
def stopOf (errors : List GraphError) (path : Path) : Path :=
  (path.inits.find? fun start => EndsAt errors start).getD path

/-- What follows on a place, with the ranks of indices among those with which errors go on. -/
def rankedFrom (errors : List GraphError) (place : Path) : Path → Path
  | [] => []
  | segment :: rest =>
    segment.ranked (nextSegments errors place) :: rankedFrom errors (place ++ [segment]) rest

/-- The place of an error: its path up to where an error ends, with ranks for indices. -/
def placeOf (errors : List GraphError) (path : Path) : Path :=
  rankedFrom errors [] (stopOf errors path)

section Ways

variable {errors : List GraphError}

/-- From the outermost place, a path goes on with its first segment. -/
theorem Path.next?_nil (path : Path) : path.next? [] = path.head? := by
  unfold next?
  rw [if_pos List.nil_prefix, List.length_nil, List.head?_eq_getElem?]

/-- Beneath a child a path goes on as seen from the child. -/
theorem Path.next?_cons (first segment : Segment) (rest place : Path) :
    Path.next? (first :: rest) (segment :: place) =
      if first = segment then rest.next? place else none := by
  unfold next?
  by_cases hfirst : first = segment
  · rw [if_pos hfirst, hfirst, List.length_cons, List.getElem?_cons_succ]
    simp only [List.prefix_cons_inj]
  · rw [if_neg hfirst, if_neg]
    exact fun h => hfirst (List.cons_prefix_cons.mp h).1.symm

/-- Errors go on from the outermost place with their children. -/
theorem mem_nextSegments_nil {segment : Segment} :
    segment ∈ nextSegments errors [] ↔ segment ∈ firstSegments errors := by
  unfold nextSegments
  simp only [Path.next?_nil, GraphError.head?_path, List.mem_filterMap, mem_firstSegments_iff]

/-- Beneath a child errors go on as those of the child. -/
theorem nextSegments_cons (errors : List GraphError) (segment : Segment) (place : Path) :
    nextSegments errors (segment :: place) = nextSegments (errorsOfChild segment errors) place := by
  unfold nextSegments errorsOfChild
  rw [List.filterMap_map, List.filterMap_filter]
  refine List.filterMap_congr fun error _ => ?_
  cases hfirst : error.firstSegment? with
  | none =>
    rw [error.getD_path_of_own hfirst]
    simp [Path.next?]
  | some first =>
    rw [error.getD_path_of_firstSegment hfirst, Path.next?_cons]
    simp

/-- Errors with a child on their way are uniform along the way when those of the child are. -/
theorem UniformAlong.child {segment : Segment} {rest : Path}
    (h : UniformAlong errors (segment :: rest)) :
    UniformAlong (errorsOfChild segment errors) rest := by
  intro place hplace
  rw [← nextSegments_cons]
  exact h _ ((List.prefix_cons_inj segment).mpr hplace)

/-- Beneath a child, ranks are those among the errors of the child. -/
theorem rankedFrom_cons (errors : List GraphError) (segment : Segment) (place path : Path) :
    rankedFrom errors (segment :: place) path =
      rankedFrom (errorsOfChild segment errors) place path := by
  induction path generalizing place with
  | nil => rfl
  | cons first rest ih => rw [rankedFrom, rankedFrom, List.cons_append, ih, nextSegments_cons]

/-- An error is about the outermost place when it is about the value itself. -/
theorem endsAt_nil_iff : EndsAt errors [] ↔ ownErrors errors ≠ [] := by
  unfold EndsAt ownErrors
  rw [Ne, List.filter_eq_nil_iff]
  simp only [← GraphError.head?_path, ← List.head?_eq_none_iff, Option.isNone_iff_eq_none,
    not_forall, not_not, exists_prop]

/-- Errors about a place beneath a child are those of the child. -/
theorem endsAt_cons_iff {segment : Segment} {place : Path} :
    EndsAt errors (segment :: place) ↔ EndsAt (errorsOfChild segment errors) place := by
  unfold EndsAt
  constructor
  · rintro ⟨error, herror, hpath⟩
    have hfirst : error.firstSegment? = some segment := by
      rw [← error.head?_path, hpath, List.head?_cons]
    rw [error.getD_path_of_firstSegment hfirst] at hpath
    exact ⟨_, mem_errorsOfChild_iff.mpr ⟨error, herror, hfirst, rfl⟩, (List.cons.inj hpath).2⟩
  · rintro ⟨_, hmem, hpath⟩
    obtain ⟨error, herror, hfirst, rfl⟩ := mem_errorsOfChild_iff.mp hmem
    exact ⟨error, herror, by rw [error.getD_path_of_firstSegment hfirst, hpath]⟩

/-- Where an error is about the value itself, a path is cut at once. -/
theorem stopOf_of_own (hown : ownErrors errors ≠ []) (path : Path) : stopOf errors path = [] := by
  have hnil : EndsAt errors [] := endsAt_nil_iff.mpr hown
  unfold stopOf
  cases path with
  | nil => simp [hnil]
  | cons segment rest => simp [hnil]

/-- Where no error is about the value itself, a path is cut beneath its child. -/
theorem stopOf_cons (hown : ownErrors errors = []) (segment : Segment) (rest : Path) :
    stopOf errors (segment :: rest) =
      segment :: stopOf (errorsOfChild segment errors) rest := by
  have hnil : ¬ EndsAt errors [] := fun h => endsAt_nil_iff.mp h hown
  unfold stopOf
  rw [List.inits_cons, List.find?_cons_of_neg (by simpa using hnil), List.find?_map]
  simp only [Function.comp_def, endsAt_cons_iff, Option.getD_map]

/-- Where an error is about the value itself, every error has its place there. -/
theorem placeOf_of_own (hown : ownErrors errors ≠ []) (path : Path) : placeOf errors path = [] := by
  unfold placeOf
  rw [stopOf_of_own hown, rankedFrom]

/-- Where no error is about the value itself, the place of an error is beneath its child. -/
theorem placeOf_cons (hown : ownErrors errors = []) (segment : Segment) (rest : Path) :
    placeOf errors (segment :: rest) =
      segment.ranked (firstSegments errors) :: placeOf (errorsOfChild segment errors) rest := by
  unfold placeOf
  rw [stopOf_cons hown, rankedFrom, List.nil_append, rankedFrom_cons]
  congr 1
  exact Segment.ranked_congr (fun _ => mem_nextSegments_nil) segment

end Ways

/-! ## Where errors are reported -/

/-- A child is overtaken when another one that has its name comes up later. -/
def IsOvertaken (errors : List GraphError) (segment : Segment) : Prop :=
  ∃ other, other.text = segment.text ∧ Precedes errors segment other

/-- No child comes up before itself. -/
theorem Precedes.ne {errors : List GraphError} {first second : Segment}
    (h : Precedes errors first second) : first ≠ second := by
  obtain ⟨before, after, -, ⟨error, herror, hfirst⟩, hnone, -⟩ := h
  rintro rfl
  exact hnone error herror hfirst

/-- The segment at which the value of a child stands. In an object it has a name, unless a later
child has the same one; in a list it has a rank. -/
def childSegment? (errors : List GraphError) (segment : Segment) : Option Segment :=
  if (firstSegments errors).any FetchedValue.isKey then
    if (firstSegments errors).reverse.find? (fun other => other.text = segment.text) = some segment
    then some (.key segment.text) else none
  else some (segment.ranked (firstSegments errors))

/-- The path at which an object itself reports an error: its own one, when its child is an item. -/
def reportedBeside (errors : List GraphError) : Path → List Path
  | [] => []
  | segment :: rest =>
    if (firstSegments errors).any FetchedValue.isKey && !FetchedValue.isKey segment then
      [segment :: rest]
    else []

/-- The paths at which an error is reported: beneath its child, where that has a value, and beside
the children. -/
def reportedAt : List GraphError → Path → List Path
  | _, [] => [[]]
  | errors, segment :: rest =>
    if ownErrors errors ≠ [] then [[]]
    else
      ((childSegment? errors segment).toList.flatMap fun child =>
        (reportedAt (errorsOfChild segment errors) rest).map (child :: ·))
      ++ reportedBeside errors (segment :: rest)

/-- The paths at which the child of an error reports it. -/
def reportedBeneath (errors : List GraphError) : Path → List Path
  | [] => []
  | segment :: rest =>
    (childSegment? errors segment).toList.flatMap fun child =>
      (reportedAt (errorsOfChild segment errors) rest).map (child :: ·)

/-- Errors, each at the paths at which it is reported. -/
def reported (errors : List GraphError) (position : Path) : List GraphError :=
  errors.flatMap fun error => (reportedAt errors (error.path.getD [])).map fun place =>
    error.withPath (some (position ++ place))

/-- The number of times that an error is reported. -/
def timesReported (errors : List GraphError) (path : Path) : Nat :=
  (reportedAt errors path).length

/-- At a position without data, errors at a path are reported more than once. -/
inductive Repeated : List GraphError → Path → Prop
  /-- They are beneath an item beside keys: the object reports them, and so does its value. -/
  | item {errors : List GraphError} {position : Nat} {rest : Path} (hown : ownErrors errors = [])
    (hkey : ∃ key, .key key ∈ firstSegments errors)
    (hvalue : ¬ IsOvertaken errors (.index position))
    (h : ¬ Displaced (errorsOfChild (.index position) errors) rest) :
    Repeated errors (.index position :: rest)
  /-- They are repeated beneath a child that has a value. -/
  | child {errors : List GraphError} {segment : Segment} {rest : Path}
    (hown : ownErrors errors = []) (hvalue : ¬ IsOvertaken errors segment)
    (h : Repeated (errorsOfChild segment errors) rest) : Repeated errors (segment :: rest)

/-- Where an error is about the value itself, every error is reported there. -/
theorem reportedAt_of_own {errors : List GraphError} (hown : ownErrors errors ≠ []) (path : Path) :
    reportedAt errors path = [[]] := by
  cases path with
  | nil => rfl
  | cons segment rest => rw [reportedAt, if_pos hown]

/-- Where no error is about the value itself, an error is reported beneath its child and beside the
children. -/
theorem reportedAt_cons {errors : List GraphError} (hown : ownErrors errors = [])
    (segment : Segment) (rest : Path) :
    reportedAt errors (segment :: rest) =
      reportedBeneath errors (segment :: rest) ++ reportedBeside errors (segment :: rest) := by
  rw [reportedAt, if_neg (not_not.mpr hown)]
  rfl

namespace FetchedValue

variable {owner : String} {errors : List GraphError}

/-! ### Children -/

/-- The values of the children of a position without data, where they stand. -/
def childValues (owner : String) (errors : List GraphError) : List (Segment × FetchedValue) :=
  (firstSegments errors).filterMap fun segment => (childSegment? errors segment).map fun child =>
    (child, ofErrors owner (errorsOfChild segment errors))

/-- In an object the values stand under their names. -/
theorem perm_keyed_childValues (hany : (firstSegments errors).any isKey = true) :
    (keyed (Entries.ofPairs <| (firstSegments errors).map fun segment =>
      (segment.text, ofErrors owner (errorsOfChild segment errors)))).Perm
      (childValues owner errors) := by
  have hstands : ∀ segment child, childSegment? errors segment = some child ↔
      (firstSegments errors).reverse.find? (fun other => other.text = segment.text) =
        some segment ∧ child = .key segment.text := by
    intro segment child
    unfold childSegment?
    rw [if_pos hany]
    simp [eq_comm]
  refine (List.perm_ext_iff_of_nodup ?_ ?_).mpr ?_
  · refine List.Nodup.of_map Prod.fst ?_
    rw [keyed_map_fst]
    exact (Entries.nodup_keys_ofPairs _).map fun _ _ h => Segment.key.inj h
  · -- A name tells the last child that has it.
    refine List.Nodup.filterMap ?_ (nodup_firstSegments errors)
    rintro segment other child hchild hother
    obtain ⟨_, hsegment, rfl⟩ := Option.map_eq_some_iff.mp hchild
    obtain ⟨_, hsame, h⟩ := Option.map_eq_some_iff.mp hother
    obtain ⟨hlast, rfl⟩ := (hstands _ _).mp hsegment
    obtain ⟨hlast', rfl⟩ := (hstands _ _).mp hsame
    rw [Segment.key.inj (Prod.ext_iff.mp h).1] at hlast'
    exact Option.some.inj (hlast.symm.trans hlast')
  · rintro ⟨segment, value⟩
    rw [mem_keyed]
    simp only [← Entries.get?_eq_some_iff_mem (Entries.nodup_keys_ofPairs _),
      Entries.get?_ofPairs, ← List.map_reverse, Entries.get?_map_eq_find?, childValues,
      List.mem_filterMap, Option.map_eq_some_iff, hstands, Prod.mk.injEq]
    constructor
    · rintro ⟨name, rfl, last, hlast, rfl⟩
      obtain rfl : last.text = name := by simpa using List.find?_some hlast
      exact ⟨last, List.mem_reverse.mp (List.mem_of_find?_eq_some hlast), _, ⟨hlast, rfl⟩, rfl, rfl⟩
    · rintro ⟨last, -, _, ⟨hlast, rfl⟩, rfl, rfl⟩
      exact ⟨_, rfl, last, hlast, rfl⟩

/-- The groups of items are those of the children that are indices. -/
theorem perm_itemGroups (errors : List GraphError) :
    (itemGroups (errorsByChild errors)).Perm
      ((firstSegments errors).filterMap fun segment => segment.asIndex?.map fun position =>
        (position, errorsOfChild segment errors)) := by
  unfold itemGroups
  refine (List.mergeSort_perm _ _).trans (.of_eq ?_)
  rw [errorsByChild_eq, List.filterMap_map]
  refine List.filterMap_congr fun segment _ => ?_
  cases segment <;> rfl

/-- Every group of items has its index. -/
theorem nodup_itemGroups (errors : List GraphError) :
    ((itemGroups (errorsByChild errors)).map Prod.fst).Nodup := by
  refine ((perm_itemGroups errors).map Prod.fst).nodup_iff.mpr ?_
  simp only [List.map_filterMap, Option.map_map, Function.comp_def, Option.map_id_fun', id_eq]
  refine List.Nodup.filterMap (fun segment other position h h' => ?_) (nodup_firstSegments errors)
  rw [Segment.asIndex?_eq_some_iff.mp h, Segment.asIndex?_eq_some_iff.mp h']

/-- The groups of items are in the order of their indices. -/
theorem pairwise_itemGroups (errors : List GraphError) :
    (itemGroups (errorsByChild errors)).Pairwise fun a b => a.1 < b.1 := by
  have hordered : (itemGroups (errorsByChild errors)).Pairwise fun a b =>
      decide (a.1 ≤ b.1) = true :=
    List.pairwise_mergeSort (by simpa using fun _ _ _ => Nat.le_trans)
      (by simpa using fun a b => Nat.le_total a b) _
  refine (hordered.and (List.pairwise_map.mp (nodup_itemGroups errors))).imp ?_
  rintro a b ⟨hle, hne⟩
  exact Nat.lt_of_le_of_ne (of_decide_eq_true hle) hne

/-- In a list the values stand at the ranks of their indices. -/
theorem perm_indexed_childValues (hnone : ¬ (firstSegments errors).any isKey = true) :
    (indexed 0 ((itemGroups (errorsByChild errors)).map fun group =>
      ofErrors owner group.2)).Perm (childValues owner errors) := by
  have hrank : ∀ position,
      (itemGroups (errorsByChild errors)).countP (fun group => decide (group.1 < position)) =
        rankAmong (firstSegments errors) position := by
    intro position
    rw [← countP_eq_rankAmong (nodup_itemGroups errors) (fun other => ?_) position,
      List.countP_map]
    · rfl
    · rw [((perm_itemGroups errors).map Prod.fst).mem_iff, List.map_filterMap,
        ← mem_filterMap_asIndex?]
      simp
  have hitems : indexed 0 ((itemGroups (errorsByChild errors)).map fun group =>
      ofErrors owner group.2) =
      (itemGroups (errorsByChild errors)).map fun group =>
        (.index (rankAmong (firstSegments errors) group.1), ofErrors owner group.2) := by
    rw [indexed_map, indexed, zipIdx_eq_of_pairwise (pairwise_itemGroups errors), List.map_map,
      List.map_map]
    simp only [Function.comp_def, hrank, Nat.zero_add]
  rw [hitems]
  refine ((perm_itemGroups errors).map _).trans (.of_eq ?_)
  unfold childValues
  rw [List.map_filterMap]
  refine List.filterMap_congr fun segment hsegment => ?_
  cases segment with
  | index position =>
    unfold childSegment?
    rw [if_neg hnone]
    rfl
  | key name => exact absurd (List.any_eq_true.mpr ⟨_, hsegment, rfl⟩) hnone

/-- When every child reports its errors where it stands, the children together report what is
beneath them. -/
theorem perm_flatMap_childValues (hown : ownErrors errors = []) (position : Path)
    (ih : ∀ segment position, ((ofErrors owner (errorsOfChild segment errors)).errorsAt
      position).Perm (reported (errorsOfChild segment errors) position)) :
    ((childValues owner errors).flatMap fun child =>
      child.2.errorsAt (position.join child.1)).Perm
      (errors.flatMap fun error => (reportedBeneath errors (error.path.getD [])).map fun place =>
        error.withPath (some (position ++ place))) := by
  have hchild : ∀ segment, (((childSegment? errors segment).map fun child =>
      (child, ofErrors owner (errorsOfChild segment errors))).toList.flatMap fun child =>
        child.2.errorsAt (position.join child.1)).Perm
      ((errors.filter fun error => error.firstSegment? = some segment).flatMap fun error =>
        (reportedBeneath errors (error.path.getD [])).map fun place =>
          error.withPath (some (position ++ place))) := by
    intro segment
    have hbeneath : ∀ error ∈ errors.filter fun error => error.firstSegment? = some segment,
        ((reportedBeneath errors (error.path.getD [])).map fun place =>
          error.withPath (some (position ++ place))) =
        (childSegment? errors segment).toList.flatMap fun child =>
          (reportedAt (errorsOfChild segment errors) (error.relativeToChild.path.getD [])).map
            fun place => error.relativeToChild.withPath (some (position.join child ++ place)) := by
      intro error hmem
      have hfirst : error.firstSegment? = some segment := by
        simpa using (List.mem_filter.mp hmem).2
      rw [error.getD_path_of_firstSegment hfirst, reportedBeneath, List.map_flatMap]
      simp only [List.map_map, Function.comp_def, Path.join, List.append_assoc,
        List.singleton_append]
      rfl
    rw [List.flatMap_congr hbeneath]
    cases childSegment? errors segment with
    | none => simp
    | some child =>
      simp only [Option.map_some, Option.toList_some, List.flatMap_singleton]
      refine (ih segment (position.join child)).trans (.of_eq ?_)
      unfold reported errorsOfChild
      rw [List.flatMap_map]
  unfold childValues
  rw [List.filterMap_eq_flatMap_toList, List.flatMap_assoc]
  refine (List.Perm.flatMap_left _ fun segment _ => hchild segment).trans ?_
  rw [← List.flatMap_assoc]
  refine (perm_flatMap_filter (nodup_firstSegments errors) ?_).flatMap_right _
  intro error herror
  obtain ⟨segment, hfirst⟩ := exists_firstSegment hown herror
  exact ⟨segment, mem_firstSegments_iff.mpr ⟨error, herror, hfirst⟩, hfirst⟩

/-- Where no error is about the value itself, errors are reported beneath the children and beside
them. -/
theorem perm_reported (hown : ownErrors errors = []) (position : Path) :
    ((errors.flatMap fun error => (reportedBeneath errors (error.path.getD [])).map fun place =>
        error.withPath (some (position ++ place))) ++
      errors.flatMap fun error => (reportedBeside errors (error.path.getD [])).map fun place =>
        error.withPath (some (position ++ place))).Perm (reported errors position) := by
  refine (List.flatMap_append_perm errors _ _).trans (.of_eq ?_)
  refine List.flatMap_congr fun error herror => ?_
  obtain ⟨segment, hfirst⟩ := exists_firstSegment hown herror
  rw [error.getD_path_of_firstSegment hfirst, reportedAt_cons hown, List.map_append]

/-- An object reports beside its children what is about items. -/
theorem map_under_filter_isUnaccounted (hown : ownErrors errors = [])
    (hany : (firstSegments errors).any isKey = true) (valueOf : Segment → FetchedValue)
    (position : Path) :
    ((errors.filter <| isUnaccounted <| Entries.keys <| Entries.ofPairs <|
      (firstSegments errors).map fun segment => (segment.text, valueOf segment)).map
        fun error => error.under position) =
      errors.flatMap fun error => (reportedBeside errors (error.path.getD [])).map fun place =>
        error.withPath (some (position ++ place)) := by
  rw [← List.filterMap_eq_filter, List.map_filterMap, List.filterMap_eq_flatMap_toList]
  refine List.flatMap_congr fun error herror => ?_
  obtain ⟨segment, hfirst⟩ := exists_firstSegment hown herror
  have hpath := error.getD_path_of_firstSegment hfirst
  rw [Option.guard, isUnaccounted_of_firstSegment valueOf herror hfirst, hpath, reportedBeside,
    hany, Bool.true_and]
  cases isKey segment <;> simp [GraphError.under, hpath]

/-- The value of a position without data reports every error at the paths at which it is reported,
and nothing else. -/
theorem perm_errorsAt_ofErrors (owner : String) (errors : List GraphError) (position : Path) :
    ((ofErrors owner errors).errorsAt position).Perm (reported errors position) := by
  induction errors using errors_induction generalizing position with
  | nil => exact .nil
  | own errors hown =>
    refine .of_eq ?_
    unfold reported
    simp only [reportedAt_of_own hown, List.map_singleton, List.append_nil]
    rw [ofErrors_eq_error owner hown, errorsAt, ← List.map_eq_flatMap]
    rcases errors with _ | ⟨first, _ | ⟨second, rest⟩⟩ <;> rfl
  | children errors hne hown ih =>
    have hbeneath := perm_flatMap_childValues hown position ih
    refine .trans ?_ (perm_reported hown position)
    rw [ofErrors_eq owner hne hown]
    by_cases hany : (firstSegments errors).any isKey = true
    · rw [if_pos hany, errorsAt, errorsOfFields_eq, map_under_filter_isUnaccounted hown hany]
      exact (((perm_keyed_childValues hany).flatMap_right _).trans hbeneath).append_right _
    · -- Without keys there is a list, which reports nothing beside its items.
      have hbeside : (errors.flatMap fun error =>
          (reportedBeside errors (error.path.getD [])).map fun place =>
            error.withPath (some (position ++ place))) = [] := by
        refine List.flatMap_eq_nil_iff.mpr fun error _ => ?_
        cases error.path.getD [] with
        | nil => rfl
        | cons segment rest => simp [reportedBeside, hany]
      rw [if_neg hany, errorsAt, errorsOfItems_eq, hbeside, List.append_nil]
      exact ((perm_indexed_childValues hany).flatMap_right _).trans hbeneath

/-! ### Names -/

/-- Keys have different names, and so have indices. -/
theorem eq_of_text_eq {first second : Segment} (hkind : isKey first = isKey second)
    (htext : first.text = second.text) : first = second := by
  cases first <;> cases second
  · exact congrArg Segment.index (toString_inj.mp htext)
  · cases hkind
  · cases hkind
  · exact congrArg Segment.key htext

/-- A child has no value where it stands when a later one takes its name. -/
theorem childSegment?_eq_none_iff {segment : Segment} (hmem : segment ∈ firstSegments errors) :
    childSegment? errors segment = none ↔ IsOvertaken errors segment := by
  unfold childSegment?
  by_cases hany : (firstSegments errors).any isKey = true
  · -- What stands under the name is the value of the last child that has it.
    have hsome : ((firstSegments errors).reverse.find? fun other =>
        decide (other.text = segment.text)).isSome :=
      List.find?_isSome.mpr ⟨_, List.mem_reverse.mpr hmem, by simp⟩
    obtain ⟨last, hlast⟩ := Option.isSome_iff_exists.mp hsome
    obtain ⟨htext, after, before, happend, hnone⟩ := List.find?_eq_some_iff_append.mp hlast
    have htext : last.text = segment.text := by simpa using htext
    have hchildren : firstSegments errors = before.reverse ++ last :: after.reverse := by
      rw [← List.reverse_reverse (firstSegments errors), happend]
      simp
    rw [if_pos hany, hlast, ite_eq_right_iff, Option.some.injEq]
    constructor
    · intro hne
      refine ⟨last, htext, precedes_iff.mpr ⟨_, _, hchildren, ?_, List.mem_cons_self⟩⟩
      rw [hchildren, List.mem_append, List.mem_cons, List.mem_reverse, List.mem_reverse] at hmem
      rcases hmem with hmem | rfl | hmem
      · exact List.mem_reverse.mpr hmem
      · exact absurd (hne rfl) (by simp)
      · exact absurd (hnone _ hmem) (by simp)
    · rintro ⟨other, hname, hprecedes⟩ rfl
      obtain ⟨earlier, later, hsplit, hsegment, hother⟩ := precedes_iff.mp hprecedes
      have hafter := mem_after_of_append_eq (hchildren ▸ nodup_firstSegments errors)
        (hchildren.symm.trans hsplit) hsegment hother
      exact absurd (hnone _ (List.mem_reverse.mp hafter)) (by simpa using hname)
  · rw [if_neg hany]
    refine iff_of_false (by simp) ?_
    rintro ⟨other, hname, hprecedes⟩
    have hkeyless : ∀ child ∈ firstSegments errors, isKey child = false := by simpa using hany
    obtain ⟨earlier, later, hsplit, -, hother⟩ := precedes_iff.mp hprecedes
    have hother : other ∈ firstSegments errors := hsplit ▸ List.mem_append_right _ hother
    refine hprecedes.ne (eq_of_text_eq ?_ hname.symm)
    rw [hkeyless _ hmem, hkeyless _ hother]

/-- A key is overtaken when it is replaced: other keys have other names. -/
theorem isOvertaken_key_iff {key : String} :
    IsOvertaken errors (.key key) ↔ IsReplaced errors key := by
  constructor
  · rintro ⟨position | other, htext, hprecedes⟩
    · exact ⟨position, htext, hprecedes⟩
    · exact absurd (congrArg Segment.key htext.symm) hprecedes.ne
  · rintro ⟨position, htext, hprecedes⟩
    exact ⟨_, htext, hprecedes⟩

/-- An object reports beside its children what is about items. -/
theorem reportedBeside_eq_nil_iff {segment : Segment} {rest : Path} :
    reportedBeside errors (segment :: rest) = [] ↔
      ¬ ((∃ key, .key key ∈ firstSegments errors) ∧ ∃ position, segment = .index position) := by
  rw [reportedBeside, ite_eq_right_iff, Bool.and_eq_true_iff, any_isKey_iff]
  cases segment <;> simp [isKey]

/-- Beside keys it does. -/
theorem reportedBeside_of_item (hkey : ∃ key, .key key ∈ firstSegments errors) (position : Nat)
    (rest : Path) :
    reportedBeside errors (.index position :: rest) = [.index position :: rest] := by
  rw [reportedBeside, any_isKey_iff.mpr hkey]
  rfl

/-- The first segment of a path that an error is about is that of a child. -/
theorem mem_firstSegments_of_endsAt {segment : Segment} {rest : Path}
    (hends : EndsAt errors (segment :: rest)) : segment ∈ firstSegments errors := by
  obtain ⟨error, herror, hpath⟩ := hends
  refine mem_firstSegments_iff.mpr ⟨error, herror, ?_⟩
  rw [← error.head?_path, hpath, List.head?_cons]

/-! ### One place for every error -/

/-- Where errors go on with keys or with indices only, a child stands at its key or at its rank. -/
theorem childSegment?_of_kind {segment : Segment} (hmem : segment ∈ firstSegments errors)
    (hkind : ∀ other ∈ firstSegments errors, isKey other = isKey segment) :
    childSegment? errors segment = some (segment.ranked (firstSegments errors)) := by
  have hstands : childSegment? errors segment ≠ none := by
    rw [Ne, childSegment?_eq_none_iff hmem]
    rintro ⟨other, htext, hprecedes⟩
    obtain ⟨_, _, hsplit, -, hother⟩ := precedes_iff.mp hprecedes
    have hother : other ∈ firstSegments errors := hsplit ▸ List.mem_append_right _ hother
    exact hprecedes.ne (eq_of_text_eq (hkind other hother) htext).symm
  unfold childSegment? at hstands ⊢
  cases segment with
  | index position =>
    rw [if_neg]
    intro hany
    obtain ⟨other, hother, hkey⟩ := List.any_eq_true.mp hany
    exact absurd ((hkind other hother).symm.trans hkey) (by simp [isKey])
  | key name =>
    rw [if_pos (List.any_eq_true.mpr ⟨_, hmem, rfl⟩)] at hstands ⊢
    rw [if_pos (not_not.mp fun hnot => hstands (if_neg hnot))]
    rfl

/-- An error on whose way keys and indices do not stand side by side is reported at its place
alone. -/
theorem reportedAt_of_uniformAlong {path : Path} (huniform : UniformAlong errors path)
    (hends : EndsAt errors path) : reportedAt errors path = [placeOf errors path] := by
  induction path generalizing errors with
  | nil => rw [placeOf_of_own (endsAt_nil_iff.mp hends), reportedAt]
  | cons segment rest ih =>
    by_cases hown : ownErrors errors = []
    · have hmem := mem_firstSegments_of_endsAt hends
      have hkind : ∀ other ∈ firstSegments errors, isKey other = isKey segment :=
        fun other hother => huniform [] List.nil_prefix other (mem_nextSegments_nil.mpr hother)
          segment (mem_nextSegments_nil.mpr hmem)
      have hbeside : reportedBeside errors (segment :: rest) = [] := by
        rw [reportedBeside_eq_nil_iff]
        rintro ⟨⟨key, hkey⟩, position, rfl⟩
        exact absurd (hkind _ hkey) (by simp [isKey])
      rw [reportedAt_cons hown, hbeside, List.append_nil, reportedBeneath,
        childSegment?_of_kind hmem hkind, ih huniform.child (endsAt_cons_iff.mp hends),
        placeOf_cons hown]
      rfl
    · rw [reportedAt_of_own hown, placeOf_of_own hown]

/-- When keys and indices do not stand side by side anywhere, a position without data reports every
error once, at its place. -/
theorem perm_errors_ofErrors (owner : String) (huniform : Uniform errors) :
    (ofErrors owner errors).errors.Perm
      (errors.map fun error => error.withPath (some (placeOf errors (error.path.getD [])))) := by
  refine (perm_errorsAt_ofErrors owner errors []).trans (.of_eq ?_)
  unfold reported
  rw [List.map_eq_flatMap]
  refine List.flatMap_congr fun error herror => ?_
  rw [reportedAt_of_uniformAlong (huniform error herror) ⟨error, herror, rfl⟩]
  rfl

/-- Errors about friends and their fields. -/
def friendErrors : List GraphError :=
  [{ message := "no name", path := some [.key "friends", .index 7, .key "name"] },
    { message := "gone", path := some [.key "friends", .index 2] },
    { message := "no age", path := some [.key "friends", .index 7, .key "age"] },
    { message := "no name", path := some [.key "friends", .index 2, .key "name"] }]

/-- What is about a field of a friend that is gone is reported where the friend is, and the friends
close up. -/
theorem perm_errors_friendErrors :
    Uniform friendErrors ∧ (ofErrors "users" friendErrors).errors.Perm
      [{ message := "no name", path := some [.key "friends", .index 1, .key "name"] },
        { message := "gone", path := some [.key "friends", .index 0] },
        { message := "no age", path := some [.key "friends", .index 1, .key "age"] },
        { message := "no name", path := some [.key "friends", .index 0] }] := by
  have huniform : Uniform friendErrors := by decide
  exact ⟨huniform, perm_errors_ofErrors "users" huniform⟩

/-! ### How often errors are reported -/

/-- An error beneath a child that has a value is reported as often as the child does it, and beside
the children. -/
theorem timesReported_of_value (hown : ownErrors errors = []) {segment : Segment}
    (hmem : segment ∈ firstSegments errors) (hvalue : ¬ IsOvertaken errors segment) (rest : Path) :
    timesReported errors (segment :: rest) =
      timesReported (errorsOfChild segment errors) rest +
        (reportedBeside errors (segment :: rest)).length := by
  obtain ⟨child, hchild⟩ := Option.ne_none_iff_exists'.mp
    (mt (childSegment?_eq_none_iff hmem).mp hvalue)
  unfold timesReported
  rw [reportedAt_cons hown, List.length_append, reportedBeneath, hchild]
  simp

/-- An error beneath a child that is overtaken is reported beside the children alone. -/
theorem timesReported_of_overtaken (hown : ownErrors errors = []) {segment : Segment}
    (hmem : segment ∈ firstSegments errors) (hover : IsOvertaken errors segment) (rest : Path) :
    timesReported errors (segment :: rest) =
      (reportedBeside errors (segment :: rest)).length := by
  unfold timesReported
  rw [reportedAt_cons hown, reportedBeneath, (childSegment?_eq_none_iff hmem).mpr hover]
  rfl

/-- Where an error is about the value itself, every error is reported once. -/
theorem timesReported_of_own (hown : ownErrors errors ≠ []) (path : Path) :
    timesReported errors path = 1 := by
  unfold timesReported
  rw [reportedAt_of_own hown]
  rfl

/-- An error is lost when it is displaced. -/
theorem timesReported_eq_zero_iff {path : Path} (hends : EndsAt errors path) :
    timesReported errors path = 0 ↔ Displaced errors path := by
  induction path generalizing errors with
  | nil => exact iff_of_false Nat.one_ne_zero fun h => nomatch h
  | cons segment rest ih =>
    by_cases hown : ownErrors errors = []
    case neg =>
      rw [timesReported_of_own hown]
      refine iff_of_false Nat.one_ne_zero ?_
      rintro (⟨hnone, -⟩ | ⟨hnone, -⟩ | ⟨hnone, -⟩) <;> exact hown hnone
    have hmem := mem_firstSegments_of_endsAt hends
    have hchild := ih (endsAt_cons_iff.mp hends)
    cases segment with
    | key name =>
      have hbeside : reportedBeside errors (.key name :: rest) = [] := by
        rw [reportedBeside_eq_nil_iff]
        simp
      by_cases hover : IsOvertaken errors (.key name)
      · rw [timesReported_of_overtaken hown hmem hover, hbeside]
        exact iff_of_true rfl (.replaced hown (isOvertaken_key_iff.mp hover))
      · rw [timesReported_of_value hown hmem hover, hbeside, List.length_nil, Nat.add_zero, hchild]
        constructor
        · exact .key hown
        · rintro (⟨-, hreplaced⟩ | ⟨-, hdisplaced⟩)
          · exact absurd (isOvertaken_key_iff.mpr hreplaced) hover
          · exact hdisplaced
    | index position =>
      by_cases hkey : ∃ key, .key key ∈ firstSegments errors
      · -- The object reports it.
        refine iff_of_false ?_ ?_
        · have hbeside := congrArg List.length (reportedBeside_of_item hkey position rest)
          by_cases hover : IsOvertaken errors (.index position)
          · rw [timesReported_of_overtaken hown hmem hover, hbeside]
            simp
          · rw [timesReported_of_value hown hmem hover, hbeside]
            simp
        · rintro (_ | _ | ⟨-, hitems, -⟩)
          exact (forall_index_iff hown).mp hitems hkey
      · have hbeside : reportedBeside errors (.index position :: rest) = [] :=
          reportedBeside_eq_nil_iff.mpr fun h => hkey h.1
        have hvalue : ¬ IsOvertaken errors (.index position) := by
          rw [← childSegment?_eq_none_iff hmem, childSegment?, if_neg (mt any_isKey_iff.mp hkey)]
          simp
        rw [timesReported_of_value hown hmem hvalue, hbeside, List.length_nil, Nat.add_zero, hchild]
        constructor
        · exact .item hown ((forall_index_iff hown).mpr hkey)
        · rintro (_ | _ | ⟨-, -, hdisplaced⟩)
          exact hdisplaced

/-- An error is repeated when an object and the value of one of its items report it. -/
theorem one_lt_timesReported_iff {path : Path} (hends : EndsAt errors path) :
    1 < timesReported errors path ↔ Repeated errors path := by
  induction path generalizing errors with
  | nil => exact iff_of_false (Nat.lt_irrefl 1) fun h => nomatch h
  | cons segment rest ih =>
    by_cases hown : ownErrors errors = []
    case neg =>
      rw [timesReported_of_own hown]
      refine iff_of_false (Nat.lt_irrefl 1) ?_
      rintro (⟨hnone, -⟩ | ⟨hnone, -⟩) <;> exact hown hnone
    have hmem := mem_firstSegments_of_endsAt hends
    have hends := endsAt_cons_iff.mp hends
    have hchild := ih hends
    have hlost := timesReported_eq_zero_iff hends
    have hbeside : (reportedBeside errors (segment :: rest)).length ≤ 1 := by
      rw [reportedBeside]
      split <;> simp
    by_cases hover : IsOvertaken errors segment
    · rw [timesReported_of_overtaken hown hmem hover]
      refine iff_of_false (by omega) ?_
      rintro (⟨-, -, hvalue, -⟩ | ⟨-, hvalue, -⟩) <;> exact hvalue hover
    · rw [timesReported_of_value hown hmem hover]
      constructor
      · intro htimes
        by_cases hrepeated : Repeated (errorsOfChild segment errors) rest
        · exact .child hown hover hrepeated
        · -- The child reports it once, so the object does, too.
          have hone := mt hchild.mp hrepeated
          have hbeside : reportedBeside errors (segment :: rest) ≠ [] := by
            intro hnil
            rw [hnil, List.length_nil] at htimes
            omega
          rw [Ne, reportedBeside_eq_nil_iff, not_not] at hbeside
          obtain ⟨hkey, position, rfl⟩ := hbeside
          exact .item hown hkey hover fun hdisplaced => by
            have hzero := hlost.mpr hdisplaced
            omega
      · rintro (⟨-, hkey, -, hkept⟩ | ⟨-, -, hrepeated⟩)
        · have hsome := mt hlost.mp hkept
          rw [reportedBeside_of_item hkey, List.length_singleton]
          omega
        · have hmore := hchild.mpr hrepeated
          omega

/-- A position without data reports what its errors say, each as often as it is reported: never
when it is displaced, more than once when it is repeated, and once at its place when keys and
indices do not stand side by side on its way. -/
theorem perm_contents_ofErrors (owner : String) (errors : List GraphError) :
    (ofErrors owner errors).contents.Perm (errors.flatMap fun error =>
        List.replicate (timesReported errors (error.path.getD [])) error.content) ∧
      ∀ error ∈ errors,
        (timesReported errors (error.path.getD []) = 0 ↔
          Displaced errors (error.path.getD [])) ∧
        (1 < timesReported errors (error.path.getD []) ↔
          Repeated errors (error.path.getD [])) ∧
        (UniformAlong errors (error.path.getD []) →
          timesReported errors (error.path.getD []) = 1) := by
  refine ⟨?_, fun error herror => ?_⟩
  · refine ((perm_errorsAt_ofErrors owner errors []).map GraphError.content).trans (.of_eq ?_)
    unfold reported timesReported
    rw [List.map_flatMap]
    refine List.flatMap_congr fun error _ => ?_
    rw [List.map_map, ← List.map_const']
    rfl
  · have hends : EndsAt errors (error.path.getD []) := ⟨error, herror, rfl⟩
    refine ⟨timesReported_eq_zero_iff hends, one_lt_timesReported_iff hends, fun huniform => ?_⟩
    unfold timesReported
    rw [reportedAt_of_uniformAlong huniform hends]
    rfl

/-- Errors about a key and about an index that has it for its text. -/
def clashingErrors : List GraphError :=
  [{ message := "no first user", path := some [.key "0"] },
    { message := "no user", path := some [.index 0] }]

/-- The first one of these is lost, and the other is reported twice. -/
theorem perm_contents_clashingErrors :
    (ofErrors "users" clashingErrors).contents.Perm
        [{ message := "no user" }, { message := "no user" }] ∧
      Displaced clashingErrors [.key "0"] ∧ Repeated clashingErrors [.index 0] := by
  obtain ⟨hperm, htimes⟩ := perm_contents_ofErrors "users" clashingErrors
  obtain ⟨hkey, hrest⟩ := List.forall_mem_cons.mp htimes
  obtain ⟨hindex, -⟩ := List.forall_mem_cons.mp hrest
  exact ⟨hperm, hkey.1.mp (by decide), hindex.2.1.mp (by decide)⟩

end FetchedValue

end Gateway
