import Gateway.Entries
import Mathlib.Data.List.Basic
import Mathlib.Data.List.Induction
import Mathlib.Tactic.Common

/-!
# Looking up entries

What a look-up finds after entries are joined, inserted, assigned, mapped or built from pairs. The
last of several pairs for a key is the one that stays, so `get?_insertAll` looks the pairs up from
behind. Where a dropped entry gives its place to the last one, order does not matter to a look-up
when all keys are different (`get?_of_perm`), and is kept when nothing is dropped
(`sameBut_assignAll`).
-/

namespace Gateway

namespace Entries

variable {α : Type}

/-- A look-up begins with the first entry. -/
theorem get?_cons (entry : String × α) (entries : Entries α) (key : String) :
    Entries.get? (entry :: entries) key =
      if key = entry.1 then some entry.2 else entries.get? key := by
  unfold Entries.get?
  rw [List.lookup_cons]
  by_cases h : key = entry.1
  · rw [if_pos h, h, beq_self_eq_true]
  · rw [if_neg h, beq_eq_false_iff_ne.mpr h]

/-- A look-up finds one of the entries. -/
theorem mem_of_get? {entries : Entries α} {key : String} {value : α}
    (h : entries.get? key = some value) : (key, value) ∈ entries := by
  induction entries with
  | nil => exact absurd h (by simp [Entries.get?])
  | cons entry rest ih =>
    rw [get?_cons] at h
    by_cases hkey : key = entry.1
    · rw [if_pos hkey, Option.some.injEq] at h
      rw [hkey, ← h]
      exact List.mem_cons_self
    · rw [if_neg hkey] at h
      exact List.mem_cons_of_mem _ (ih h)

/-- A look-up finds nothing exactly when no entry has the key. -/
theorem get?_eq_none_iff {entries : Entries α} {key : String} :
    entries.get? key = none ↔ key ∉ entries.keys := by
  unfold Entries.keys
  induction entries with
  | nil => simp [Entries.get?]
  | cons entry rest ih =>
    rw [get?_cons, List.map_cons, List.mem_cons, not_or, ← ih]
    by_cases hkey : key = entry.1 <;> simp [hkey]

/-- A key that is missing is not one that is there. -/
theorem ne_of_get? {entries : Entries α} {key other : String} {value : α}
    (hnone : entries.get? key = none) (hsome : entries.get? other = some value) : key ≠ other := by
  rintro rfl
  exact absurd (hnone.symm.trans hsome) (by simp)

/-- A look-up finds something exactly when an entry has the key. -/
theorem exists_get?_iff {entries : Entries α} {key : String} :
    (∃ value, entries.get? key = some value) ↔ key ∈ entries.keys := by
  rw [← Option.ne_none_iff_exists', ne_eq, get?_eq_none_iff, not_not]

/-- The only entry of a key is the one that is found. -/
theorem get?_of_mem {entries : Entries α} (hdistinct : entries.keys.Nodup) {key : String}
    {value : α} (h : (key, value) ∈ entries) : entries.get? key = some value := by
  induction entries with
  | nil => exact absurd h List.not_mem_nil
  | cons entry rest ih =>
    obtain ⟨hfirst, hrest⟩ := List.nodup_cons.mp hdistinct
    rw [get?_cons]
    rcases List.mem_cons.mp h with rfl | hmem
    · exact if_pos rfl
    · have hkey : key ≠ entry.1 := by
        rintro rfl
        exact hfirst (List.mem_map.mpr ⟨_, hmem, rfl⟩)
      rw [if_neg hkey]
      exact ih hrest hmem

/-- Entries made of items hold under a key what the first item of that key has. -/
theorem get?_map_eq_find? {β : Type} (items : List β) (keyOf : β → String) (valueOf : β → α)
    (key : String) :
    Entries.get? (items.map fun item => (keyOf item, valueOf item)) key =
      (items.find? fun item => keyOf item = key).map valueOf := by
  induction items with
  | nil => rfl
  | cons first rest ih =>
    rw [List.map_cons, get?_cons, List.find?_cons, ih]
    by_cases hkey : key = keyOf first
    · simp [hkey]
    · simp [hkey, Ne.symm hkey]

/-- Entries in front are looked up first. -/
theorem get?_append (entries others : Entries α) (key : String) :
    Entries.get? (entries ++ others) key = (entries.get? key).or (others.get? key) := by
  induction entries with
  | nil => rfl
  | cons entry rest ih =>
    rw [List.cons_append, get?_cons, get?_cons, ih]
    by_cases hkey : key = entry.1
    · rw [if_pos hkey, if_pos hkey, Option.some_or]
    · rw [if_neg hkey, if_neg hkey]

/-- An insertion changes what is found under its key. -/
theorem get?_insert (entries : Entries α) (key : String) (value : α) (other : String) :
    (entries.insert key value).get? other =
      if other = key then some value else entries.get? other := by
  induction entries with
  | nil => rw [Entries.insert, get?_cons]
  | cons entry rest ih =>
    obtain ⟨first, present⟩ := entry
    rw [Entries.insert]
    by_cases hfirst : first = key
    · rw [if_pos hfirst, get?_cons, get?_cons, hfirst]
      by_cases hother : other = key
      · rw [if_pos hother, if_pos hother]
      · rw [if_neg hother, if_neg hother, if_neg hother]
    · rw [if_neg hfirst, get?_cons, get?_cons, ih]
      by_cases hother : other = first
      · rw [if_pos hother, if_pos hother, if_neg fun h => hfirst (hother.symm.trans h)]
      · rw [if_neg hother, if_neg hother]

/-- An insertion adds one entry at most. -/
theorem mem_insert {entries : Entries α} {key : String} {value : α} {entry : String × α}
    (h : entry ∈ entries.insert key value) : entry = (key, value) ∨ entry ∈ entries := by
  induction entries with
  | nil => exact .inl (List.mem_singleton.mp h)
  | cons first rest ih =>
    obtain ⟨name, present⟩ := first
    rw [Entries.insert] at h
    by_cases hname : name = key
    · rw [if_pos hname] at h
      rcases List.mem_cons.mp h with rfl | hrest
      · exact .inl (by rw [hname])
      · exact .inr (List.mem_cons_of_mem _ hrest)
    · rw [if_neg hname] at h
      rcases List.mem_cons.mp h with rfl | hrest
      · exact .inr List.mem_cons_self
      · exact (ih hrest).imp_right (List.mem_cons_of_mem _)

/-- What is listed after a value is pushed is the value, under its key, or was listed before. -/
theorem mem_push {entries : Entries (List α)} {key : String} {value : α}
    {entry : String × List α} (h : entry ∈ entries.push key value) {listed : α}
    (hlisted : listed ∈ entry.2) :
    (entry.1 = key ∧ listed = value) ∨ ∃ earlier ∈ entries, earlier.1 = entry.1 ∧
      listed ∈ earlier.2 := by
  rcases mem_insert h with rfl | hmem
  · rcases List.mem_append.mp hlisted with hearlier | hlast
    · cases hfound : entries.get? key with
      | none =>
        rw [hfound] at hearlier
        exact absurd hearlier List.not_mem_nil
      | some present =>
        rw [hfound] at hearlier
        exact .inr ⟨_, mem_of_get? hfound, rfl, hearlier⟩
    · exact .inl ⟨rfl, List.mem_singleton.mp hlast⟩
  · exact .inr ⟨entry, hmem, rfl, hlisted⟩

/-- Of several pairs for a key the last one stays. -/
theorem get?_insertAll (entries : Entries α) (pairs : List (String × α)) (key : String) :
    (entries.insertAll pairs).get? key =
      (Entries.get? pairs.reverse key).or (entries.get? key) := by
  induction pairs using List.reverseRecOn with
  | nil => rfl
  | append_singleton pairs last ih =>
    have hstep : entries.insertAll (pairs ++ [last]) =
        (entries.insertAll pairs).insert last.1 last.2 := by
      unfold Entries.insertAll
      rw [List.foldl_append]
      rfl
    rw [hstep, get?_insert, ih, List.reverse_append, List.reverse_singleton,
      List.singleton_append, get?_cons]
    by_cases hkey : key = last.1
    · rw [if_pos hkey, if_pos hkey, Option.some_or]
    · rw [if_neg hkey, if_neg hkey]

/-- Pairs are looked up from behind. -/
theorem get?_ofPairs (pairs : List (String × α)) (key : String) :
    (Entries.ofPairs pairs).get? key = Entries.get? pairs.reverse key := by
  unfold Entries.ofPairs
  rw [get?_insertAll]
  exact Option.or_none

/-- What is found among pairs is one of them. -/
theorem mem_of_get?_ofPairs {pairs : List (String × α)} {key : String} {value : α}
    (h : (Entries.ofPairs pairs).get? key = some value) : (key, value) ∈ pairs := by
  rw [get?_ofPairs] at h
  exact List.mem_reverse.mp (mem_of_get? h)

/-- A look-up finds an entry in front of which no entry has its key. -/
theorem get?_eq_some_iff {entries : Entries α} {key : String} {value : α} :
    entries.get? key = some value ↔
      ∃ before after, entries = before ++ (key, value) :: after ∧ key ∉ before.keys := by
  induction entries with
  | nil => simp [Entries.get?]
  | cons entry rest ih =>
    rw [get?_cons]
    by_cases hkey : key = entry.1
    · rw [if_pos hkey, Option.some.injEq]
      constructor
      · rintro rfl
        exact ⟨[], rest, by rw [hkey]; rfl, List.not_mem_nil⟩
      · rintro ⟨_ | ⟨first, before⟩, after, happend, hnone⟩
        · rw [(List.cons.inj happend).1]
        · refine absurd (List.mem_cons.mpr (.inl ?_)) hnone
          rw [hkey, (List.cons.inj happend).1]
    · rw [if_neg hkey, ih]
      constructor
      · rintro ⟨before, after, rfl, hnone⟩
        refine ⟨entry :: before, after, rfl, fun hmem => ?_⟩
        exact (List.mem_cons.mp hmem).elim hkey hnone
      · rintro ⟨_ | ⟨first, before⟩, after, happend, hnone⟩
        · exact absurd (congrArg Prod.fst (List.cons.inj happend).1).symm hkey
        · refine ⟨before, after, (List.cons.inj happend).2, fun hmem => hnone ?_⟩
          exact List.mem_cons_of_mem _ hmem

/-- Of several pairs for a key the last one is found. -/
theorem get?_ofPairs_eq_some_iff {pairs : List (String × α)} {key : String} {value : α} :
    (Entries.ofPairs pairs).get? key = some value ↔
      ∃ before after, pairs = before ++ (key, value) :: after ∧ key ∉ Entries.keys after := by
  rw [get?_ofPairs, get?_eq_some_iff]
  constructor
  · rintro ⟨before, after, happend, hnone⟩
    refine ⟨after.reverse, before.reverse, ?_, ?_⟩
    · rw [← List.reverse_reverse pairs, happend]
      simp
    · simpa [Entries.keys] using hnone
  · rintro ⟨before, after, rfl, hnone⟩
    exact ⟨after.reverse, before.reverse, by simp, by simpa [Entries.keys] using hnone⟩

/-- What is found among values that are collected by key is the last value of the key. -/
theorem exists_last_of_get?_ofPairs {β : Type} {items : List β} {keyOf : β → String}
    {valueOf : β → α} {key : String} {value : α}
    (h : (Entries.ofPairs (items.map fun item => (keyOf item, valueOf item))).get? key =
      some value) :
    ∃ before item after, items = before ++ item :: after ∧ keyOf item = key ∧
      valueOf item = value ∧ ∀ later ∈ after, keyOf later ≠ key := by
  obtain ⟨pairs, more, hpairs, hlast⟩ := get?_ofPairs_eq_some_iff.mp h
  obtain ⟨before, others, rfl, -, hothers⟩ := List.map_eq_append_iff.mp hpairs
  obtain ⟨item, after, rfl, hitem, rfl⟩ := List.map_eq_cons_iff.mp hothers
  obtain ⟨hkey, hvalue⟩ := Prod.mk.inj hitem
  refine ⟨before, item, after, rfl, hkey, hvalue, fun later hlater hsame => hlast ?_⟩
  exact List.mem_map.mpr ⟨_, List.mem_map_of_mem hlater, hsame⟩

/-- Pairs have the keys that they are given. -/
theorem mem_keys_ofPairs_iff {pairs : List (String × α)} {key : String} :
    key ∈ (Entries.ofPairs pairs).keys ↔ key ∈ Entries.keys pairs := by
  rw [← exists_get?_iff, get?_ofPairs, exists_get?_iff]
  unfold Entries.keys
  rw [List.map_reverse, List.mem_reverse]

/-- Pairs do not change what is found under other keys. -/
theorem get?_insertAll_of_not_mem {entries : Entries α} {pairs : List (String × α)} {key : String}
    (h : key ∉ pairs.map Prod.fst) : (entries.insertAll pairs).get? key = entries.get? key := by
  have hnone : Entries.get? pairs.reverse key = none := by
    rw [get?_eq_none_iff]
    unfold Entries.keys
    rw [List.map_reverse, List.mem_reverse]
    exact h
  rw [get?_insertAll, hnone, Option.none_or]

/-- The value that all pairs of a key have is found. -/
theorem get?_insertAll_of_forall {entries : Entries α} {pairs : List (String × α)} {key : String}
    {value : α} (hmem : key ∈ pairs.map Prod.fst)
    (hsame : ∀ pair ∈ pairs, pair.1 = key → pair.2 = value) :
    (entries.insertAll pairs).get? key = some value := by
  obtain ⟨found, hfound⟩ : ∃ found, Entries.get? pairs.reverse key = some found := by
    rw [exists_get?_iff]
    unfold Entries.keys
    rw [List.map_reverse, List.mem_reverse]
    exact hmem
  have hvalue : found = value :=
    hsame (key, found) (List.mem_reverse.mp (mem_of_get? hfound)) rfl
  rw [get?_insertAll, hfound, Option.some_or, hvalue]

/-! ## Keys -/

/-- An insertion adds its key behind the others, unless it is there. -/
theorem keys_insert (entries : Entries α) (key : String) (value : α) :
    (entries.insert key value).keys =
      if key ∈ entries.keys then entries.keys else entries.keys ++ [key] := by
  unfold Entries.keys
  induction entries with
  | nil => rfl
  | cons first rest ih =>
    obtain ⟨name, present⟩ := first
    rw [Entries.insert]
    by_cases hname : name = key
    · rw [if_pos hname, List.map_cons, List.map_cons, if_pos]
      rw [hname]
      exact List.mem_cons_self
    · rw [if_neg hname, List.map_cons, List.map_cons, ih]
      by_cases hmem : key ∈ rest.map Prod.fst
      · rw [if_pos hmem, if_pos (List.mem_cons_of_mem _ hmem)]
      · have hnone : key ∉ name :: rest.map Prod.fst := by
          rw [List.mem_cons, not_or]
          exact ⟨fun h => hname h.symm, hmem⟩
        rw [if_neg hmem, if_neg hnone, List.cons_append]

/-- An insertion keeps the keys different. -/
theorem nodup_keys_insert {entries : Entries α} (h : entries.keys.Nodup) (key : String)
    (value : α) : (entries.insert key value).keys.Nodup := by
  rw [keys_insert]
  by_cases hmem : key ∈ entries.keys
  · rw [if_pos hmem]
    exact h
  · rw [if_neg hmem]
    exact List.nodup_append.mpr ⟨h, List.pairwise_singleton _ _, by
      intro other hother last hlast
      rw [List.mem_singleton.mp hlast]
      rintro rfl
      exact hmem hother⟩

/-- Pairs become entries of different keys. -/
theorem nodup_keys_ofPairs (pairs : List (String × α)) : (Entries.ofPairs pairs).keys.Nodup := by
  unfold Entries.ofPairs Entries.insertAll
  refine List.foldlRecOn (motive := fun entries : Entries α => entries.keys.Nodup) pairs _
    List.nodup_nil ?_
  intro entries hentries pair _
  exact nodup_keys_insert hentries pair.1 pair.2

/-- A new key is inserted at the end. -/
theorem insert_of_not_mem {entries : Entries α} {key : String} (h : key ∉ entries.keys)
    (value : α) : entries.insert key value = entries ++ [(key, value)] := by
  unfold Entries.keys at h
  induction entries with
  | nil => rfl
  | cons first rest ih =>
    obtain ⟨name, present⟩ := first
    rw [List.map_cons, List.mem_cons, not_or] at h
    rw [Entries.insert, if_neg fun hname => h.1 hname.symm, ih h.2, List.cons_append]

/-- Pairs of new and different keys are inserted at the end. -/
theorem insertAll_of_nodup {entries : Entries α} {pairs : List (String × α)}
    (h : (entries.keys ++ pairs.map Prod.fst).Nodup) :
    entries.insertAll pairs = entries ++ pairs := by
  induction pairs generalizing entries with
  | nil => exact (List.append_nil _).symm
  | cons first rest ih =>
    have hnew : first.1 ∉ entries.keys := by
      intro hmem
      exact (List.nodup_append.mp h).2.2 _ hmem _ List.mem_cons_self rfl
    have hstep : entries.insert first.1 first.2 = entries ++ [first] := insert_of_not_mem hnew _
    have hrest : (Entries.keys (entries ++ [first]) ++ rest.map Prod.fst).Nodup := by
      unfold Entries.keys
      rw [List.map_append, List.append_assoc]
      exact h
    have hlast := ih hrest
    rw [List.append_assoc] at hlast
    exact (congrArg (Entries.insertAll · rest) hstep).trans hlast

/-- Pairs of different keys are entries as they are. -/
theorem ofPairs_eq_self {pairs : List (String × α)} (h : (pairs.map Prod.fst).Nodup) :
    Entries.ofPairs pairs = pairs :=
  insertAll_of_nodup h

/-- Mapped values have the same keys. -/
theorem keys_mapValues {β : Type} (f : α → β) (entries : Entries α) :
    (entries.mapValues f).keys = entries.keys := by
  unfold Entries.mapValues Entries.keys
  rw [List.map_map]
  rfl

/-- Mapped values are found under the same keys. -/
theorem get?_mapValues {β : Type} (f : α → β) (entries : Entries α) (key : String) :
    (entries.mapValues f).get? key = (entries.get? key).map f := by
  unfold Entries.mapValues
  induction entries with
  | nil => rfl
  | cons first rest ih =>
    rw [List.map_cons, get?_cons, get?_cons, ih]
    by_cases hkey : key = first.1
    · rw [if_pos hkey, if_pos hkey, Option.map_some]
    · rw [if_neg hkey, if_neg hkey]

/-- Entries that keep their keys, as far as they are left, keep them different. -/
theorem nodup_keys_filterMap {β : Type} {entries : Entries α} (h : entries.keys.Nodup)
    {change : String × α → Option (String × β)}
    (hkey : ∀ entry changed, change entry = some changed → changed.1 = entry.1) :
    (Entries.keys (entries.filterMap change)).Nodup := by
  unfold Entries.keys List.Nodup at h ⊢
  rw [List.pairwise_map] at h ⊢
  rw [List.pairwise_filterMap]
  refine h.imp fun hne first hfirst second hsecond => ?_
  rw [hkey _ _ hfirst, hkey _ _ hsecond]
  exact hne

/-- Entries that are left have different keys. -/
theorem nodup_keys_filter {entries : Entries α} (h : entries.keys.Nodup)
    (keep : String × α → Bool) : (Entries.keys (entries.filter keep)).Nodup := by
  unfold Entries.keys at h ⊢
  exact h.sublist (List.filter_sublist.map Prod.fst)

/-- With different keys, what is found is what is there. -/
theorem get?_eq_some_iff_mem {entries : Entries α} (h : entries.keys.Nodup) {key : String}
    {value : α} : entries.get? key = some value ↔ (key, value) ∈ entries :=
  ⟨mem_of_get?, get?_of_mem h⟩

/-- What is found under different keys when every value is changed or dropped. -/
theorem get?_filterMap {β : Type} {entries : Entries α} (h : entries.keys.Nodup)
    (change : String → α → Option β) (key : String) :
    Entries.get? (entries.filterMap fun entry => (change entry.1 entry.2).map (Prod.mk entry.1))
        key = (entries.get? key).bind (change key) := by
  induction entries with
  | nil => rfl
  | cons first rest ih =>
    obtain ⟨hnew, hdistinct⟩ := List.nodup_cons.mp h
    have hrest := ih hdistinct
    rw [List.filterMap_cons, get?_cons]
    by_cases hkey : key = first.1
    · subst hkey
      rw [if_pos rfl, Option.bind_some]
      cases change first.1 first.2 with
      | none =>
        rw [Option.map_none]
        dsimp only
        rw [hrest, get?_eq_none_iff.mpr hnew, Option.bind_none]
      | some changed =>
        rw [Option.map_some]
        dsimp only
        rw [get?_cons, if_pos rfl]
    · rw [if_neg hkey, ← hrest]
      cases change first.1 first.2 with
      | none => rfl
      | some changed =>
        rw [Option.map_some]
        dsimp only
        rw [get?_cons, if_neg hkey]

/-- Of entries of different keys the same is found in any order. -/
theorem get?_of_perm {entries others : Entries α} (h : entries.Perm others)
    (hdistinct : entries.keys.Nodup) (key : String) : others.get? key = entries.get? key := by
  have hothers : others.keys.Nodup := (h.map Prod.fst).nodup_iff.mp hdistinct
  refine Option.ext fun value => ?_
  rw [get?_eq_some_iff_mem hothers, get?_eq_some_iff_mem hdistinct, h.mem_iff]

/-! ## Values that are written or dropped -/

/-- The last entry takes the place of the one that is dropped. -/
theorem swapErase_append {before : Entries α} {key : String} (h : key ∉ before.keys) (value : α)
    (after : Entries α) :
    Entries.swapErase (before ++ (key, value) :: after) key =
      before ++ (after.getLast?.toList ++ after.dropLast) := by
  unfold Entries.keys at h
  induction before with
  | nil => exact if_pos rfl
  | cons first rest ih =>
    rw [List.map_cons, List.mem_cons, not_or] at h
    rw [List.cons_append, swapErase, if_neg fun hfirst => h.1 hfirst.symm, ih h.2, List.cons_append]

/-- A key that is not there is not dropped. -/
theorem swapErase_of_not_mem {entries : Entries α} {key : String} (h : key ∉ entries.keys) :
    entries.swapErase key = entries := by
  unfold Entries.keys at h
  induction entries with
  | nil => rfl
  | cons first rest ih =>
    rw [List.map_cons, List.mem_cons, not_or] at h
    rw [swapErase, if_neg fun hfirst => h.1 hfirst.symm, ih h.2]

/-- With the entry that is dropped they are the same, up to order. -/
theorem perm_swapErase {entries : Entries α} {key : String} {value : α}
    (h : entries.get? key = some value) :
    entries.Perm ((key, value) :: entries.swapErase key) := by
  obtain ⟨before, after, rfl, hbefore⟩ := get?_eq_some_iff.mp h
  have hlast : (after.getLast?.toList ++ after.dropLast).Perm after := by
    rcases List.eq_nil_or_concat' after with rfl | ⟨others, last, rfl⟩
    · exact .refl _
    · rw [List.getLast?_concat, List.dropLast_concat]
      exact List.perm_append_comm
  rw [swapErase_append hbefore]
  exact List.perm_middle.trans (.cons _ (hlast.symm.append_left before))

/-- Without a dropped key the keys are still different, and it is not among them. -/
theorem nodup_keys_swapErase {entries : Entries α} (h : entries.keys.Nodup) (key : String) :
    (entries.swapErase key).keys.Nodup ∧ key ∉ (entries.swapErase key).keys := by
  cases hfound : entries.get? key with
  | none =>
    have hnone := get?_eq_none_iff.mp hfound
    rw [swapErase_of_not_mem hnone]
    exact ⟨h, hnone⟩
  | some value =>
    have hall := ((perm_swapErase hfound).map Prod.fst).nodup_iff.mp h
    exact (List.nodup_cons.mp hall).symm

/-- What is found of entries of different keys after one is dropped. -/
theorem get?_swapErase {entries : Entries α} (h : entries.keys.Nodup) (key other : String) :
    (entries.swapErase key).get? other = if other = key then none else entries.get? other := by
  by_cases hother : other = key
  · rw [if_pos hother, hother, get?_eq_none_iff]
    exact (nodup_keys_swapErase h key).2
  · rw [if_neg hother]
    cases hfound : entries.get? key with
    | none => rw [swapErase_of_not_mem (get?_eq_none_iff.mp hfound)]
    | some value =>
      rw [← get?_of_perm (perm_swapErase hfound) h, get?_cons, if_neg hother]

/-- What is found of entries of different keys after one is assigned. -/
theorem get?_assign {entries : Entries α} (h : entries.keys.Nodup) (key : String)
    (value? : Option α) (other : String) :
    (entries.assign key value?).get? other =
      if other = key then value? else entries.get? other := by
  cases value? with
  | none => exact get?_swapErase h key other
  | some value => exact get?_insert entries key value other

/-- The keys are different when one is assigned. -/
theorem nodup_keys_assign {entries : Entries α} (h : entries.keys.Nodup) (key : String)
    (value? : Option α) : (entries.assign key value?).keys.Nodup := by
  cases value? with
  | none => exact (nodup_keys_swapErase h key).1
  | some value => exact nodup_keys_insert h key value

/-- Assigns the pairs one after another. -/
def assignAll (entries : Entries α) (pairs : List (String × Option α)) : Entries α :=
  pairs.foldl (fun entries pair => entries.assign pair.1 pair.2) entries

/-- Under the keys that are not assigned the same is found. -/
theorem get?_assignAll_of_not_mem {entries : Entries α} (h : entries.keys.Nodup)
    {pairs : List (String × Option α)} {key : String} (hkey : key ∉ pairs.map Prod.fst) :
    (entries.assignAll pairs).get? key = entries.get? key := by
  induction pairs generalizing entries with
  | nil => rfl
  | cons first rest ih =>
    rw [List.map_cons, List.mem_cons, not_or] at hkey
    have hrest := ih (nodup_keys_assign h first.1 first.2) hkey.2
    rw [get?_assign h, if_neg hkey.1] at hrest
    exact hrest

/-- Of different keys each has what it is assigned. -/
theorem get?_assignAll_of_mem {entries : Entries α} (h : entries.keys.Nodup)
    {pairs : List (String × Option α)} (hdistinct : (pairs.map Prod.fst).Nodup) {key : String}
    {value? : Option α} (hmem : (key, value?) ∈ pairs) :
    (entries.assignAll pairs).get? key = value? := by
  induction pairs generalizing entries with
  | nil => exact absurd hmem List.not_mem_nil
  | cons first rest ih =>
    obtain ⟨hfirst, hrest⟩ := List.nodup_cons.mp hdistinct
    have hassigned := nodup_keys_assign h first.1 first.2
    rcases List.mem_cons.mp hmem with rfl | hmem
    · -- No later pair has the key.
      refine (get?_assignAll_of_not_mem hassigned hfirst).trans ?_
      rw [get?_assign h, if_pos rfl]
    · exact ih hassigned hrest hmem

/-! ## Entries that stay -/

section SameBut

variable {names more : List String} {entries between others : Entries α} {key : String}

/-- Entries differ from others at most under some keys: all others are the same, in the same
order. -/
def SameBut (names : List String) (entries others : Entries α) : Prop :=
  others.filter (·.1 ∉ names) = entries.filter (·.1 ∉ names)

/-- Entries may differ under more keys in two steps. -/
theorem SameBut.trans (h : SameBut names entries between) (hmore : SameBut more between others) :
    SameBut (names ++ more) entries others := by
  unfold SameBut at h hmore ⊢
  have hboth (entries : Entries α) : entries.filter (·.1 ∉ names ++ more) =
      (entries.filter (·.1 ∉ more)).filter (·.1 ∉ names) := by
    rw [List.filter_filter]
    exact List.filter_congr fun entry _ => by simp
  rw [hboth others, hmore, List.filter_comm, h, List.filter_comm, ← hboth entries]

end SameBut

/-! ## Groups -/

/-- What is found after a value is pushed. -/
theorem get?_push (entries : Entries (List α)) (key : String) (value : α) (other : String) :
    (entries.push key value).get? other =
      if other = key then some ((entries.get? key).getD [] ++ [value]) else entries.get? other :=
  get?_insert ..

/-- A value that is pushed under different keys is found behind the others of each. -/
theorem get?_foldl_push {keys : List String} (hdistinct : keys.Nodup)
    (entries : Entries (List α)) (value : α) (key : String) :
    (keys.foldl (fun entries key => Entries.push entries key value) entries).get? key =
      if key ∈ keys then some ((entries.get? key).getD [] ++ [value]) else entries.get? key := by
  induction keys generalizing entries with
  | nil => rw [List.foldl_nil, if_neg List.not_mem_nil]
  | cons first rest ih =>
    obtain ⟨hfirst, hrest⟩ := List.nodup_cons.mp hdistinct
    rw [List.foldl_cons, ih hrest, get?_push]
    by_cases hkey : key = first
    · rw [hkey, if_neg hfirst, if_pos rfl, if_pos List.mem_cons_self]
    · rw [if_neg hkey]
      simp only [List.mem_cons, hkey, false_or]

/-- Entries are the groups of items by their keys: under each key stand the values of the items that
have it, in order, and no key stands twice or for no item. -/
structure Groups {β : Type} (keysOf : β → List String) (valueOf : β → α) (items : List β)
    (groups : Entries (List α)) : Prop where
  /-- No key stands twice. -/
  distinct : groups.keys.Nodup
  /-- What stands under a key. -/
  found : ∀ key values, groups.get? key = some values ↔
    values = (items.filter fun item => decide (key ∈ keysOf item)).map valueOf ∧ values ≠ []

/-- The values of a key, if any, are those of its items. -/
theorem Groups.getD {β : Type} {keysOf : β → List String} {valueOf : β → α} {items : List β}
    {groups : Entries (List α)} (h : Groups keysOf valueOf items groups) (key : String) :
    (groups.get? key).getD [] =
      (items.filter fun item => decide (key ∈ keysOf item)).map valueOf := by
  cases hfound : groups.get? key with
  | some values => exact ((h.found key values).mp hfound).1
  | none =>
    by_contra hsome
    have hvalues := (h.found key _).mpr ⟨rfl, fun hnil => hsome hnil.symm⟩
    exact absurd (hfound.symm.trans hvalues) (by simp)

/-- Pushing items one after another under their keys groups them. -/
theorem groups_foldl_push {β : Type} {keysOf : β → List String} {valueOf : β → α}
    {items : List β} (hdistinct : ∀ item ∈ items, (keysOf item).Nodup) :
    Groups keysOf valueOf items
      (items.foldl (fun groups item => (keysOf item).foldl
        (fun groups key => Entries.push groups key (valueOf item)) groups) []) := by
  induction items using List.reverseRecOn with
  | nil =>
    refine ⟨List.nodup_nil, fun key values => ?_⟩
    simp [Entries.get?]
  | append_singleton items last ih =>
    have hitems := ih fun item hitem => hdistinct item (List.mem_append_left _ hitem)
    have hlast := hdistinct last (List.mem_append_right _ (List.mem_singleton.mpr rfl))
    rw [List.foldl_append, List.foldl_cons, List.foldl_nil]
    refine ⟨?_, fun key values => ?_⟩
    · refine List.foldlRecOn (motive := fun groups : Entries (List α) => groups.keys.Nodup)
        (keysOf last) _ hitems.distinct fun groups hgroups key _ => ?_
      exact nodup_keys_insert hgroups _ _
    · rw [get?_foldl_push hlast, List.filter_append, List.map_append, hitems.getD]
      by_cases hkey : key ∈ keysOf last
      · have hone : [last].filter (fun item => decide (key ∈ keysOf item)) = [last] := by
          simp [hkey]
        rw [if_pos hkey, hone, List.map_singleton, Option.some.injEq]
        constructor
        · rintro rfl
          exact ⟨rfl, by simp⟩
        · exact fun h => h.1.symm
      · have hnone : [last].filter (fun item => decide (key ∈ keysOf item)) = [] := by
          simp [hkey]
        rw [if_neg hkey, hnone, List.map_nil, List.append_nil]
        exact hitems.found key values

/-! ## Weights -/

/-- The weights of the entries whose keys are not among the names, in total. -/
def totalWithout (weight : α → Nat) (entries : Entries α) (names : List String) : Nat :=
  ((entries.filter fun entry => !names.contains entry.1).map fun entry =>
    weight entry.2).foldr (· + ·) 0

/-- Without any name the total is that of all values. -/
theorem totalWithout_nil (weight : α → Nat) (entries : Entries α) :
    entries.totalWithout weight [] = (entries.values.map weight).foldr (· + ·) 0 := by
  have hall : (entries.filter fun entry => !([] : List String).contains entry.1) = entries :=
    List.filter_eq_self.mpr fun _ _ => rfl
  unfold totalWithout Entries.values
  rw [hall, List.map_map]
  rfl

/-- The total is not more without one more name. -/
theorem totalWithout_concat_le (weight : α → Nat) (entries : Entries α) (names : List String)
    (name : String) :
    entries.totalWithout weight (names ++ [name]) ≤ entries.totalWithout weight names := by
  unfold totalWithout
  induction entries with
  | nil => exact Nat.le_refl _
  | cons first rest ih =>
    rw [List.filter_cons, List.filter_cons, List.contains_append]
    cases hfirst : names.contains first.1 with
    | true => exact ih
    | false =>
      cases hname : [name].contains first.1 with
      | true =>
        simp only [Bool.false_or, Bool.not_true, Bool.not_false, Bool.false_eq_true, if_true,
          if_false, List.map_cons, List.foldr_cons]
        omega
      | false =>
        simp only [Bool.false_or, Bool.not_false, if_true, List.map_cons, List.foldr_cons]
        omega

/-- Without one more name, the weight of its value is missing in the total. -/
theorem totalWithout_concat_add_le (weight : α → Nat) {entries : Entries α}
    {names : List String} {name : String} {value : α} (hfound : entries.get? name = some value)
    (hfresh : name ∉ names) :
    entries.totalWithout weight (names ++ [name]) + weight value ≤
      entries.totalWithout weight names := by
  induction entries with
  | nil => exact absurd hfound (by simp [Entries.get?])
  | cons first rest ih =>
    rw [get?_cons] at hfound
    by_cases hname : name = first.1
    · -- The first entry is the one of the name and no longer counts; the rest counts no more.
      rw [if_pos hname, Option.some.injEq] at hfound
      have hrest := totalWithout_concat_le weight rest names name
      have hfirst : names.contains first.1 = false := by
        rw [← hname]
        simpa using hfresh
      unfold totalWithout at hrest ⊢
      rw [List.filter_cons, List.filter_cons, List.contains_append, hfirst, ← hname, hfound.symm]
      simp only [List.contains_cons, beq_self_eq_true, Bool.true_or, Bool.false_or, Bool.not_true,
        Bool.not_false, Bool.false_eq_true, if_true, if_false, List.map_cons, List.foldr_cons]
      omega
    · rw [if_neg hname] at hfound
      have hrest := ih hfound
      unfold totalWithout at hrest ⊢
      rw [List.filter_cons, List.filter_cons, List.contains_append]
      have hother : [name].contains first.1 = false := by
        simpa using fun h => hname h.symm
      rw [hother, Bool.or_false]
      cases names.contains first.1 with
      | true => exact hrest
      | false =>
        simp only [Bool.not_false, if_true, List.map_cons, List.foldr_cons]
        omega

end Entries

end Gateway
