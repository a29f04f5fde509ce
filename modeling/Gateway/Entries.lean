/-!
# Entries in order

Keyed entries in the order in which their keys were first written. Overwriting a key keeps its
place, so the order is that of first insertion, unless a key is dropped and the last entry takes its
place (`Entries.swapErase`).
-/

namespace Gateway

/-- Values under text keys, in order; every key is meant to occur once. -/
abbrev Entries (α : Type) := List (String × α)

namespace Entries

variable {α β : Type}

/-- The value of the first entry with the key. -/
def get? (entries : Entries α) (key : String) : Option α :=
  List.lookup key entries

/-- Whether some entry has the key. -/
def contains (entries : Entries α) (key : String) : Bool :=
  (entries.get? key).isSome

/-- The keys in order. -/
def keys (entries : Entries α) : List String :=
  entries.map Prod.fst

/-- The values in order. -/
def values (entries : Entries α) : List α :=
  entries.map Prod.snd

/-- Replaces the value of the key where it stands, or adds an entry at the end. -/
def insert : Entries α → String → α → Entries α
  | [], key, value => [(key, value)]
  | (k, v) :: rest, key, value =>
    if k = key then (k, value) :: rest else (k, v) :: insert rest key value

/-- The entries without those of the key. -/
def erase (entries : Entries α) (key : String) : Entries α :=
  entries.filter (·.1 ≠ key)

/-- The entries without the one of the key, whose place the last entry takes. -/
def swapErase : Entries α → String → Entries α
  | [], _ => []
  | (k, v) :: rest, key =>
    if k = key then rest.getLast?.toList ++ rest.dropLast else (k, v) :: swapErase rest key

/-- Writes the value under the key; without a value the key is dropped. -/
def assign (entries : Entries α) (key : String) (value? : Option α) : Entries α :=
  match value? with
  | some value => entries.insert key value
  | none => entries.swapErase key

/-- The entries with every value mapped. -/
def mapValues (f : α → β) (entries : Entries α) : Entries β :=
  entries.map fun entry => (entry.1, f entry.2)

/-- Inserts the pairs one after another. -/
def insertAll (entries : Entries α) (pairs : List (String × α)) : Entries α :=
  pairs.foldl (fun acc pair => acc.insert pair.1 pair.2) entries

/-- The pairs as entries: a later pair replaces the value of an earlier one with its key. -/
def ofPairs (pairs : List (String × α)) : Entries α :=
  insertAll [] pairs

/-- Appends a value to the list under the key, which starts empty. -/
def push (entries : Entries (List α)) (key : String) (value : α) : Entries (List α) :=
  entries.insert key (((entries.get? key).getD []) ++ [value])

/-- The entries sorted by key, by code point. -/
def sorted (entries : Entries α) : Entries α :=
  entries.mergeSort fun a b => decide (a.1 ≤ b.1)

end Entries

end Gateway
