import Gateway.Language.Name
import Mathlib.Data.List.Nodup
import Mathlib.Data.List.Perm.Subperm

/-!
# Generated names

Names are generated from numbers, until one is not taken. Different numbers are written differently
(`toString_inj`), and among more different names than are taken some name is free
(`exists_free_name`).
-/

namespace Gateway

/-- Different numbers are written differently. -/
theorem toString_inj {m n : Nat} : toString m = toString n ↔ m = n := by
  constructor
  · intro h
    have htext : String.ofList (Nat.toDigits 10 m) = String.ofList (Nat.toDigits 10 n) := h
    calc
      m = Nat.ofDigitChars 10 (Nat.toDigits 10 m) 0 := Nat.ofDigitChars_ten_toDigits.symm
      _ = Nat.ofDigitChars 10 (Nat.toDigits 10 n) 0 := by rw [String.ofList_injective htext]
      _ = n := Nat.ofDigitChars_ten_toDigits
  · rintro rfl
    rfl

/-- Among more names than are taken some name is free. -/
theorem exists_free_name (taken : List Name) {names : List Name} (hdistinct : names.Nodup)
    (hmore : taken.length < names.length) : ∃ name ∈ names, name ∉ taken := by
  by_contra hall
  push Not at hall
  have hlength := (List.subperm_of_subset hdistinct hall).length_le
  exact absurd hmore (Nat.not_lt.mpr hlength)

end Gateway
