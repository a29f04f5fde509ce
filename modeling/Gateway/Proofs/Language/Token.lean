import Gateway.Language.Token
import Mathlib.Data.List.TakeDrop
import Mathlib.Data.List.TakeWhile
import Mathlib.Tactic.Common

/-!
# Scanned tokens are sound

The scanner makes names of name characters only, and numbers of characters that end no line. So a
document can only hold names and numbers that are printed on one line (`isSound_of_mem_scan`).
-/

namespace Gateway

namespace Token

/-- A name is one, and a number stands on one line. -/
def IsSound : Token → Prop
  | .name text => Name.isValid text = true
  | .int text => '\n' ∉ text.toList
  | .float text => '\n' ∉ text.toList
  | _ => True

/-! ## Numbers -/

/-- Digits end no line. -/
theorem newline_not_mem_takeDigits (cs : List Char) : '\n' ∉ (Json.takeDigits cs).1 := by
  unfold Json.takeDigits
  rw [List.span_eq_takeWhile_dropWhile]
  intro h
  exact absurd (List.mem_takeWhile_imp h) (by decide)

/-- A sign ends no line. -/
theorem newline_not_mem_takeSign {signs : List Char} (hsigns : '\n' ∉ signs) (cs : List Char) :
    '\n' ∉ (takeSign signs cs).1 := by
  cases cs with
  | nil => exact List.not_mem_nil
  | cons c rest =>
    rw [takeSign]
    split
    · rename_i hmem
      rw [List.mem_singleton]
      rintro rfl
      exact hsigns (List.contains_iff_mem.mp hmem)
    · exact List.not_mem_nil

/-- A fraction ends no line. -/
theorem newline_not_mem_takeFraction? {cs fraction rest : List Char}
    (h : takeFraction? cs = some (fraction, rest)) : '\n' ∉ fraction := by
  unfold takeFraction? at h
  split at h
  · rename_i behind
    have hdigits := newline_not_mem_takeDigits behind
    split at h
    · exact absurd h (by simp)
    · rename_i heq
      rw [heq] at hdigits
      cases h
      exact List.not_mem_cons_of_ne_of_not_mem (by decide) hdigits
  · cases h
    exact List.not_mem_nil

/-- An exponent ends no line. -/
theorem newline_not_mem_takeExponent? {cs exponent rest : List Char}
    (h : takeExponent? cs = some (exponent, rest)) : '\n' ∉ exponent := by
  unfold takeExponent? at h
  split at h
  · rename_i c behind
    by_cases hc : c = 'e' ∨ c = 'E'
    · rw [if_pos hc] at h
      have hsign : '\n' ∉ (takeSign ['-', '+'] behind).1 :=
        newline_not_mem_takeSign (by decide) behind
      have hdigits := newline_not_mem_takeDigits (takeSign ['-', '+'] behind).2
      dsimp only at h
      split at h
      · exact absurd h (by simp)
      · rename_i heq
        rw [heq] at hdigits
        cases h
        rw [List.cons_append, List.mem_cons, List.mem_append]
        rintro (rfl | hmem | hmem)
        · exact absurd hc (by decide)
        · exact hsign hmem
        · exact hdigits hmem
    · rw [if_neg hc] at h
      cases h
      exact List.not_mem_nil
  · cases h
    exact List.not_mem_nil

/-- A number is sound. -/
theorem isSound_scanNumber {cs rest : List Char} {token : Token}
    (h : scanNumber cs = some (token, rest)) : token.IsSound := by
  unfold scanNumber at h
  have hsign : '\n' ∉ (takeSign ['-'] cs).1 := newline_not_mem_takeSign (by decide) cs
  have hwhole := newline_not_mem_takeDigits (takeSign ['-'] cs).2
  dsimp only at h
  split at h
  · obtain ⟨⟨fraction, behind⟩, hfraction, h⟩ := Option.bind_eq_some_iff.mp h
    obtain ⟨⟨exponent, last⟩, hexponent, h⟩ := Option.bind_eq_some_iff.mp h
    have hfraction := newline_not_mem_takeFraction? hfraction
    have hexponent := newline_not_mem_takeExponent? hexponent
    have htext : '\n' ∉ (takeSign ['-'] cs).1 ++ (Json.takeDigits (takeSign ['-'] cs).2).1 ++
        fraction ++ exponent := by
      simp only [List.mem_append, not_or]
      exact ⟨⟨⟨hsign, hwhole⟩, hfraction⟩, hexponent⟩
    split at h
    · exact absurd h (by simp)
    · split at h
      · cases h
        rw [IsSound, String.toList_ofList]
        exact htext
      · cases h
        rw [IsSound, String.toList_ofList]
        exact htext
  · exact absurd h (by simp)

/-! ## All tokens -/

/-- The characters of a name make a name. -/
theorem isValid_ofList {c : Char} {cs : List Char} (hc : Name.isStart c = true) :
    Name.isValid (String.ofList (c :: (cs.span Name.isContinue).1)) = true := by
  unfold Name.isValid
  rw [String.toList_ofList, List.span_eq_takeWhile_dropWhile]
  change (Name.isStart c && (cs.takeWhile Name.isContinue).all Name.isContinue) = true
  rw [hc, List.all_takeWhile]
  rfl

/-- Every scanned token is sound. -/
theorem isSound_of_mem_scanFrom {fuel : Nat} {isSeparated : Bool} {cs : List Char}
    {lexemes : List Lexeme} (h : scanFrom fuel isSeparated cs = some lexemes) :
    ∀ lexeme ∈ lexemes, lexeme.token.IsSound := by
  induction fuel generalizing isSeparated cs lexemes with
  | zero => exact absurd h (by simp [scanFrom])
  | succ fuel ih =>
    -- Every rule of the scanner puts one token in front of those of the rest, or none.
    have hcons : ∀ {first : Lexeme} {rest : List Char},
        (do return first :: (← scanFrom fuel false rest)) = some lexemes →
          first.token.IsSound → ∀ lexeme ∈ lexemes, lexeme.token.IsSound := by
      intro first rest h hfirst
      obtain ⟨others, hothers, h⟩ := Option.bind_eq_some_iff.mp h
      cases h
      exact List.forall_mem_cons.mpr ⟨hfirst, ih hothers⟩
    unfold scanFrom at h
    split at h
    · cases h
      exact fun _ hmem => absurd hmem List.not_mem_nil
    · exact ih h
    · exact ih h
    · exact hcons h trivial
    · obtain ⟨⟨raw, rest⟩, -, h⟩ := Option.bind_eq_some_iff.mp h
      exact hcons h trivial
    · obtain ⟨⟨value, rest⟩, -, h⟩ := Option.bind_eq_some_iff.mp h
      exact hcons h trivial
    · rename_i c rest _ _ _ _ _
      by_cases hblank : isBlank c = true
      · rw [if_pos hblank] at h
        exact ih h
      rw [if_neg hblank] at h
      by_cases hmark : isPunctuator c = true
      · rw [if_pos hmark] at h
        exact hcons h trivial
      rw [if_neg hmark] at h
      by_cases hstart : Name.isStart c = true
      · rw [if_pos hstart] at h
        exact hcons h (isValid_ofList hstart)
      · rw [if_neg hstart] at h
        obtain ⟨⟨number, rest⟩, hnumber, h⟩ := Option.bind_eq_some_iff.mp h
        exact hcons h (isSound_scanNumber hnumber)

/-- Every token of a text is sound. -/
theorem isSound_of_mem_scan {text : String} {lexemes : List Lexeme}
    (h : scan text = some lexemes) : ∀ lexeme ∈ lexemes, lexeme.token.IsSound :=
  isSound_of_mem_scanFrom h

end Token

end Gateway
