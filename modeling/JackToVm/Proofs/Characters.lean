import JackToVm.Lexer

/-!
# Classes of characters

The first character of an item decides what it is, so the classes of first characters have to be
apart: blanks, symbols, digits and the characters that start a name.

Results.
1. Blanks are in no names (`continuesName_eq_false_of_isBlank`).
2. Symbols are in no names (`Symbol.ofChar?_eq_none`).
3. A digit goes on with a name, but starts none (`continuesName_of_isDigit`,
   `isDigit_eq_false_of_startsName`).
4. A number is read back from its digits (`decimal?_toString`).
-/

namespace JackToVm

/-- No range of one table meets a range of another one. -/
theorem inRanges_eq_false {table other : List CodeRange}
    (apart : ∀ r ∈ table, ∀ s ∈ other, r.2 < s.1 ∨ s.2 < r.1) {c : Char}
    (h : inRanges table c) : inRanges other c = false := by
  rw [inRanges, List.any_eq_true] at h
  obtain ⟨r, mem, inside⟩ := h
  rw [inRanges, List.any_eq_false]
  intro s mem'
  have := apart r mem s mem'
  simp only [Bool.and_eq_true, decide_eq_true_eq] at inside ⊢
  omega

theorem blank_apart_letter : ∀ r ∈ blankRanges, ∀ s ∈ letterRanges, r.2 < s.1 ∨ s.2 < r.1 := by
  decide +kernel

theorem blank_apart_number : ∀ r ∈ blankRanges, ∀ s ∈ numberRanges, r.2 < s.1 ∨ s.2 < r.1 := by
  decide +kernel

theorem not_alphanumeric {c : Char} (low : c.toNat ≤ 32) : (c.isAlpha || c.isDigit) = false := by
  rw [Char.toNat] at low
  delta Char.isAlpha Char.isUpper Char.isLower
  simp [Char.isDigit, UInt32.le_iff_toNat_le, -Char.toNat_val]
  omega

/-- Blanks are in no names. -/
theorem continuesName_eq_false_of_isBlank {c : Char} (blank : isBlank c) :
    continuesName c = false := by
  have underscore : c ≠ '_' := by
    rintro rfl
    revert blank
    decide
  unfold isBlank at blank
  simp only [continuesName, isLetterOrNumber, underscore, decide_false, Bool.false_or]
  split at blank
  · next ascii =>
    have low : c.toNat ≤ 32 := by
      simp only [Bool.or_eq_true, decide_eq_true_eq, Bool.and_eq_true] at blank
      rcases blank with rfl | ⟨-, high⟩
      · decide
      · omega
    rw [if_pos ascii, not_alphanumeric low]
  · next beyond =>
    have letters := inRanges_eq_false blank_apart_letter blank
    have numbers := inRanges_eq_false blank_apart_number blank
    rw [if_neg beyond, letters, numbers]
    rfl

/-- No symbol is a character of names. -/
theorem Symbol.ofChar?_eq_none {c : Char} (continues : continuesName c) :
    Symbol.ofChar? c = none := by
  cases found : Symbol.ofChar? c with
  | none => rfl
  | some s =>
    rw [Symbol.ofChar?_eq_some_iff] at found
    subst found
    exact absurd continues (by cases s <;> decide)

theorem isDigit_iff {c : Char} : isDigit c ↔ 48 ≤ c.toNat ∧ c.toNat ≤ 57 := by
  rw [Char.toNat]
  simp [isDigit, Char.isDigit, UInt32.le_iff_toNat_le, -Char.toNat_val]

theorem isDigit_of_mem_toDigits {n : Nat} {c : Char} (mem : c ∈ Nat.toDigits 10 n) : isDigit c :=
  Nat.isDigit_of_mem_toDigits (by decide) (by decide) mem

/-- The number that a text writes in decimal digits. -/
def decimal? (text : String) : Option Nat :=
  if !text.isEmpty && text.toList.all isDigit then some (Nat.ofDigitChars 10 text.toList 0)
  else none

theorem decimal?_toString (n : Nat) : decimal? (toString n) = some n := by
  have digits : (Nat.toDigits 10 n).all isDigit :=
    List.all_eq_true.2 fun c => isDigit_of_mem_toDigits
  simp [decimal?, digits, Nat.ofDigitChars_ten_toDigits]

theorem continuesName_of_isDigit {c : Char} (digit : isDigit c) : continuesName c := by
  have ascii : c.toNat < 0x80 := by
    have := isDigit_iff.1 digit
    omega
  have inner : c.isDigit := digit
  simp [continuesName, isLetterOrNumber, ascii, inner]

theorem isDigit_eq_false_of_startsName {c : Char} (starts : startsName c) : isDigit c = false := by
  rw [Bool.eq_false_iff]
  intro digit
  have range := isDigit_iff.1 digit
  have ascii : c.toNat < 0x80 := by omega
  have underscore : c ≠ '_' := by
    rintro rfl
    revert digit
    decide
  simp only [startsName, underscore, decide_false, Bool.false_or, isLetter, if_pos ascii] at starts
  rw [Char.toNat] at range
  delta Char.isAlpha Char.isUpper Char.isLower at starts
  simp [UInt32.le_iff_toNat_le, -Char.toNat_val] at starts
  omega

end JackToVm
