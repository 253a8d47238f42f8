import JackToVm.Text.CodeRange

/-!
# White space

The characters that separate tokens: the Unicode property `White_Space`.
-/

namespace JackToVm

/-- The ranges of `White_Space` beyond ASCII. -/
def blankRanges : List CodeRange := [
  (0x85, 0x85), (0xA0, 0xA0), (0x1680, 0x1680), (0x2000, 0x200A), (0x2028, 0x2029),
  (0x202F, 0x202F), (0x205F, 0x205F), (0x3000, 0x3000)]

/-- White space: tab, line feed, vertical tab, form feed, carriage return and the space in ASCII,
the table beyond. -/
def isBlank (c : Char) : Bool :=
  if c.toNat < 0x80 then c = ' ' || (9 ≤ c.toNat && c.toNat ≤ 13)
  else inRanges blankRanges c

/-- Everything that the core library calls white space is blank. -/
theorem isBlank_of_isWhitespace {c : Char} (h : c.isWhitespace) : isBlank c := by
  simp only [Char.isWhitespace, Bool.or_eq_true, decide_eq_true_eq] at h
  rcases h with ((rfl | rfl) | rfl) | rfl <;> decide

example : isBlank '\u00a0' ∧ isBlank '\u3000' ∧ ¬ isBlank '\u200b' := by decide

end JackToVm
