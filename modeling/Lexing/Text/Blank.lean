import Lexing.Text.Ranges

/-!
# Blanks

A blank is a character of the Unicode property White_Space: the ASCII blanks, the next-line and
no-break characters, the spaces of every width, and the line and paragraph separators. The
newline is one of them.
-/

namespace Lexing.Text

/-- The code points with the property White_Space. -/
def blankRanges : List (Nat × Nat) :=
  [(0x09, 0x0d), (0x20, 0x20), (0x85, 0x85), (0xa0, 0xa0), (0x1680, 0x1680), (0x2000, 0x200a),
    (0x2028, 0x2029), (0x202f, 0x202f), (0x205f, 0x205f), (0x3000, 0x3000)]

/-- Whether the character is blank. -/
def isBlank (c : Char) : Bool := within blankRanges c

/-- The blanks of ASCII that the core library knows are blanks here too. -/
theorem isBlank_of_isWhitespace {c : Char} (h : c.isWhitespace = true) : isBlank c = true := by
  simp only [Char.isWhitespace, Bool.or_eq_true, decide_eq_true_eq] at h
  rcases h with ((rfl | rfl) | rfl) | rfl <;> decide

example : isBlank '\n' = true := by decide

end Lexing.Text
