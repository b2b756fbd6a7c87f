import Lexing.Text.Blank
import Lexing.Vocabulary

/-!
# The roles of characters

How a source is cut into pieces depends on its characters only through four roles.
-/

namespace Lexing

/-- The part that a character plays outside comments. -/
inductive Role where
  /-- It stands between pieces. -/
  | blank
  /-- It is a piece by itself. -/
  | separator
  /-- It begins a comment. -/
  | mark
  /-- It belongs to a run. -/
  | plain
deriving DecidableEq, Repr

/-- The role of a character. No character could play two of the first three. -/
def Role.of (c : Char) : Role :=
  if Text.isBlank c then .blank
  else if c ∈ separators then .separator
  else if c = commentMark then .mark
  else .plain

end Lexing
