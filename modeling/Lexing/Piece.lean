import Lexing.Rule

/-!
# Pieces

Blanks and comments cut a source into pieces: separators, and the runs of characters between them.
What becomes of a piece is decided here. A separator is a token. A run is a token if a rule
recognizes it and a stray if none does. A run that a comment mark touches is dropped together with
the comment, and only the log still tells of it.
-/

namespace Lexing

/-- What a piece turned out to be. -/
inductive Form where
  /-- A single separator. -/
  | separator
  /-- A run that a blank, a separator or the end of the source closes. -/
  | run
  /-- A run that a comment mark follows at once. -/
  | dropped
deriving DecidableEq, Repr

/-- A piece of a source. -/
structure Piece where
  form : Form
  text : String
  span : Span
deriving DecidableEq, Repr

namespace Piece

/-- The token that a piece makes. -/
def token? (p : Piece) : Option Token :=
  match p.form with
  | .separator => some ⟨.separator, p.text, p.span⟩
  | .run => (Rule.recognize p.text).map fun (_, kind) => ⟨kind, p.text, p.span⟩
  | .dropped => none

/-- The stray that a piece makes. -/
def stray? (p : Piece) : Option Stray :=
  match p.form with
  | .run => if (Rule.recognize p.text).isNone then some ⟨p.text, p.span⟩ else none
  | .separator | .dropped => none

end Piece

end Lexing
