import Lexing.Fault
import Lexing.Piece.Cutter

/-!
# Lexing a source

Lexing a source gives its tokens and, beside them, the strays: the runs that no rule recognizes. It
never fails. A caller that wants nothing but tokens asks for them strictly and gets a fault for the
first stray.
-/

namespace Lexing

/-- What a source was found to hold, in the order of the source. -/
structure Lexed where
  tokens : List Token
  strays : List Stray
deriving DecidableEq, Repr

namespace Lexed

/-- The tokens and strays among the pieces. -/
def ofPieces (pieces : List Piece) : Lexed :=
  ⟨pieces.filterMap Piece.token?, pieces.filterMap Piece.stray?⟩

/-- Whether every run was recognized. -/
def isClean (l : Lexed) : Bool := l.strays.isEmpty

/-- The tokens, or a fault for the first stray. -/
def strict (l : Lexed) : Except Fault (List Token) :=
  match l.strays with
  | [] => .ok l.tokens
  | stray :: _ => .error (.unrecognized stray)

end Lexed

/-- The tokens and strays of a source. -/
def lex (source : String) : Lexed := .ofPieces (Piece.ofSource source)

/-- The tokens of a source, or a fault for its first stray. -/
def lexStrict (source : String) : Except Fault (List Token) := (lex source).strict

end Lexing
