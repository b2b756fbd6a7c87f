import Lexing.Piece
import Lexing.Role
import Lexing.Text.Lines

/-!
# Pieces, line by line

What the pieces of a source are can be told from each of its lines alone. Leave away the comment;
what remains of the line is code. Each separator in the code is a piece, and so is each run of plain
characters that is as long as it can be. Only one thing depends on the comment: a run that it
follows at once is dropped.

This is a second account of what the cutter computes in one pass over the whole source.
-/

namespace Lexing.Piece

/-- Whether the character belongs to a run. -/
def isPlain (c : Char) : Bool := Role.of c = .plain

/-- The pieces of some code that begins after the given column. A run that the end of the code
closes turns out as `last` says. -/
def ofCode (line : Nat) (last : Form) (column : Nat) (code : List Char) : List Piece :=
  match code with
  | [] => []
  | c :: rest =>
    match Role.of c with
    | .blank | .mark => ofCode line last (column + 1) rest
    | .separator =>
      ⟨.separator, String.singleton c, ⟨line, column + 1, column + 1⟩⟩ ::
        ofCode line last (column + 1) rest
    | .plain =>
      let run := c :: rest.takeWhile isPlain
      let after := rest.dropWhile isPlain
      let form := if after.isEmpty then last else .run
      ⟨form, String.ofList run, ⟨line, column + 1, column + run.length⟩⟩ ::
        ofCode line last (column + run.length) after
termination_by code.length
decreasing_by
  all_goals
    have := (List.dropWhile_suffix isPlain (l := rest)).length_le
    simp only [List.length_cons]
    omega

/-- The code of a line: what stands before its first comment mark. -/
def code (line : List Char) : List Char := line.takeWhile (· != commentMark)

/-- What a run turns out to be if the end of the code closes it. -/
def lastForm (line : List Char) : Form := if commentMark ∈ line then .dropped else .run

/-- The pieces of what a line holds after the given column. -/
def ofLine (number column : Nat) (line : List Char) : List Piece :=
  ofCode number (lastForm line) column (code line)

/-- The pieces of consecutive lines, the first of which has the given number. -/
def ofLines (number : Nat) (lines : List (List Char)) : List Piece :=
  (lines.zipIdx number).flatMap fun (line, number) => ofLine number 0 line

/-- The pieces of a source, line by line. -/
def byLine (source : String) : List Piece := ofLines 1 (Text.lines source.toList)

end Lexing.Piece
