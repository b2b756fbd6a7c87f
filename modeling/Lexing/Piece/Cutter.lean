import Lexing.Cursor
import Lexing.Piece
import Lexing.Role

/-!
# Cutting a source into pieces

The cutter reads a source from left to right, one character at a time. Besides the cursor it keeps
only what stands open: nothing, a comment, a separator, or a run with the text it has so far. The
next character, or the end of the source, completes at most one piece, and does so before it is
read, so the span of the piece ends where the cursor stands.

`Cutter.pieces` says which pieces the rest of a source completes. `Piece.ofSource` computes them in
constant stack, and `Piece.ofSource_eq` says that the two agree.
-/

namespace Lexing

/-- What stands open after the characters read so far. -/
inductive Mode where
  /-- Nothing: only blanks since the last piece or comment. -/
  | idle
  /-- A comment, up to the end of its line. -/
  | comment
  /-- A separator, the character read last. -/
  | separator (mark : Char)
  /-- A run: the column of its first character, and its characters so far. -/
  | run (first : Nat) (text : String)
deriving DecidableEq, Repr

/-- What stands open once one more character, in the given column, has been read. A comment takes
in everything up to the newline; otherwise the role of the character decides. -/
def Mode.read (mode : Mode) (column : Nat) (c : Char) : Mode :=
  match mode with
  | .comment => if c = '\n' then .idle else .comment
  | .idle | .separator _ => opening c (.run column (String.singleton c))
  | .run first text => opening c (.run first (text.push c))
where
  /-- What a character opens outside comments; a plain one goes to the given run. -/
  opening (c : Char) (run : Mode) : Mode :=
    match Role.of c with
    | .blank => .idle
    | .separator => .separator c
    | .mark => .comment
    | .plain => run

/-- What a run turns out to be when the given character, or the end of the source, comes next;
`none` if the run goes on. -/
def Form.ofNext? : Option Char → Option Form
  | none => some .run
  | some c =>
    match Role.of c with
    | .blank | .separator => some .run
    | .mark => some .dropped
    | .plain => none

/-- The state of cutting: how far reading has got, and what stands open. -/
structure Cutter where
  /-- How far reading has got. -/
  cursor : Cursor
  /-- What stands open. -/
  mode : Mode
deriving DecidableEq, Repr

namespace Cutter

/-- The state before the first character. -/
def start : Cutter := ⟨.start, .idle⟩

/-- The state once one more character has been read. -/
def read (k : Cutter) (c : Char) : Cutter :=
  let cursor := k.cursor.advance c
  ⟨cursor, k.mode.read cursor.column c⟩

/-- The state once the given characters have been read. -/
def readAll (k : Cutter) (chars : List Char) : Cutter :=
  chars.foldl read k

/-- The piece that is complete when the given character, or the end of the source, comes next. -/
def settle (k : Cutter) (next : Option Char) : Option Piece :=
  let line := k.cursor.line
  let column := k.cursor.column
  match k.mode with
  | .idle | .comment => none
  | .separator mark => some ⟨.separator, String.singleton mark, ⟨line, column, column⟩⟩
  | .run first text =>
    (Form.ofNext? next).map fun form => ⟨form, text, ⟨line, first, column⟩⟩

/-- The pieces that the rest of a source completes, in order. -/
def pieces (k : Cutter) : List Char → List Piece
  | [] => (k.settle none).toList
  | c :: rest => (k.settle (some c)).toList ++ (k.read c).pieces rest

/-- Adds the pieces that the rest of a source completes to those that are done. -/
def collect (k : Cutter) (done : Array Piece) : List Char → Array Piece
  | [] => add done (k.settle none)
  | c :: rest =>
    -- The piece is settled first, so that the state is free to be changed in place.
    let done := add done (k.settle (some c))
    (k.read c).collect done rest
where
  /-- Adds a piece if there is one. -/
  add (done : Array Piece) : Option Piece → Array Piece
    | none => done
    | some p => done.push p

theorem toList_add (done : Array Piece) (p? : Option Piece) :
    (collect.add done p?).toList = done.toList ++ p?.toList := by
  cases p? <;> simp [collect.add]

theorem toList_collect (k : Cutter) (done : Array Piece) (chars : List Char) :
    (k.collect done chars).toList = done.toList ++ k.pieces chars := by
  induction chars generalizing k done with
  | nil => simp [collect, pieces, toList_add]
  | cons c rest ih => simp [collect, pieces, toList_add, ih]

end Cutter

/-- The pieces of a source, in order. -/
def Piece.ofSource (source : String) : List Piece :=
  (Cutter.start.collect #[] source.toList).toList

/-- What cutting computes: the pieces that the whole source completes from the start. -/
theorem Piece.ofSource_eq (source : String) :
    Piece.ofSource source = Cutter.start.pieces source.toList := by
  simp [Piece.ofSource, Cutter.toList_collect]

end Lexing
