/-!
# Cursors

A cursor says how much of a text has been read: in bytes of its UTF-8 form, in lines, and in columns
of the line that reading has got to. Only the newline begins a line; every other character, whatever
its width, takes one column.
-/

namespace Lexing

/-- How far reading has got. -/
structure Cursor where
  /-- The bytes read so far. -/
  offset : Nat
  /-- The current line, counted from one. -/
  line : Nat
  /-- The column of the character read last, and zero at the beginning of a line. -/
  column : Nat
deriving DecidableEq, Repr

namespace Cursor

/-- The cursor before the first character. -/
def start : Cursor := ⟨0, 1, 0⟩

/-- The cursor once one more character has been read. -/
def advance (p : Cursor) (c : Char) : Cursor :=
  if c = '\n' then ⟨p.offset + c.utf8Size, p.line + 1, 0⟩
  else ⟨p.offset + c.utf8Size, p.line, p.column + 1⟩

/-- The cursor once the given characters have been read. -/
def advanceAll (p : Cursor) (chars : List Char) : Cursor :=
  chars.foldl advance p

end Cursor

end Lexing
