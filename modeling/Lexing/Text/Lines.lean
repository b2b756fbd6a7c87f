import Lexing.Span

/-!
# Lines

A newline ends a line and nothing else does, so a text has one line more than it has newlines; the
last line may be empty. Spans point into the lines of a text, counting lines and columns from one.
-/

namespace Lexing.Text

/-- The lines of a text, without their newlines. -/
def lines (chars : List Char) : List (List Char) :=
  chars.foldr (fun c ls => if c = '\n' then [] :: ls else ls.modifyHead (c :: ·)) [[]]

@[simp] theorem lines_nil : lines [] = [[]] := rfl

@[simp] theorem lines_newline (chars : List Char) : lines ('\n' :: chars) = [] :: lines chars := by
  simp [lines]

theorem lines_cons {c : Char} (h : c ≠ '\n') (chars : List Char) :
    lines (c :: chars) = (lines chars).modifyHead (c :: ·) := by
  simp [lines, h]

/-- A newline cuts off the line in front of it. -/
theorem lines_append_newline {line : List Char} (h : '\n' ∉ line) (rest : List Char) :
    lines (line ++ '\n' :: rest) = line :: lines rest := by
  induction line with
  | nil => exact lines_newline rest
  | cons c line ih =>
    rw [List.mem_cons, not_or] at h
    rw [List.cons_append, lines_cons (fun e => h.1 e.symm), ih h.2]
    rfl

/-- There is one line more than there are newlines. -/
theorem length_lines (chars : List Char) : (lines chars).length = chars.count '\n' + 1 := by
  induction chars with
  | nil => rfl
  | cons c rest ih =>
    by_cases h : c = '\n'
    · subst h; simp [ih]
    · simp [lines_cons h, ih, h]

/-- The characters that a span of a text covers. -/
def slice (chars : List Char) (s : Span) : List Char :=
  let line := (lines chars)[s.line - 1]?.getD []
  (line.drop (s.first - 1)).take (s.last + 1 - s.first)

example : slice "let\n  x1 = 2".toList ⟨2, 3, 4⟩ = ['x', '1'] := by decide

end Lexing.Text
