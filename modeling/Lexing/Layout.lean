import Lexing.Role

/-!
# Layouts

A layout is a way to write down a list of texts so that they can be told apart again: separators
and runs, with blanks and comments in the gaps between them. Lexing looks only at the texts, so all
layouts of the same texts are the same to it.

Two things have to be minded. Two runs need a gap between them, or they would be one run. And a
comment must not follow a run at once, or the run would be dropped with it.
-/

namespace Lexing

/-- Something that fills a gap. -/
inductive Filler where
  /-- A blank character. -/
  | blank (c : Char)
  /-- A comment, from its mark to its newline, with the given text between. -/
  | comment (text : List Char)
deriving DecidableEq, Repr

namespace Filler

/-- The characters of a filler. -/
def chars : Filler → List Char
  | .blank c => [c]
  | .comment text => commentMark :: text ++ ['\n']

/-- A blank has to be one, and a comment has to stay on its line. -/
def Proper : Filler → Prop
  | .blank c => Text.isBlank c = true
  | .comment text => '\n' ∉ text

end Filler

/-- What stands between two texts, before the first or after the last. -/
abbrev Gap := List Filler

/-- The characters of a gap. -/
def Gap.chars (gap : Gap) : List Char := gap.flatMap Filler.chars

/-- Whether the text is a single separator. -/
def IsSeparator (text : List Char) : Prop := ∃ c ∈ separators, text = [c]

/-- Whether the text is a run: some characters, all of them plain. -/
def IsRun (text : List Char) : Prop := text ≠ [] ∧ ∀ c ∈ text, Role.of c = .plain

/-- Texts to be written down, each with the gap after it. -/
structure Layout where
  /-- The gap before the first text. -/
  lead : Gap
  /-- The texts, and the gap after each. -/
  entries : List (List Char × Gap)
deriving DecidableEq, Repr

namespace Layout

/-- The texts of a layout. -/
def texts (l : Layout) : List (List Char) := l.entries.map Prod.fst

/-- What the layout writes. -/
def chars (l : Layout) : List Char :=
  l.lead.chars ++ l.entries.flatMap fun (text, gap) => text ++ gap.chars

/-- Whether a gap keeps a run from what follows it: it does not begin with a comment, and if it is
empty the next text is no run. -/
def Separates (gap : Gap) (next : Option (List Char)) : Prop :=
  match gap with
  | [] => ∀ text ∈ next, ¬IsRun text
  | .blank _ :: _ => True
  | .comment _ :: _ => False

/-- Whether the texts are separators and runs, and each run is kept from what follows it. -/
def ProperEntries : List (List Char × Gap) → Prop
  | [] => True
  | (text, gap) :: rest =>
    (IsSeparator text ∨ IsRun text ∧ Separates gap (rest.head?.map Prod.fst)) ∧
      (∀ filler ∈ gap, filler.Proper) ∧ ProperEntries rest

/-- Whether the texts of a layout can be told apart again. -/
def Proper (l : Layout) : Prop :=
  (∀ filler ∈ l.lead, filler.Proper) ∧ ProperEntries l.entries

end Layout

end Lexing
