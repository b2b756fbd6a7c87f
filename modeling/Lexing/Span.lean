import Lexing.Text.Fields

/-!
# Spans

A span says where a piece of text sits: on which line, and from which column to which. Spans are
ordered the way their pieces follow one another in a source, so comparing the spans of two pieces
tells which comes first.

The main statement is `Span.lt_iff`, which spells the order out. A span also has a written form,
which can be read back.
-/

namespace Lexing

/-- Where a piece of text sits. Lines and columns count from one, and the last column still
belongs to the piece. -/
structure Span where
  /-- The line that holds the piece. -/
  line : Nat
  /-- The column of its first character. -/
  first : Nat
  /-- The column of its last character. -/
  last : Nat
deriving DecidableEq, Repr

namespace Span

/-- Lines are compared first, then first columns, then last columns. -/
instance : Ord Span where
  compare a b :=
    (compare a.line b.line).then ((compare a.first b.first).then (compare a.last b.last))

instance : LT Span := ltOfOrd

instance : DecidableLT Span := fun a b => inferInstanceAs (Decidable (compare a b = .lt))

theorem compare_def (a b : Span) : compare a b =
    (compare a.line b.line).then ((compare a.first b.first).then (compare a.last b.last)) := rfl

theorem lt_iff {a b : Span} :
    a < b ↔ a.line < b.line ∨
      a.line = b.line ∧ (a.first < b.first ∨ a.first = b.first ∧ a.last < b.last) := by
  change compare a b = .lt ↔ _
  simp only [compare_def, Ordering.then_eq_lt, Nat.compare_eq_lt, Nat.compare_eq_eq]

theorem compare_eq_eq_iff {a b : Span} : compare a b = .eq ↔ a = b := by
  cases a; cases b
  simp only [compare_def, Ordering.then_eq_eq, Nat.compare_eq_eq, mk.injEq]

/-- The written form, as in `3:1-4`. -/
def render (s : Span) : String :=
  s.line.repr ++ ":" ++ s.first.repr ++ "-" ++ s.last.repr

/-- The written form holds digits and its two marks only. -/
theorem eq_of_mem_render {s : Span} {c : Char} (h : c ∈ s.render.toList) :
    c.isDigit = true ∨ c = ':' ∨ c = '-' := by
  have hd : ∀ n : Nat, c ∈ Nat.toDigits 10 n → c.isDigit = true := fun n hn =>
    Nat.isDigit_of_mem_toDigits (by decide) (by decide) hn
  simp only [render, String.toList_append, Nat.toList_repr, List.mem_append] at h
  rcases h with (((h | h) | h) | h) | h
  · exact Or.inl (hd _ h)
  · exact Or.inr (Or.inl (List.mem_singleton.mp h))
  · exact Or.inl (hd _ h)
  · exact Or.inr (Or.inr (List.mem_singleton.mp h))
  · exact Or.inl (hd _ h)

/-- Reads a written form that makes up the whole text. -/
def parse? (text : List Char) : Option Span := do
  let (line, rest) ← Text.readNat? text
  let (first, rest) ← Text.readNat? (← Text.readMark? ':' rest)
  let (last, rest) ← Text.readNat? (← Text.readMark? '-' rest)
  if rest.isEmpty then some ⟨line, first, last⟩ else none

/-- A span is read back from its written form. -/
theorem parse?_render (s : Span) : parse? s.render.toList = some s := by
  have hline := Text.readNat?_toDigits_append s.line
    (':' :: (Nat.toDigits 10 s.first ++ '-' :: Nat.toDigits 10 s.last)) (by rintro _ ⟨⟩; rfl)
  have hfirst := Text.readNat?_toDigits_append s.first ('-' :: Nat.toDigits 10 s.last)
    (by rintro _ ⟨⟩; rfl)
  have hlast := Text.readNat?_toDigits_append s.last [] (by rintro _ ⟨⟩)
  rw [List.append_nil] at hlast
  simp [parse?, render, hline, hfirst, hlast]

example : render ⟨3, 1, 4⟩ = "3:1-4" := by decide

example : parse? "3:1-4".toList = some ⟨3, 1, 4⟩ := by decide

end Span

end Lexing
