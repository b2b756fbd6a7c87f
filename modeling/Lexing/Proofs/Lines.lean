import Lexing.Text.Lines
import Mathlib.Data.List.DropRight

/-!
# The lines of a text that is put together

A text that ends where another begins shares one line with it: the last line of the first text and
the first line of the second become a single line. Everything about texts put together follows from
this one seam, and from knowing where it lies: after as many lines as the first text has newlines,
and behind as many characters as its last line has.

The lines themselves are those of the library's `List.splitOn`, so its laws are there to be used.
-/

namespace Lexing.Text

theorem lines_eq_splitOn (chars : List Char) : lines chars = chars.splitOn '\n' := by
  induction chars with
  | nil => rfl
  | cons c chars ih =>
    rw [List.splitOn_cons_eq_if_modifyHead, ← ih]
    by_cases h : c = '\n'
    · subst h
      simp
    · rw [lines_cons h, if_neg (by simpa using h)]

theorem lines_ne_nil (chars : List Char) : lines chars ≠ [] := by
  rw [lines_eq_splitOn]
  exact List.splitOn_ne_nil '\n' chars

theorem exists_lines_eq_cons (chars : List Char) : ∃ line rest, lines chars = line :: rest :=
  List.exists_cons_of_ne_nil (lines_ne_nil chars)

theorem lines_of_newline_not_mem {chars : List Char} (h : '\n' ∉ chars) : lines chars = [chars] := by
  rw [lines_eq_splitOn]
  exact List.splitOn_eq_singleton h

/-- A newline between two texts keeps their lines apart. -/
theorem lines_append_newline_cons (a b : List Char) :
    lines (a ++ '\n' :: b) = lines a ++ lines b := by
  simp only [lines_eq_splitOn]
  exact List.splitOn_append_cons_self a b

/-- What stands after the last newline. -/
def lastLine (chars : List Char) : List Char := chars.rtakeWhile (· != '\n')

theorem newline_not_mem_lastLine (chars : List Char) : '\n' ∉ lastLine chars := by
  intro h
  have hne := List.mem_rtakeWhile_imp h
  simp at hne

theorem lastLine_eq_self {chars : List Char} (h : '\n' ∉ chars) : lastLine chars = chars := by
  refine List.rtakeWhile_eq_self_iff.mpr fun c hc => ?_
  rw [bne_iff_ne]
  exact fun e => h (e ▸ hc)

/-- Only the last newline matters for the last line, so a text without newlines is its own, and any
other falls apart behind that newline. -/
theorem lastLine_cases (chars : List Char) :
    '\n' ∉ chars ∨ ∃ front, chars = front ++ '\n' :: lastLine chars := by
  have hsplit : chars.rdropWhile (· != '\n') ++ lastLine chars = chars :=
    List.rdropWhile_append_rtakeWhile
  rcases List.eq_nil_or_concat' (chars.rdropWhile (· != '\n')) with hnil | ⟨front, c, hfront⟩
  · -- nothing stands before the last line
    left
    rw [hnil, List.nil_append] at hsplit
    exact hsplit ▸ newline_not_mem_lastLine chars
  · -- what stands before it ends with what stopped the search, which is a newline
    right
    have hlast := List.rdropWhile_last_not (· != '\n') chars (by simp [hfront])
    simp only [hfront, List.getLast_concat, bne_iff_ne, ne_eq, not_not] at hlast
    refine ⟨front, ?_⟩
    rw [hfront, hlast, List.append_assoc] at hsplit
    exact hsplit.symm

/-- A text without newlines goes in front of the first line. -/
theorem lines_append_of_newline_not_mem {a : List Char} (h : '\n' ∉ a) (b : List Char) :
    lines (a ++ b) = (lines b).modifyHead (a ++ ·) := by
  induction a with
  | nil =>
    obtain ⟨line, rest, hlines⟩ := exists_lines_eq_cons b
    rw [List.nil_append, hlines]
    rfl
  | cons c a ih =>
    rw [List.mem_cons, not_or] at h
    obtain ⟨line, rest, hlines⟩ := exists_lines_eq_cons b
    rw [List.cons_append, lines_cons (fun e => h.1 e.symm), ih h.2, hlines]
    rfl

/-- **The seam.** What follows a text goes on with its last line and leaves the lines before that
alone. -/
theorem exists_seam (a : List Char) :
    ∃ front : List (List Char), front.length = a.count '\n' ∧
      ∀ b, lines (a ++ b) = front ++ (lines b).modifyHead (lastLine a ++ ·) := by
  rcases lastLine_cases a with h | ⟨front, h⟩
  · refine ⟨[], (List.count_eq_zero_of_not_mem h).symm, fun b => ?_⟩
    rw [lastLine_eq_self h]
    exact lines_append_of_newline_not_mem h b
  · have hlast := newline_not_mem_lastLine a
    refine ⟨lines front, ?_, fun b => ?_⟩
    · rw [length_lines, h, List.count_append, List.count_cons_self,
        List.count_eq_zero_of_not_mem hlast]
    · have happend : a ++ b = front ++ '\n' :: (lastLine a ++ b) := by
        conv_lhs => rw [h]
        simp
      rw [happend, lines_append_newline_cons, lines_append_of_newline_not_mem hlast]

/-! ## Finding a line again -/

/-- A text is a single line, or it goes on behind the newline of its first line. -/
theorem lines_cases (chars : List Char) :
    '\n' ∉ chars ∧ lines chars = [chars] ∨
      ∃ line rest, '\n' ∉ line ∧ chars = line ++ '\n' :: rest ∧
        lines chars = line :: lines rest := by
  by_cases h : '\n' ∈ chars
  · right
    obtain ⟨line, rest, hchars, hline⟩ := List.eq_append_cons_of_mem h
    refine ⟨line, rest, hline, hchars, ?_⟩
    rw [hchars, lines_append_newline hline]
  · exact Or.inl ⟨h, lines_of_newline_not_mem h⟩

/-- What stands before the first newline. -/
def firstLine (chars : List Char) : List Char := chars.takeWhile (· != '\n')

theorem firstLine_append {a : List Char} (h : '\n' ∉ a) (b : List Char) :
    firstLine (a ++ b) = a ++ firstLine b := by
  refine List.takeWhile_append_of_pos fun c hc => ?_
  rw [bne_iff_ne]
  exact fun e => h (e ▸ hc)

theorem firstLine_newline (chars : List Char) : firstLine ('\n' :: chars) = [] :=
  List.takeWhile_cons_of_neg (by simp)

theorem exists_lines_eq_firstLine (chars : List Char) :
    ∃ rest, lines chars = firstLine chars :: rest := by
  rcases lines_cases chars with ⟨hchars, hlines⟩ | ⟨line, rest, hline, hchars, hlines⟩
  · have hfirst : firstLine (chars ++ []) = chars ++ [] := firstLine_append hchars []
    rw [List.append_nil] at hfirst
    exact ⟨[], by rw [hlines, hfirst]⟩
  · refine ⟨lines rest, ?_⟩
    rw [hlines, hchars, firstLine_append hline, firstLine_newline, List.append_nil]

/-- At the line that a text ends with, what follows the text goes on up to its first newline. -/
theorem getElem?_lines_append (before after : List Char) :
    (lines (before ++ after))[before.count '\n']? = some (lastLine before ++ firstLine after) := by
  obtain ⟨front, hlength, hseam⟩ := exists_seam before
  obtain ⟨rest, hlines⟩ := exists_lines_eq_firstLine after
  rw [hseam, hlines, List.modifyHead_cons, ← hlength, List.getElem?_append_right (Nat.le_refl _),
    Nat.sub_self, List.getElem?_cons_zero]

theorem lastLine_append_newline_cons (a b : List Char) :
    lastLine (a ++ '\n' :: b) = lastLine b := by
  unfold lastLine
  induction b using List.reverseRecOn with
  | nil => rw [List.rtakeWhile_concat_neg _ _ _ (by simp), List.rtakeWhile_nil]
  | append_singleton b c ih =>
      rw [← List.cons_append, ← List.append_assoc, List.rtakeWhile_concat, List.rtakeWhile_concat,
        ih]

theorem lastLine_concat {c : Char} (h : c ≠ '\n') (chars : List Char) :
    lastLine (chars ++ [c]) = lastLine chars ++ [c] :=
  List.rtakeWhile_concat_pos _ _ _ (by simpa using h)

/-- What holds no newline stays on the last line. -/
theorem lastLine_append {b : List Char} (h : '\n' ∉ b) (a : List Char) :
    lastLine (a ++ b) = lastLine a ++ b := by
  induction b using List.reverseRecOn with
  | nil => rw [List.append_nil, List.append_nil]
  | append_singleton b c ih =>
      rw [List.mem_append, List.mem_singleton, not_or] at h
      rw [← List.append_assoc, lastLine_concat (fun e => h.2 e.symm), ih h.1, List.append_assoc]

/-- What stands on a line stands in the text, behind the lines before it and behind what its own
line begins with. -/
theorem exists_of_getElem?_lines {chars front back : List Char} {index : Nat}
    (h : (lines chars)[index]? = some (front ++ back)) :
    ∃ before after, chars = before ++ back ++ after ∧ before.count '\n' = index ∧
      lastLine before = front := by
  induction index generalizing chars with
  | zero =>
      -- on the first line there is nothing before but what the line begins with
      have hfirst : '\n' ∉ front ++ back ∧ ∃ after, chars = front ++ back ++ after := by
        rcases lines_cases chars with ⟨hchars, hlines⟩ | ⟨line, rest, hline, hchars, hlines⟩
        · rw [hlines, List.getElem?_cons_zero, Option.some_inj] at h
          rw [← h]
          exact ⟨hchars, [], (List.append_nil chars).symm⟩
        · rw [hlines, List.getElem?_cons_zero, Option.some_inj] at h
          rw [← h]
          exact ⟨hline, _, hchars⟩
      obtain ⟨hnewline, after, hchars⟩ := hfirst
      have hfront : '\n' ∉ front := fun hc => hnewline (List.mem_append_left back hc)
      exact ⟨front, after, hchars, List.count_eq_zero_of_not_mem hfront, lastLine_eq_self hfront⟩
  | succ index ih =>
      rcases lines_cases chars with ⟨_, hlines⟩ | ⟨line, rest, hline, hchars, hlines⟩
      · rw [hlines] at h
        cases h
      · rw [hlines, List.getElem?_cons_succ] at h
        obtain ⟨before, after, hrest, hcount, hlast⟩ := ih h
        refine ⟨line ++ '\n' :: before, after, ?_, ?_, ?_⟩
        · rw [hchars, hrest]
          simp
        · rw [List.count_append, List.count_cons_self, List.count_eq_zero_of_not_mem hline, hcount,
            Nat.zero_add]
        · rw [lastLine_append_newline_cons, hlast]

end Lexing.Text
