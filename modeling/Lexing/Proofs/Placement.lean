import Lexing.Layout
import Lexing.Piece.Agreement
import Mathlib.Data.List.Basic
import Mathlib.Data.List.TakeWhile

/-!
# Where the pieces of a source stand

The pieces of a line are found by walking over its code: a blank is passed, a separator is a piece,
and a run is taken whole. Three things follow from the walk alone, whatever the pieces later turn
out to be.

* A piece **stands** where its span says. Its line splits into what comes before it, its text, and
  what comes after it, and a run is not continued by what comes after it.
* The pieces **precede** one another in the order in which they are found.
* Nothing is **passed over**: every character of the code that is not blank is held by a piece.

They are shown here for the code of a line, and carried from there to lines and to whole sources.
-/

namespace Lexing

/-! ## Spans beside one another -/

/-- Whether the span holds the character at the given line and column. -/
def Span.Holds (s : Span) (line column : Nat) : Prop :=
  line = s.line ∧ s.first ≤ column ∧ column ≤ s.last

/-- Whether two spans have no character in common. -/
def Span.Disjoint (a b : Span) : Prop :=
  ∀ line column, a.Holds line column → ¬b.Holds line column

/-- Whether the first span ends before the second begins. -/
def Span.Precedes (a b : Span) : Prop :=
  a.line < b.line ∨ a.line = b.line ∧ a.last < b.first

theorem Span.Precedes.disjoint {a b : Span} (h : a.Precedes b) : a.Disjoint b := by
  intro line column ha hb
  obtain ⟨hla, _, hca⟩ := ha
  obtain ⟨hlb, hcb, _⟩ := hb
  rcases h with h | ⟨_, h⟩
  · omega
  · omega

theorem Span.Disjoint.symm {a b : Span} (h : a.Disjoint b) : b.Disjoint a :=
  fun line column hb ha => h line column ha hb

theorem Span.Precedes.lt {a b : Span} (ha : a.first ≤ a.last) (h : a.Precedes b) : a < b := by
  rw [Span.lt_iff]
  rcases h with h | ⟨hline, h⟩
  · exact Or.inl h
  · exact Or.inr ⟨hline, Or.inl (by omega)⟩

/-! ## Walking over code -/

namespace Text

theorem isBlank_of_role {c : Char} (h : Role.of c = .blank) : isBlank c = true := by
  unfold Role.of at h
  split at h
  · assumption
  split at h
  · cases h
  split at h
  · cases h
  · cases h

theorem not_isBlank_of_role {c : Char} (h : Role.of c ≠ .blank) : isBlank c = false := by
  by_cases hblank : isBlank c = true
  · exact absurd (if_pos hblank) h
  · simpa using hblank

theorem ne_newline_of_not_isBlank {c : Char} (h : isBlank c = false) : c ≠ '\n' := by
  rintro rfl
  have hnewline : isBlank '\n' = true := by decide
  rw [h] at hnewline
  cases hnewline

end Text

namespace IsRun

variable {run : List Char} {c : Char}

theorem not_mem (hrun : IsRun run) (hc : Role.of c ≠ .plain) : c ∉ run :=
  fun h => hc (hrun.2 c h)

theorem newline_not_mem (hrun : IsRun run) : '\n' ∉ run := hrun.not_mem (by decide)

theorem commentMark_not_mem (hrun : IsRun run) : commentMark ∉ run := hrun.not_mem (by decide)

theorem not_isBlank (hrun : IsRun run) (hc : c ∈ run) : Text.isBlank c = false := by
  refine Text.not_isBlank_of_role ?_
  rw [hrun.2 c hc]
  exact Role.noConfusion

end IsRun

namespace Piece

theorem role_of_not_plain {c : Char} (h : isPlain c = false) : Role.of c ≠ .plain := by
  intro hrole
  rw [isPlain_iff.mpr hrole] at h
  exact Bool.noConfusion h

theorem isPlain_of_mem_run {run : List Char} (h : IsRun run) {c : Char} (hc : c ∈ run) :
    isPlain c = true := isPlain_iff.mpr (h.2 c hc)

theorem ofCode_nil (number : Nat) (last : Form) (column : Nat) :
    ofCode number last column [] = [] := by
  rw [ofCode]

theorem ofCode_gap {c : Char} (h : Role.of c = .blank ∨ Role.of c = .mark) (number : Nat)
    (last : Form) (column : Nat) (rest : List Char) :
    ofCode number last column (c :: rest) = ofCode number last (column + 1) rest := by
  rcases h with h | h
  · rw [ofCode, h]
  · rw [ofCode, h]

theorem ofCode_separator {c : Char} (h : Role.of c = .separator) (number : Nat) (last : Form)
    (column : Nat) (rest : List Char) :
    ofCode number last column (c :: rest) =
      ⟨.separator, String.singleton c, ⟨number, column + 1, column + 1⟩⟩ ::
        ofCode number last (column + 1) rest := by
  rw [ofCode, h]

/-- A run is taken whole, if what follows does not continue it. -/
theorem ofCode_run {run after : List Char} (hrun : IsRun run)
    (hafter : ∀ c ∈ after.head?, isPlain c = false) (number : Nat) (last : Form) (column : Nat) :
    ofCode number last column (run ++ after) =
      ⟨if after.isEmpty then last else .run, String.ofList run,
        ⟨number, column + 1, column + run.length⟩⟩ ::
        ofCode number last (column + run.length) after := by
  obtain ⟨hne, hplain⟩ := hrun
  cases run with
  | nil => exact absurd rfl hne
  | cons c run =>
      have hc : Role.of c = .plain := hplain c List.mem_cons_self
      have hall : ∀ d ∈ run, isPlain d = true := fun d hd =>
        isPlain_iff.mpr (hplain d (List.mem_cons_of_mem c hd))
      rw [List.cons_append, ofCode, hc]
      simp only [Text.takeWhile_append_of_stop hall hafter, Text.dropWhile_append_of_stop hall hafter]

theorem ofCode_of_run {run : List Char} (hrun : IsRun run) (number : Nat) (last : Form)
    (column : Nat) : ofCode number last column run =
      [⟨last, String.ofList run, ⟨number, column + 1, column + run.length⟩⟩] := by
  have hstop : ∀ c ∈ ([] : List Char).head?, isPlain c = false := by
    intro c hc
    cases hc
  have hwhole := ofCode_run hrun hstop number last column
  rw [List.append_nil, ofCode_nil] at hwhole
  exact hwhole

/-- Code is read as it is walked over: character by character where no run begins, and run by run
where one does. -/
@[elab_as_elim]
theorem walk {motive : List Char → Prop} (nil : motive [])
    (gap : ∀ c rest, Role.of c = .blank ∨ Role.of c = .mark → motive rest → motive (c :: rest))
    (separator : ∀ c rest, Role.of c = .separator → motive rest → motive (c :: rest))
    (run : ∀ run after, IsRun run → (∀ c ∈ after.head?, isPlain c = false) → motive after →
      motive (run ++ after))
    (code : List Char) : motive code := by
  refine ofCode.induct .run (fun _ code => motive code) ?_ ?_ ?_ ?_ ?_ 0 code
  · exact fun _ => nil
  · exact fun _ c rest h ih => gap c rest (Or.inl h) ih
  · exact fun _ c rest h ih => gap c rest (Or.inr h) ih
  · exact fun _ c rest h ih => separator c rest h ih
  · -- the recursion takes the longest run, so nothing plain is left in front of what follows
    intro _ c rest h _ _ ih
    have hrun : IsRun (c :: rest.takeWhile isPlain) := by
      refine ⟨List.cons_ne_nil _ _, fun d hd => ?_⟩
      rcases List.mem_cons.mp hd with rfl | hd
      · exact h
      · exact isPlain_iff.mp (List.mem_takeWhile_imp hd)
    have hafter : ∀ d ∈ (rest.dropWhile isPlain).head?, isPlain d = false := by
      intro d hd
      have hnot := List.head?_dropWhile_not isPlain rest
      rw [Option.mem_def.mp hd] at hnot
      simpa using hnot
    have hwhole := run _ _ hrun hafter ih
    rwa [List.cons_append, List.takeWhile_append_dropWhile] at hwhole

/-! ## Code that is put together -/

/-- **Code falls apart at a seam that no run crosses.** In front of the seam every run is closed, and
behind it the walk goes on as if it had begun there. -/
theorem ofCode_append {front back : List Char} (hne : back ≠ [])
    (hseam : (∀ c ∈ front.getLast?, isPlain c = false) ∨ ∀ d ∈ back.head?, isPlain d = false)
    (number : Nat) (last : Form) (column : Nat) :
    ofCode number last column (front ++ back) =
      ofCode number .run column front ++ ofCode number last (column + front.length) back := by
  induction front using walk generalizing column with
  | nil => rw [ofCode_nil, List.nil_append, List.nil_append, List.length_nil, Nat.add_zero]
  | gap c rest hc ih =>
      have hrest := hseam.imp_left fun h d hd => h d (List.mem_getLast?_cons hd)
      rw [List.cons_append, ofCode_gap hc, ofCode_gap hc, ih hrest, List.length_cons,
        Nat.add_right_comm, Nat.add_assoc]
  | separator c rest hc ih =>
      have hrest := hseam.imp_left fun h d hd => h d (List.mem_getLast?_cons hd)
      rw [List.cons_append, ofCode_separator hc, ofCode_separator hc, ih hrest, List.length_cons,
        Nat.add_right_comm, Nat.add_assoc, List.cons_append]
  | run run after hrun hafter ih =>
      have hrest := hseam.imp_left fun h d hd => h d (List.mem_getLast?_append_of_mem_getLast? hd)
      -- a run that ends in front of the seam is not continued behind it
      have hstop : ∀ d ∈ (after ++ back).head?, isPlain d = false := by
        intro d hd
        cases after with
        | cons e after => exact hafter d hd
        | nil =>
            rcases hseam with h | h
            · obtain ⟨init, c, rfl⟩ := (List.eq_nil_or_concat' run).resolve_left hrun.1
              have hc : isPlain c = true := isPlain_of_mem_run hrun (by simp)
              rw [h c (by simp)] at hc
              exact Bool.noConfusion hc
            · exact h d hd
      rw [List.append_assoc, ofCode_run hrun hstop, ofCode_run hrun hafter, ih hrest,
        List.length_append, Nat.add_assoc, List.cons_append]
      simp [hne]

/-! ## Pieces stand where their spans say -/

/-- Whether the piece stands in the given code of the line with the given number: between what comes
before and after it, as a separator or as a run that goes on no further. A run that ends with the
code turned out as `last` says. -/
def Stands (number : Nat) (last : Form) (code : List Char) (p : Piece) : Prop :=
  ∃ before after, code = before ++ p.text.toList ++ after ∧
    p.span = ⟨number, before.length + 1, before.length + p.text.toList.length⟩ ∧
    (p.form = .separator ∧ IsSeparator p.text.toList ∨
      p.form = (if after.isEmpty then last else .run) ∧ IsRun p.text.toList ∧
        ∀ c ∈ after.head?, isPlain c = false)

theorem role_of_mem_separators {c : Char} (h : c ∈ separators) : Role.of c = .separator := by
  simp only [separators, List.mem_cons, List.not_mem_nil, or_false] at h
  rcases h with rfl | rfl | rfl | rfl | rfl | rfl <;> decide

theorem mem_separators_of_role {c : Char} (h : Role.of c = .separator) : c ∈ separators := by
  unfold Role.of at h
  split at h
  · cases h
  split at h
  · assumption
  split at h
  · cases h
  · cases h

theorem Stands.text_ne_nil {number : Nat} {last : Form} {code : List Char} {p : Piece}
    (h : Stands number last code p) : p.text.toList ≠ [] := by
  obtain ⟨_, _, _, _, ⟨_, _, _, htext⟩ | ⟨_, hrun, _⟩⟩ := h
  · rw [htext]
    exact List.cons_ne_nil _ _
  · exact hrun.1

/-- What the walk finds behind some characters stands behind them. -/
theorem stands_of_mem_ofCode {number : Nat} {last : Form} {before code : List Char} {p : Piece}
    (h : p ∈ ofCode number last before.length code) : Stands number last (before ++ code) p := by
  induction code using walk generalizing before with
  | nil =>
      rw [ofCode_nil] at h
      exact absurd h List.not_mem_nil
  | gap c rest hc ih =>
      have hlength : (before ++ [c]).length = before.length + 1 := by simp
      rw [ofCode_gap hc, ← hlength] at h
      have hstands := ih h
      rwa [List.append_assoc] at hstands
  | separator c rest hc ih =>
      rw [ofCode_separator hc, List.mem_cons] at h
      rcases h with rfl | h
      · have htext : (String.singleton c).toList = [c] := String.toList_singleton c
        refine ⟨before, rest, by simp, by simp, Or.inl ⟨rfl, c, mem_separators_of_role hc, htext⟩⟩
      · have hlength : (before ++ [c]).length = before.length + 1 := by simp
        rw [← hlength] at h
        have hstands := ih h
        rwa [List.append_assoc] at hstands
  | run run after hrun hafter ih =>
      rw [ofCode_run hrun hafter, List.mem_cons] at h
      rcases h with rfl | h
      · have htext : (String.ofList run).toList = run := String.toList_ofList
        refine ⟨before, after, by simp, by simp, Or.inr ⟨rfl, ?_, hafter⟩⟩
        rw [htext]
        exact hrun
      · rw [← List.length_append] at h
        have hstands := ih h
        rwa [List.append_assoc] at hstands

/-! ## Pieces precede one another -/

theorem first_of_mem_ofCode {number : Nat} {last : Form} {column : Nat} {code : List Char}
    {p : Piece} (h : p ∈ ofCode number last column code) :
    p.span.line = number ∧ column < p.span.first := by
  induction code using walk generalizing column with
  | nil =>
      rw [ofCode_nil] at h
      exact absurd h List.not_mem_nil
  | gap c rest hc ih =>
      rw [ofCode_gap hc] at h
      exact ⟨(ih h).1, Nat.lt_of_succ_lt (ih h).2⟩
  | separator c rest hc ih =>
      rw [ofCode_separator hc, List.mem_cons] at h
      rcases h with rfl | h
      · exact ⟨rfl, Nat.lt_succ_self column⟩
      · exact ⟨(ih h).1, Nat.lt_of_succ_lt (ih h).2⟩
  | run run after hrun hafter ih =>
      rw [ofCode_run hrun hafter, List.mem_cons] at h
      rcases h with rfl | h
      · exact ⟨rfl, Nat.lt_succ_self column⟩
      · exact ⟨(ih h).1, Nat.lt_of_le_of_lt (Nat.le_add_right _ _) (ih h).2⟩

/-- The walk finds the pieces in the order in which they stand. -/
theorem pairwise_ofCode (number : Nat) (last : Form) (column : Nat) (code : List Char) :
    (ofCode number last column code).Pairwise fun p q => p.span.Precedes q.span := by
  induction code using walk generalizing column with
  | nil =>
      rw [ofCode_nil]
      exact List.Pairwise.nil
  | gap c rest hc ih =>
      rw [ofCode_gap hc]
      exact ih (column + 1)
  | separator c rest hc ih =>
      rw [ofCode_separator hc]
      refine List.pairwise_cons.mpr ⟨fun q hq => ?_, ih (column + 1)⟩
      obtain ⟨hline, hfirst⟩ := first_of_mem_ofCode hq
      exact Or.inr ⟨hline.symm, hfirst⟩
  | run run after hrun hafter ih =>
      rw [ofCode_run hrun hafter]
      refine List.pairwise_cons.mpr ⟨fun q hq => ?_, ih (column + run.length)⟩
      obtain ⟨hline, hfirst⟩ := first_of_mem_ofCode hq
      exact Or.inr ⟨hline.symm, hfirst⟩

/-! ## Nothing is passed over -/

/-- Each character of the code that is neither blank nor a mark is held by a piece. -/
theorem exists_holds_of_ofCode (number : Nat) (last : Form) (column : Nat) {index : Nat}
    {code : List Char} {c : Char} (hc : code[index]? = some c) (hblank : Role.of c ≠ .blank)
    (hmark : Role.of c ≠ .mark) :
    ∃ p ∈ ofCode number last column code, p.span.Holds number (column + index + 1) := by
  induction code using walk generalizing column index with
  | nil => simp at hc
  | gap d rest hd ih =>
      rw [ofCode_gap hd]
      cases index with
      | zero =>
          obtain rfl : d = c := by simpa using hc
          rcases hd with hd | hd
          · exact absurd hd hblank
          · exact absurd hd hmark
      | succ index =>
          obtain ⟨p, hp, hholds⟩ := ih (column + 1) (by simpa using hc)
          refine ⟨p, hp, ?_⟩
          rwa [Nat.add_right_comm column 1 index] at hholds
  | separator d rest hd ih =>
      rw [ofCode_separator hd]
      cases index with
      | zero => exact ⟨_, List.mem_cons_self, rfl, Nat.le_refl _, Nat.le_refl _⟩
      | succ index =>
          obtain ⟨p, hp, hholds⟩ := ih (column + 1) (by simpa using hc)
          refine ⟨p, List.mem_cons_of_mem _ hp, ?_⟩
          rwa [Nat.add_right_comm column 1 index] at hholds
  | run run after hrun hafter ih =>
      rw [ofCode_run hrun hafter]
      by_cases hindex : index < run.length
      · refine ⟨_, List.mem_cons_self, rfl, ?_, ?_⟩
        · show column + 1 ≤ column + index + 1
          omega
        · show column + index + 1 ≤ column + run.length
          omega
      · -- behind the run, so the pieces after it answer
        rw [List.getElem?_append_right (Nat.not_lt.mp hindex)] at hc
        obtain ⟨p, hp, hholds⟩ := ih (column + run.length) hc
        refine ⟨p, List.mem_cons_of_mem _ hp, ?_⟩
        rwa [show column + run.length + (index - run.length) = column + index by omega] at hholds

/-! ## Lines and whole sources -/

theorem code_prefix (line : List Char) : code line <+: line := List.takeWhile_prefix _

theorem commentMark_not_mem_code (line : List Char) : commentMark ∉ code line := by
  intro h
  have hne := List.mem_takeWhile_imp h
  simp at hne

theorem code_append {front : List Char} (h : commentMark ∉ front) (back : List Char) :
    code (front ++ back) = front ++ code back := by
  refine List.takeWhile_append_of_pos fun c hc => ?_
  rw [bne_iff_ne]
  exact fun e => h (e ▸ hc)

theorem code_nil : code [] = [] := rfl

theorem code_eq_self {line : List Char} (h : commentMark ∉ line) : code line = line := by
  have hcode := code_append h []
  rwa [code_nil, List.append_nil] at hcode

theorem code_append_mark {front : List Char} (h : commentMark ∉ front) (comment : List Char) :
    code (front ++ commentMark :: comment) = front := by
  rw [code_append h, code, List.takeWhile_cons_of_neg (by decide), List.append_nil]

theorem stands_of_mem_ofLine {number : Nat} {line : List Char} {p : Piece}
    (h : p ∈ ofLine number 0 line) : Stands number (lastForm line) (code line) p := by
  have hstands : Stands number (lastForm line) ([] ++ code line) p := stands_of_mem_ofCode h
  exact hstands

theorem mem_ofLines {number : Nat} {lines : List (List Char)} {p : Piece} :
    p ∈ ofLines number lines ↔
      ∃ index line, lines[index]? = some line ∧ p ∈ ofLine (number + index) 0 line := by
  unfold ofLines
  rw [List.mem_flatMap]
  constructor
  · -- the lines are numbered from the given number on
    rintro ⟨⟨line, at_⟩, hmem, hp⟩
    obtain ⟨hle, hline⟩ := List.mk_mem_zipIdx_iff_le_and_getElem?_sub.mp hmem
    refine ⟨at_ - number, line, hline, ?_⟩
    rwa [Nat.add_sub_of_le hle]
  · rintro ⟨index, line, hline, hp⟩
    refine ⟨(line, number + index), ?_, hp⟩
    exact List.mk_add_mem_zipIdx_iff_getElem?.mpr hline

theorem pairwise_ofLines (number : Nat) (lines : List (List Char)) :
    (ofLines number lines).Pairwise fun p q => p.span.Precedes q.span := by
  induction lines generalizing number with
  | nil => exact List.Pairwise.nil
  | cons line lines ih =>
      rw [ofLines_cons]
      refine List.pairwise_append.mpr ⟨pairwise_ofCode _ _ _ _, ih (number + 1), ?_⟩
      intro p hp q hq
      -- of two lines the first has the smaller number
      obtain ⟨index, line', _, hq⟩ := mem_ofLines.mp hq
      have hpline := (first_of_mem_ofCode hp).1
      have hqline := (first_of_mem_ofCode hq).1
      exact Or.inl (by omega)

theorem mem_ofSource {source : String} {p : Piece} :
    p ∈ ofSource source ↔
      ∃ index line, (Text.lines source.toList)[index]? = some line ∧
        p ∈ ofLine (1 + index) 0 line := by
  rw [ofSource_eq_byLine, byLine, mem_ofLines]

/-- A piece is a separator or a run, and only runs are dropped. -/
theorem form_of_mem_ofSource {source : String} {p : Piece} (h : p ∈ ofSource source) :
    p.form = .separator ∧ IsSeparator p.text.toList ∨
      (p.form = .run ∨ p.form = .dropped) ∧ IsRun p.text.toList := by
  obtain ⟨_, line, _, hp⟩ := mem_ofSource.mp h
  obtain ⟨_, after, _, _, hsep | ⟨hform, hrun, _⟩⟩ := stands_of_mem_ofLine hp
  · exact Or.inl hsep
  · refine Or.inr ⟨?_, hrun⟩
    unfold lastForm at hform
    split at hform
    · split at hform
      · exact Or.inr hform
      · exact Or.inl hform
    · exact Or.inl hform

/-- **The pieces of a source precede one another in their order.** -/
theorem pairwise_ofSource (source : String) :
    (ofSource source).Pairwise fun p q => p.span.Precedes q.span := by
  rw [ofSource_eq_byLine]
  exact pairwise_ofLines 1 _

end Piece

end Lexing
