import Lexing.Lexed
import Lexing.Proofs.Lines
import Lexing.Proofs.Placement

/-!
# Sources put together

Lexing carries nothing across a boundary but its place in the source. If a newline stands between
two texts, the second is lexed as if it stood alone, only further down. The same holds of any other
blank and of a separator, provided that no comment of the first text reaches it: what begins on the
first line of the second text then stands further right as well.

Both follow from what a line is. A newline leaves the lines of both texts as they are. Any other
boundary joins two lines into one, and the code of that line falls apart at the boundary, since no
run crosses it.
-/

namespace Lexing

/-! ## Moving what was found -/

/-- The span so many lines further down and so many columns further right. -/
def Span.shift (lines columns : Nat) (s : Span) : Span :=
  ⟨s.line + lines, s.first + columns, s.last + columns⟩

/-- The span once its text follows another, of which it shares the last line: only what stands on
the first line moves to the right. -/
def Span.follow (lines columns : Nat) (s : Span) : Span :=
  s.shift lines (if s.line = 1 then columns else 0)

/-- The piece with its span moved. -/
def Piece.relocate (move : Span → Span) (p : Piece) : Piece := { p with span := move p.span }

/-- The tokens and strays with their spans moved. -/
def Lexed.relocate (move : Span → Span) (l : Lexed) : Lexed :=
  ⟨l.tokens.map fun t => { t with span := move t.span },
    l.strays.map fun s => { s with span := move s.span }⟩

/-- The tokens and strays of one source followed by those of another. -/
instance : Append Lexed := ⟨fun a b => ⟨a.tokens ++ b.tokens, a.strays ++ b.strays⟩⟩

namespace Lexed

theorem ofPieces_append (ps qs : List Piece) :
    ofPieces (ps ++ qs) = ofPieces ps ++ ofPieces qs := by
  unfold ofPieces
  rw [List.filterMap_append, List.filterMap_append]
  rfl

theorem token?_relocate (move : Span → Span) (p : Piece) :
    (p.relocate move).token? = p.token?.map fun t => { t with span := move t.span } := by
  unfold Piece.token? Piece.relocate
  cases p.form with
  | separator => rfl
  | run =>
      rw [Option.map_map]
      rfl
  | dropped => rfl

theorem stray?_relocate (move : Span → Span) (p : Piece) :
    (p.relocate move).stray? = p.stray?.map fun s => { s with span := move s.span } := by
  unfold Piece.stray? Piece.relocate
  cases p.form with
  | separator => rfl
  | run =>
      show (if (Rule.recognize p.text).isNone then _ else none) = _
      split
      · rfl
      · rfl
  | dropped => rfl

/-- Moving the pieces moves the tokens and strays that they make. -/
theorem ofPieces_relocate (move : Span → Span) (ps : List Piece) :
    ofPieces (ps.map (Piece.relocate move)) = (ofPieces ps).relocate move := by
  unfold ofPieces relocate
  simp only [List.filterMap_map, List.map_filterMap]
  have htoken : Piece.token? ∘ Piece.relocate move =
      fun p => p.token?.map fun t => { t with span := move t.span } :=
    funext (token?_relocate move)
  have hstray : Piece.stray? ∘ Piece.relocate move =
      fun p => p.stray?.map fun s => { s with span := move s.span } :=
    funext (stray?_relocate move)
  rw [htoken, hstray]

end Lexed

namespace Piece

/-! ## Pieces further down and further right -/

theorem ofCode_shift (number lines : Nat) (last : Form) (column columns : Nat) (code : List Char) :
    ofCode (number + lines) last (column + columns) code =
      (ofCode number last column code).map (relocate (Span.shift lines columns)) := by
  induction code using walk generalizing column with
  | nil => rw [ofCode_nil, ofCode_nil, List.map_nil]
  | gap c rest hc ih => rw [ofCode_gap hc, ofCode_gap hc, Nat.add_right_comm, ih]
  | separator c rest hc ih =>
      rw [ofCode_separator hc, ofCode_separator hc, Nat.add_right_comm, ih, List.map_cons]
      rfl
  | run run after hrun hafter ih =>
      rw [ofCode_run hrun hafter, ofCode_run hrun hafter, Nat.add_right_comm column columns,
        Nat.add_right_comm column columns, ih, List.map_cons]
      rfl

theorem ofLine_shift (number lines column columns : Nat) (line : List Char) :
    ofLine (number + lines) (column + columns) line =
      (ofLine number column line).map (relocate (Span.shift lines columns)) :=
  ofCode_shift number lines (lastForm line) column columns (code line)

theorem ofLines_shift (number lines : Nat) (rest : List (List Char)) :
    ofLines (number + lines) rest =
      (ofLines number rest).map (relocate (Span.shift lines 0)) := by
  induction rest generalizing number with
  | nil => rfl
  | cons line rest ih =>
      have hline := ofLine_shift number lines 0 0 line
      rw [Nat.add_zero] at hline
      rw [ofLines_cons, ofLines_cons, List.map_append, hline, Nat.add_right_comm, ih]

theorem ofLines_append (number : Nat) (front back : List (List Char)) :
    ofLines number (front ++ back) =
      ofLines number front ++ ofLines (number + front.length) back := by
  induction front generalizing number with
  | nil => rfl
  | cons line front ih =>
      rw [List.cons_append, ofLines_cons, ofLines_cons, ih, List.append_assoc, List.length_cons,
        Nat.add_right_comm, Nat.add_assoc]

/-- The lines of a text, of which the first goes on from the given column of another. -/
theorem ofLines_follow (lines columns : Nat) (line : List Char) (rest : List (List Char)) :
    (ofLines 1 (line :: rest)).map (relocate (Span.follow lines columns)) =
      ofLine (1 + lines) (0 + columns) line ++ ofLines (2 + lines) rest := by
  have hrest := ofLines_shift 2 lines rest
  rw [ofLines_cons, List.map_append, ofLine_shift, hrest]
  congr 1
  -- the pieces of the first line move to the right as well, all others only down
  · refine List.map_congr_left fun p hp => ?_
    have hline : p.span.line = 1 := (first_of_mem_ofCode hp).1
    rw [relocate, Span.follow, if_pos hline]
    rfl
  · refine List.map_congr_left fun p hp => ?_
    have hline : p.span.line ≠ 1 := by
      obtain ⟨index, line', _, hp⟩ := mem_ofLines.mp hp
      have hnumber : p.span.line = 2 + index := (first_of_mem_ofCode hp).1
      omega
    rw [relocate, Span.follow, if_neg hline]
    rfl

/-! ## Lines joined at a boundary -/

/-- What the boundary itself is, if it is a piece at all. -/
def ofBoundary (c : Char) (line column : Nat) : List Piece :=
  if c ∈ separators then [⟨.separator, String.singleton c, ⟨line, column, column⟩⟩] else []

theorem ofPieces_ofBoundary (c : Char) (line column : Nat) :
    Lexed.ofPieces (ofBoundary c line column) =
      ⟨if c ∈ separators then [⟨.separator, String.singleton c, ⟨line, column, column⟩⟩] else [],
        []⟩ := by
  unfold ofBoundary
  by_cases hc : c ∈ separators
  · rw [if_pos hc, if_pos hc]
    rfl
  · rw [if_neg hc, if_neg hc]
    rfl

theorem ofLine_boundary {c : Char} (hc : Text.isBlank c = true ∨ c ∈ separators)
    (number column : Nat) (line : List Char) :
    ofLine number column (c :: line) =
      ofBoundary c number (column + 1) ++ ofLine number (column + 1) line := by
  unfold ofBoundary
  by_cases hsep : c ∈ separators
  · rw [if_pos hsep, ofLine_separator (role_of_mem_separators hsep)]
    rfl
  · have hblank : Role.of c = .blank := if_pos (hc.resolve_right hsep)
    rw [if_neg hsep, ofLine_blank hblank]
    rfl

theorem role_of_boundary {c : Char} (hc : Text.isBlank c = true ∨ c ∈ separators) :
    Role.of c = .blank ∨ Role.of c = .separator := by
  rcases hc with hc | hc
  · exact Or.inl (if_pos hc)
  · exact Or.inr (role_of_mem_separators hc)

/-- A line falls apart at a blank or separator that stands in its code. -/
theorem ofLine_append_boundary {front : List Char} {c : Char} (hfront : commentMark ∉ front)
    (hc : Text.isBlank c = true ∨ c ∈ separators) (number : Nat) (line : List Char) :
    ofLine number 0 (front ++ c :: line) =
      ofLine number 0 front ++ ofLine number front.length (c :: line) := by
  have hrole := role_of_boundary hc
  have hplain : isPlain c = false := by
    rcases hrole with h | h <;> simp [isPlain, h]
  have hmark : c ≠ commentMark := by
    refine ne_commentMark_of_role ?_
    rcases hrole with h | h <;> simp [h]
  -- a comment can only begin behind the boundary, so it does not decide about runs in front of it
  have hlastfront : lastForm front = .run := if_neg hfront
  have hlast : lastForm (front ++ c :: line) = lastForm (c :: line) := by
    simp [lastForm, hfront]
  have hseam : ∀ d ∈ (code (c :: line)).head?, isPlain d = false := by
    intro d hd
    rw [code_cons hmark] at hd
    cases hd
    exact hplain
  have hback : code (c :: line) ≠ [] := by
    rw [code_cons hmark]
    exact List.cons_ne_nil _ _
  unfold ofLine
  rw [code_append hfront, hlast, code_eq_self hfront, hlastfront, ofCode_append hback (Or.inr hseam),
    Nat.zero_add]

/-! ## Whole sources -/

theorem ofSource_append_newline (a b : String) :
    ofSource (a ++ "\n" ++ b) =
      ofSource a ++
        (ofSource b).map (relocate (Span.shift (a.toList.count '\n' + 1) 0)) := by
  have htext : (a ++ "\n" ++ b).toList = a.toList ++ '\n' :: b.toList := by simp
  rw [ofSource_eq_byLine, ofSource_eq_byLine, ofSource_eq_byLine]
  unfold byLine
  rw [htext, Text.lines_append_newline_cons, ofLines_append, Text.length_lines, ofLines_shift]

theorem ofSource_append_boundary {a : String} {c : Char}
    (ha : commentMark ∉ Text.lastLine a.toList) (hnewline : c ≠ '\n')
    (hc : Text.isBlank c = true ∨ c ∈ separators) (b : String) :
    ofSource (a ++ String.singleton c ++ b) =
      ofSource a ++
        (ofBoundary c (1 + a.toList.count '\n') ((Text.lastLine a.toList).length + 1) ++
          (ofSource b).map (relocate
            (Span.follow (a.toList.count '\n') ((Text.lastLine a.toList).length + 1)))) := by
  have htext : (a ++ String.singleton c ++ b).toList = a.toList ++ c :: b.toList := by simp
  rw [ofSource_eq_byLine, ofSource_eq_byLine, ofSource_eq_byLine]
  unfold byLine
  obtain ⟨front, hlength, hseam⟩ := Text.exists_seam a.toList
  obtain ⟨line, rest, hlines⟩ := Text.exists_lines_eq_cons b.toList
  have hleft : Text.lines a.toList = front ++ [Text.lastLine a.toList] := by
    have hnil := hseam []
    rw [List.append_nil, Text.lines_nil, List.modifyHead_cons, List.append_nil] at hnil
    exact hnil
  have hwhole : Text.lines (a.toList ++ c :: b.toList) =
      front ++ (Text.lastLine a.toList ++ c :: line) :: rest := by
    rw [hseam, Text.lines_cons hnewline, hlines, List.modifyHead_cons, List.modifyHead_cons]
  have hnext : 1 + a.toList.count '\n' + 1 = 2 + a.toList.count '\n' := by omega
  have hend : ofLines (2 + a.toList.count '\n') [] = [] := rfl
  rw [htext, hwhole, hleft, hlines, ofLines_follow, ofLines_append, ofLines_append, ofLines_cons,
    ofLines_cons, hlength, hnext, hend, ofLine_append_boundary ha hc, ofLine_boundary hc]
  simp only [List.append_assoc, List.append_nil, Nat.zero_add]

end Piece

/-- **Lexing is compositional.** A newline between two texts keeps what is found in them apart, and
so does any other blank or separator that no comment reaches; a separator is itself a token. -/
theorem lex_append (a b : String) :
    lex (a ++ "\n" ++ b) =
        lex a ++ (lex b).relocate (Span.shift (a.toList.count '\n' + 1) 0) ∧
      (commentMark ∉ Text.lastLine a.toList → ∀ c : Char, c ≠ '\n' →
        Text.isBlank c = true ∨ c ∈ separators →
        lex (a ++ String.singleton c ++ b) =
          lex a ++ (⟨if c ∈ separators then [⟨.separator, String.singleton c,
              ⟨1 + a.toList.count '\n', (Text.lastLine a.toList).length + 1,
                (Text.lastLine a.toList).length + 1⟩⟩] else [], []⟩ ++
            (lex b).relocate (Span.follow (a.toList.count '\n')
              ((Text.lastLine a.toList).length + 1)))) := by
  constructor
  · unfold lex
    rw [Piece.ofSource_append_newline, Lexed.ofPieces_append, Lexed.ofPieces_relocate]
  · intro ha c hnewline hc
    unfold lex
    rw [Piece.ofSource_append_boundary ha hnewline hc, Lexed.ofPieces_append,
      Lexed.ofPieces_append, Lexed.ofPieces_relocate, Piece.ofPieces_ofBoundary]

/-- A comma that joins two lines, behind a comment that does not reach it. -/
theorem lex_append_comma :
    commentMark ∉ Text.lastLine "#\nf(a".toList ∧ ',' ≠ '\n' ∧ ',' ∈ separators ∧
      lex ("#\nf(a" ++ String.singleton ',' ++ "é)\nb") =
        ⟨[⟨.identifier, "f", ⟨2, 1, 1⟩⟩, ⟨.separator, "(", ⟨2, 2, 2⟩⟩,
          ⟨.identifier, "a", ⟨2, 3, 3⟩⟩, ⟨.separator, ",", ⟨2, 4, 4⟩⟩,
          ⟨.separator, ")", ⟨2, 6, 6⟩⟩, ⟨.identifier, "b", ⟨3, 1, 1⟩⟩],
          [⟨"é", ⟨2, 5, 5⟩⟩]⟩ := by
  have hmark : commentMark ∉ Text.lastLine "#\nf(a".toList := by decide
  have hcomma : ',' ∈ separators := by decide
  refine ⟨hmark, by decide, hcomma, ?_⟩
  rw [(lex_append "#\nf(a" "é)\nb").2 hmark ',' (by decide) (Or.inr hcomma)]
  decide +kernel

end Lexing
