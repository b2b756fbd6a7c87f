import Lexing.Piece.Agreement
import Lexing.Proofs.Lines

/-!
# Reading in parts

Reading can be interrupted after any character and taken up again. Nothing that was completed
before the interruption is touched afterwards, and all that the rest of the source has to know of
what came before is the state of the cutter: `pieces_append` says so. What stands open in that state
is at most one piece, and once a piece is settled the cutter goes on as if nothing had been open
(`pieces_of_settle`).

The cursor, on its part, always tells the line and the column that have been reached.
-/

namespace Lexing

/-! ## How far reading has got -/

namespace Cursor

theorem advance_of_ne {c : Char} (h : c ≠ '\n') (p : Cursor) :
    p.advance c = ⟨p.offset + c.utf8Size, p.line, p.column + 1⟩ := if_neg h

theorem advanceAll_append (p : Cursor) (a b : List Char) :
    p.advanceAll (a ++ b) = (p.advanceAll a).advanceAll b := List.foldl_append

theorem line_advanceAll (p : Cursor) (chars : List Char) :
    (p.advanceAll chars).line = p.line + chars.count '\n' := by
  induction chars generalizing p with
  | nil => rfl
  | cons c chars ih =>
      show ((p.advance c).advanceAll chars).line = _
      rw [ih]
      by_cases h : c = '\n'
      · subst h
        rw [List.count_cons_self]
        show p.line + 1 + _ = _
        omega
      · rw [advance_of_ne h, List.count_cons_of_ne h]

/-- The line reached is one more than the newlines that were read. -/
theorem line_start_advanceAll (chars : List Char) :
    (start.advanceAll chars).line = chars.count '\n' + 1 := by
  rw [line_advanceAll]
  exact Nat.add_comm 1 _

/-- The column reached is the length of what was read of the line. -/
theorem column_start_advanceAll (chars : List Char) :
    (start.advanceAll chars).column = (Text.lastLine chars).length := by
  induction chars using List.reverseRecOn with
  | nil => rfl
  | append_singleton chars c ih =>
      rw [advanceAll_append]
      show ((start.advanceAll chars).advance c).column = _
      by_cases h : c = '\n'
      · subst h
        rw [Text.lastLine_append_newline_cons]
        rfl
      · rw [advance_of_ne h, Text.lastLine_concat h, List.length_append, ← ih]
        rfl

end Cursor

/-! ## A run of the cutter, cut in two -/

namespace Cutter

/-- The pieces that are complete by the time the given characters have been read, if more may
follow. -/
def completed (k : Cutter) : List Char → List Piece
  | [] => []
  | c :: rest => (k.settle (some c)).toList ++ (k.read c).completed rest

theorem readAll_cons (k : Cutter) (c : Char) (rest : List Char) :
    k.readAll (c :: rest) = (k.read c).readAll rest := rfl

theorem readAll_append (k : Cutter) (a b : List Char) :
    k.readAll (a ++ b) = (k.readAll a).readAll b := List.foldl_append

theorem cursor_readAll (k : Cutter) (chars : List Char) :
    (k.readAll chars).cursor = k.cursor.advanceAll chars := by
  induction chars generalizing k with
  | nil => rfl
  | cons c chars ih => exact ih (k.read c)

/-- The cursor tells the line and the column of the character read last. -/
theorem cursor_start_readAll (chars : List Char) :
    (start.readAll chars).cursor.line = chars.count '\n' + 1 ∧
      (start.readAll chars).cursor.column = (Text.lastLine chars).length := by
  rw [cursor_readAll]
  exact ⟨Cursor.line_start_advanceAll chars, Cursor.column_start_advanceAll chars⟩

theorem line_readAll {k : Cutter} {chars : List Char} (h : '\n' ∉ chars) :
    (k.readAll chars).cursor.line = k.cursor.line := by
  rw [cursor_readAll, Cursor.line_advanceAll, List.count_eq_zero_of_not_mem h, Nat.add_zero]

/-- **What has been completed stays**, and the state at the cut settles the rest. -/
theorem pieces_append (k : Cutter) (a b : List Char) :
    k.pieces (a ++ b) = k.completed a ++ (k.readAll a).pieces b := by
  induction a generalizing k with
  | nil => rfl
  | cons c a ih =>
      show (k.settle (some c)).toList ++ (k.read c).pieces (a ++ b) = _
      rw [ih, ← List.append_assoc]
      rfl

theorem completed_append (k : Cutter) (a b : List Char) :
    k.completed (a ++ b) = k.completed a ++ (k.readAll a).completed b := by
  induction a generalizing k with
  | nil => rfl
  | cons c a ih =>
      show (k.settle (some c)).toList ++ (k.read c).completed (a ++ b) = _
      rw [ih, ← List.append_assoc]
      rfl

/-! ## What is settled -/

/-- The state in which whatever stood open is forgotten. -/
def close (k : Cutter) : Cutter := { k with mode := .idle }

/-- A piece ends where the cursor stands when it is settled. -/
theorem span_of_settle {k : Cutter} {next : Option Char} {p : Piece} (h : k.settle next = some p) :
    p.span.line = k.cursor.line ∧ p.span.last = k.cursor.column := by
  obtain ⟨cursor, mode⟩ := k
  cases mode with
  | idle => cases h
  | comment => cases h
  | separator mark =>
      cases h
      exact ⟨rfl, rfl⟩
  | run first text =>
      obtain ⟨_, _, rfl⟩ := Option.map_eq_some_iff.mp h
      exact ⟨rfl, rfl⟩

/-- A separator is settled by whatever comes next. -/
theorem exists_settle_separator {k : Cutter} {mark : Char} (h : k.mode = .separator mark) :
    ∃ p : Piece, p.form = .separator ∧ p.text = String.singleton mark ∧
      ∀ next, k.settle next = some p := by
  obtain ⟨cursor, mode⟩ := k
  cases h
  exact ⟨_, rfl, rfl, fun _ => rfl⟩

/-- A run is settled by what does not go on with it. -/
theorem exists_settle_run {k : Cutter} {first : Nat} {text : String} (h : k.mode = .run first text)
    {next : Option Char} {form : Form} (hnext : Form.ofNext? next = some form) :
    ∃ p : Piece, p.form = form ∧ p.text = text ∧ k.settle next = some p := by
  obtain ⟨cursor, mode⟩ := k
  cases h
  exact ⟨_, rfl, rfl, congrArg (Option.map _) hnext⟩

/-- Outside comments only a plain character cares about what is open. -/
theorem read_eq_close_read {k : Cutter} {c : Char} (hk : k.mode ≠ .comment)
    (hc : Role.of c ≠ .plain) : k.read c = k.close.read c := by
  obtain ⟨cursor, mode⟩ := k
  cases mode with
  | comment => exact absurd rfl hk
  | idle => rfl
  | separator mark => rfl
  | run first text => exact congrArg (Cutter.mk _) (Mode.opening_of_not_plain hc _ _)

/-- A character that settles a piece is read as if nothing had been open. -/
theorem read_of_settle {k : Cutter} {c : Char} {p : Piece} (h : k.settle (some c) = some p) :
    k.read c = k.close.read c := by
  obtain ⟨cursor, mode⟩ := k
  cases mode with
  | idle => cases h
  | comment => cases h
  | separator mark => rfl
  | run first text =>
      refine read_eq_close_read Mode.noConfusion fun hc => ?_
      -- a plain character would have gone on with the run
      simp only [settle, Form.ofNext?, hc] at h
      cases h

/-- **A settled piece leaves nothing open behind it.** -/
theorem pieces_of_settle {k : Cutter} {chars : List Char} {p : Piece}
    (h : k.settle chars.head? = some p) : k.pieces chars = p :: k.close.pieces chars := by
  cases chars with
  | nil =>
      rw [List.head?_nil] at h
      rw [pieces, h]
      rfl
  | cons c rest =>
      rw [List.head?_cons] at h
      rw [pieces, h, read_of_settle h]
      rfl

/-! ## Runs -/

/-- A run takes in whatever plain characters follow, and is not complete before they are read. -/
theorem readAll_run {k : Cutter} {first : Nat} {text : String} (hk : k.mode = .run first text)
    {run : List Char} (hrun : ∀ c ∈ run, Role.of c = .plain) :
    (k.readAll run).mode = .run first (text ++ String.ofList run) ∧ k.completed run = [] := by
  induction run generalizing k text with
  | nil => exact ⟨by rw [readAll, List.foldl_nil, hk]; simp, rfl⟩
  | cons c run ih =>
      have hc : Role.of c = .plain := hrun c List.mem_cons_self
      have hread : (k.read c).mode = .run first (text.push c) := by
        show k.mode.read _ c = _
        rw [hk, Mode.read, Mode.read.opening, hc]
      obtain ⟨hmode, hcompleted⟩ := ih hread fun d hd => hrun d (List.mem_cons_of_mem c hd)
      have htext : text.push c ++ String.ofList run = text ++ String.ofList (c :: run) := by
        rw [← String.toList_inj]
        simp
      refine ⟨hmode.trans (by rw [htext]), ?_⟩
      have hsettle : k.settle (some c) = none := by
        rw [settle, hk]
        simp [Form.ofNext?, hc]
      rw [completed, hsettle, hcompleted]
      rfl

/-! ## Blanks and comments -/

/-- Whether nothing stands open that could become a piece. -/
def Quiet (k : Cutter) : Prop := k.mode = .idle ∨ k.mode = .comment

theorem Quiet.settle {k : Cutter} (h : k.Quiet) (next : Option Char) : k.settle next = none := by
  unfold Cutter.settle
  rcases h with h | h
  · rw [h]
  · rw [h]

theorem Quiet.pieces_cons {k : Cutter} (h : k.Quiet) (c : Char) (rest : List Char) :
    k.pieces (c :: rest) = (k.read c).pieces rest := by
  rw [pieces, h.settle]
  rfl

theorem mode_read_of_blank {k : Cutter} {c : Char} (hk : k.mode ≠ .comment)
    (hc : Role.of c = .blank) : (k.read c).mode = .idle := by
  rw [read_eq_close_read hk (by rw [hc]; exact Role.noConfusion)]
  show Mode.read.opening c _ = _
  rw [Mode.read.opening, hc]

theorem mode_read_mark (k : Cutter) : (k.read commentMark).mode = .comment := by
  by_cases hk : k.mode = .comment
  · show k.mode.read _ commentMark = _
    rw [hk]
    rfl
  · have hmark : Role.of commentMark = .mark := Piece.role_commentMark
    rw [read_eq_close_read hk (by rw [hmark]; exact Role.noConfusion)]
    rfl

theorem mode_read_newline (k : Cutter) : (k.read '\n').mode = .idle := by
  by_cases hk : k.mode = .comment
  · show k.mode.read _ '\n' = _
    rw [hk]
    rfl
  · exact mode_read_of_blank hk role_newline

/-- Behind a blank nothing is open but perhaps a comment. -/
theorem quiet_read_of_blank (k : Cutter) {c : Char} (hc : Role.of c = .blank) :
    (k.read c).Quiet := by
  by_cases hk : k.mode = .comment
  · by_cases hnewline : c = '\n'
    · subst hnewline
      exact Or.inl (mode_read_newline k)
    · right
      show k.mode.read _ c = _
      rw [hk]
      exact if_neg hnewline
  · exact Or.inl (mode_read_of_blank hk hc)

/-- A comment takes in whatever stands before the newline, and completes nothing. -/
theorem readAll_comment {k : Cutter} (hk : k.mode = .comment) {text : List Char}
    (htext : '\n' ∉ text) :
    (k.readAll text).mode = .comment ∧ k.completed text = [] := by
  induction text generalizing k with
  | nil => exact ⟨hk, rfl⟩
  | cons c text ih =>
      rw [List.mem_cons, not_or] at htext
      have hread : (k.read c).mode = .comment := by
        show k.mode.read _ c = _
        rw [hk]
        exact if_neg fun e => htext.1 e.symm
      obtain ⟨hmode, hcompleted⟩ := ih hread htext.2
      refine ⟨hmode, ?_⟩
      rw [completed, Quiet.settle (Or.inr hk), hcompleted]
      rfl

end Cutter

/-! ## Whole sources -/

namespace Piece

theorem ofSource_eq_completed (source : String) :
    ofSource source = Cutter.start.completed source.toList ++
      ((Cutter.start.readAll source.toList).settle none).toList := by
  have happend := Cutter.pieces_append Cutter.start source.toList []
  rw [List.append_nil] at happend
  rw [ofSource_eq, happend]
  rfl

theorem ofSource_append (source rest : String) :
    ofSource (source ++ rest) = Cutter.start.completed source.toList ++
      (Cutter.start.readAll source.toList).pieces rest.toList := by
  rw [ofSource_eq, String.toList_append, Cutter.pieces_append]

end Piece

end Lexing
