import Lexing.Event
import Lexing.Proofs.Resumption
import Mathlib.Data.List.Forall2

/-!
# What makes no difference

Two sources that differ only in what they say in comments, or in how their blanks are written, are
the same to lexing: it finds the same tokens and strays in the same places, and keeps the same log.
The text of a comment may be any, and so may be what fills the end of a line; and a blank may be
replaced by another wherever it stands, as long as no newline comes or goes.

To see this, two runs of the cutter are compared. Where one blank is read instead of another, the
two stay in states that differ in nothing but the bytes read. At the end of a line they may drift
apart, since one may have read more characters than the other, but all that is open then is a
comment or nothing, and the newline brings them together again: it sets the column back and ends the
comment. So all that has to be known of two runs that reach a newline is that they are on the same
line and that nothing is open in either that could become a piece.
-/

namespace Lexing

/-! ## Sources that lexing does not tell apart -/

/-- Whether two sources have the same tokens and strays and the same log. -/
def Indistinct (s t : String) : Prop := lex s = lex t ∧ log s = log t

/-- A log tells of the pieces and of the number of lines, and of nothing else. -/
theorem Indistinct.of_pieces {s t : String} (hpieces : Piece.ofSource s = Piece.ofSource t)
    (hlines : s.toList.count '\n' = t.toList.count '\n') : Indistinct s t := by
  refine ⟨congrArg Lexed.ofPieces hpieces, ?_⟩
  unfold log
  rw [hpieces, Cursor.line_start_advanceAll, Cursor.line_start_advanceAll, hlines]

namespace Text

/-- Whether the character is a blank that stays on its line. -/
def IsSpace (c : Char) : Prop := isBlank c = true ∧ c ≠ '\n'

instance (c : Char) : Decidable (IsSpace c) :=
  inferInstanceAs (Decidable (isBlank c = true ∧ c ≠ '\n'))

/-- Whether two characters are the same, or are both blanks that stay on their line. -/
def Alike (c d : Char) : Prop := c = d ∨ IsSpace c ∧ IsSpace d

/-- Whether the text is at its end or goes on with a newline. -/
def AtLineEnd (chars : List Char) : Prop := ∀ c ∈ chars.head?, c = '\n'

/-- Whether the text is nothing at all, or blanks, perhaps with a comment behind them. -/
def IsTrailing (chars : List Char) : Prop :=
  chars = [] ∨ ∃ blanks comment, chars = blanks ++ comment ∧ blanks ≠ [] ∧
    (∀ c ∈ blanks, isBlank c = true) ∧ ∀ c ∈ comment.head?, c = commentMark

end Text

namespace Cutter

/-! ## Runs that differ in blanks -/

/-- Whether two states differ in the bytes read at most. -/
structure Alike (k k' : Cutter) : Prop where
  line_eq : k.cursor.line = k'.cursor.line
  column_eq : k.cursor.column = k'.cursor.column
  mode_eq : k.mode = k'.mode

theorem role_of_alike {c d : Char} (h : Text.Alike c d) : Role.of c = Role.of d := by
  rcases h with rfl | ⟨hc, hd⟩
  · rfl
  · rw [Role.of, if_pos hc.1, Role.of, if_pos hd.1]

theorem mode_read_of_space {k : Cutter} {c : Char} (hc : Text.IsSpace c) :
    (k.read c).mode = if k.mode = .comment then .comment else .idle := by
  by_cases hk : k.mode = .comment
  · rw [if_pos hk]
    show k.mode.read _ c = _
    rw [hk]
    exact if_neg hc.2
  · rw [if_neg hk]
    exact mode_read_of_blank hk (if_pos hc.1)

/-- Reading like characters leaves like states alike. -/
theorem Alike.read {k k' : Cutter} (h : k.Alike k') {c d : Char} (hcd : Text.Alike c d) :
    (k.read c).Alike (k'.read d) := by
  obtain ⟨hline, hcolumn, hmode⟩ := h
  rcases hcd with rfl | ⟨hc, hd⟩
  · have hcursor : (k.cursor.advance c).line = (k'.cursor.advance c).line ∧
        (k.cursor.advance c).column = (k'.cursor.advance c).column := by
      by_cases hc : c = '\n'
      · subst hc
        exact ⟨congrArg (· + 1) hline, rfl⟩
      · rw [Cursor.advance_of_ne hc, Cursor.advance_of_ne hc]
        exact ⟨hline, congrArg (· + 1) hcolumn⟩
    refine ⟨hcursor.1, hcursor.2, ?_⟩
    show k.mode.read (k.cursor.advance c).column c = k'.mode.read (k'.cursor.advance c).column c
    rw [hmode, hcursor.2]
  · have hk := Cursor.advance_of_ne hc.2 k.cursor
    have hk' := Cursor.advance_of_ne hd.2 k'.cursor
    refine ⟨?_, ?_, ?_⟩
    · show (k.cursor.advance c).line = (k'.cursor.advance d).line
      rw [hk, hk']
      exact hline
    · show (k.cursor.advance c).column = (k'.cursor.advance d).column
      rw [hk, hk']
      exact congrArg (· + 1) hcolumn
    · rw [mode_read_of_space hc, mode_read_of_space hd, hmode]

/-- Like states settle the same piece, if what comes next plays the same part. -/
theorem Alike.settle {k k' : Cutter} (h : k.Alike k') {next next' : Option Char}
    (hnext : Form.ofNext? next = Form.ofNext? next') : k.settle next = k'.settle next' := by
  obtain ⟨hline, hcolumn, hmode⟩ := h
  unfold Cutter.settle
  rw [hline, hcolumn, hmode, hnext]

theorem ofNext?_of_alike {c d : Char} (h : Text.Alike c d) :
    Form.ofNext? (some c) = Form.ofNext? (some d) := by
  rw [Form.ofNext?, Form.ofNext?, role_of_alike h]

/-- So two runs over texts that are alike find the same pieces. -/
theorem Alike.pieces {k k' : Cutter} (h : k.Alike k') {a b : List Char}
    (hab : List.Forall₂ Text.Alike a b) : k.pieces a = k'.pieces b := by
  induction hab generalizing k k' with
  | nil => rw [Cutter.pieces, Cutter.pieces, h.settle rfl]
  | cons hcd _ ih =>
      rw [Cutter.pieces, Cutter.pieces, h.settle (ofNext?_of_alike hcd), ih (h.read hcd)]

/-! ## Runs that meet at the end of a line -/

/-- **Two runs meet again at the newline**, wherever on the line they are, if nothing is open in
either that could become a piece. -/
theorem Quiet.pieces_eq {k k' : Cutter} (h : k.Quiet) (h' : k'.Quiet)
    (hline : k.cursor.line = k'.cursor.line) {rest : List Char} (hrest : Text.AtLineEnd rest) :
    k.pieces rest = k'.pieces rest := by
  cases rest with
  | nil => rw [pieces, pieces, h.settle, h'.settle]
  | cons c rest =>
      obtain rfl : c = '\n' := hrest c rfl
      have halike : (k.read '\n').Alike (k'.read '\n') :=
        ⟨congrArg (· + 1) hline, rfl, (mode_read_newline k).trans (mode_read_newline k').symm⟩
      rw [h.pieces_cons, h'.pieces_cons]
      exact halike.pieces (List.forall₂_same.mpr fun _ _ => Or.inl rfl)

/-- Blanks and a comment behind them complete nothing where nothing is open. -/
theorem Quiet.readAll {k : Cutter} (hk : k.Quiet) {blanks comment : List Char}
    (hblanks : ∀ c ∈ blanks, Text.isBlank c = true)
    (hcomment : ∀ c ∈ comment.head?, c = commentMark) (hnewline : '\n' ∉ comment) :
    (k.readAll (blanks ++ comment)).Quiet ∧ k.completed (blanks ++ comment) = [] := by
  induction blanks generalizing k with
  | nil =>
      cases comment with
      | nil => exact ⟨hk, rfl⟩
      | cons c comment =>
          obtain rfl : c = commentMark := hcomment c rfl
          rw [List.mem_cons, not_or] at hnewline
          obtain ⟨hmode, hcompleted⟩ := readAll_comment (mode_read_mark k) hnewline.2
          refine ⟨Or.inr hmode, ?_⟩
          rw [List.nil_append, completed, hk.settle, hcompleted]
          rfl
  | cons c blanks ih =>
      have hc : Role.of c = .blank := if_pos (hblanks c List.mem_cons_self)
      obtain ⟨hquiet, hcompleted⟩ := ih (quiet_read_of_blank k hc)
        fun d hd => hblanks d (List.mem_cons_of_mem c hd)
      refine ⟨hquiet, ?_⟩
      rw [List.cons_append, completed, hk.settle, hcompleted]
      rfl

/-- In front of a blank the same is settled as at the end of the source. -/
theorem settle_of_blank (k : Cutter) {next : Option Char} (h : ∀ c ∈ next, Role.of c = .blank) :
    k.settle next = k.settle none := by
  have hform : Form.ofNext? next = Form.ofNext? none := by
    cases next with
    | none => rfl
    | some c =>
        show Form.ofNext? (some c) = some .run
        rw [Form.ofNext?, h c rfl]
  exact Alike.settle ⟨rfl, rfl, rfl⟩ hform

theorem quiet_or_settle (k : Cutter) : k.Quiet ∨ ∃ p, k.settle none = some p := by
  obtain ⟨cursor, mode⟩ := k
  cases mode with
  | idle => exact Or.inl (Or.inl rfl)
  | comment => exact Or.inl (Or.inr rfl)
  | separator mark => exact Or.inr ⟨_, rfl⟩
  | run first text => exact Or.inr ⟨_, rfl⟩

/-- Whether reading the text, with the given rest behind it, stays on the line, completes no more
than what the given next character settles, and leaves nothing open that could become a piece. -/
def Subsides (k : Cutter) (next : Option Char) (text rest : List Char) : Prop :=
  ∃ k' : Cutter, k'.Quiet ∧ k'.cursor.line = k.cursor.line ∧
    k.pieces (text ++ rest) = (k.settle next).toList ++ k'.pieces rest

/-- The end of a line completes what was open and leaves nothing open behind it. -/
theorem subsides_nil (k : Cutter) {rest : List Char} (hrest : Text.AtLineEnd rest) :
    k.Subsides none [] rest := by
  rcases quiet_or_settle k with hquiet | ⟨p, hp⟩
  · refine ⟨k, hquiet, rfl, ?_⟩
    rw [hquiet.settle]
    rfl
  · have hnext : ∀ c ∈ rest.head?, Role.of c = .blank := by
      intro c hc
      rw [hrest c hc]
      exact role_newline
    refine ⟨k.close, Or.inl rfl, rfl, ?_⟩
    rw [List.nil_append, pieces_of_settle ((settle_of_blank k hnext).trans hp), hp]
    rfl

/-- What fills the end of a line does no more than its end. -/
theorem subsides_trailing (k : Cutter) {trailing rest : List Char}
    (htrailing : Text.IsTrailing trailing) (hnewline : '\n' ∉ trailing)
    (hrest : Text.AtLineEnd rest) : k.Subsides none trailing rest := by
  rcases htrailing with rfl | ⟨blanks, comment, rfl, hne, hblanks, hcomment⟩
  · exact subsides_nil k hrest
  obtain ⟨b, blanks, rfl⟩ := List.exists_cons_of_ne_nil hne
  have hb : Role.of b = .blank := if_pos (hblanks b List.mem_cons_self)
  obtain ⟨hquiet, hcompleted⟩ := (quiet_read_of_blank k hb).readAll
    (fun c hc => hblanks c (List.mem_cons_of_mem b hc)) hcomment
    (fun h => hnewline (List.mem_append_right _ h))
  refine ⟨k.readAll (b :: blanks ++ comment), hquiet, line_readAll hnewline, ?_⟩
  rw [pieces_append, List.cons_append, completed, hcompleted, List.append_nil,
    settle_of_blank k (by rintro _ ⟨⟩; exact hb)]

/-- A comment drops or completes what was open, whatever it says. -/
theorem subsides_comment (k : Cutter) {comment : List Char} (hcomment : '\n' ∉ comment)
    (rest : List Char) : k.Subsides (some commentMark) (commentMark :: comment) rest := by
  obtain ⟨hmode, hcompleted⟩ := readAll_comment (mode_read_mark k) hcomment
  have hnewline : '\n' ∉ commentMark :: comment := by
    rw [List.mem_cons, not_or]
    exact ⟨by decide, hcomment⟩
  refine ⟨k.readAll (commentMark :: comment), Or.inr hmode, line_readAll hnewline, ?_⟩
  rw [pieces_append, completed, hcompleted, List.append_nil]

/-- So two such texts in front of the end of a line are the same to the cutter. -/
theorem Subsides.pieces_eq {k : Cutter} {next : Option Char} {x y rest : List Char}
    (hx : k.Subsides next x rest) (hy : k.Subsides next y rest) (hrest : Text.AtLineEnd rest) :
    k.pieces (x ++ rest) = k.pieces (y ++ rest) := by
  obtain ⟨kx, hquietx, hlinex, hpiecesx⟩ := hx
  obtain ⟨ky, hquiety, hliney, hpiecesy⟩ := hy
  rw [hpiecesx, hpiecesy, hquietx.pieces_eq hquiety (hlinex.trans hliney.symm) hrest]

end Cutter

/-! ## Whole sources -/

namespace Piece

theorem ofSource_comment (a : String) {c₁ c₂ r : String} (h₁ : '\n' ∉ c₁.toList)
    (h₂ : '\n' ∉ c₂.toList) (hr : Text.AtLineEnd r.toList) :
    ofSource (a ++ "#" ++ c₁ ++ r) = ofSource (a ++ "#" ++ c₂ ++ r) := by
  have htext : ∀ c : String, (a ++ "#" ++ c ++ r).toList =
      a.toList ++ (commentMark :: c.toList ++ r.toList) := by
    intro c
    simp [commentMark]
  have h₁' := Cutter.subsides_comment (Cutter.start.readAll a.toList) h₁ r.toList
  have h₂' := Cutter.subsides_comment (Cutter.start.readAll a.toList) h₂ r.toList
  rw [ofSource_eq, ofSource_eq, htext, htext, Cutter.pieces_append _ a.toList,
    Cutter.pieces_append _ a.toList, h₁'.pieces_eq h₂' hr]

theorem ofSource_trailing (a : String) {x y r : String} (hx : Text.IsTrailing x.toList)
    (hxline : '\n' ∉ x.toList) (hy : Text.IsTrailing y.toList) (hyline : '\n' ∉ y.toList)
    (hr : Text.AtLineEnd r.toList) : ofSource (a ++ x ++ r) = ofSource (a ++ y ++ r) := by
  have htext : ∀ x : String, (a ++ x ++ r).toList = a.toList ++ (x.toList ++ r.toList) := by
    intro x
    simp
  have hx' := Cutter.subsides_trailing (Cutter.start.readAll a.toList) hx hxline hr
  have hy' := Cutter.subsides_trailing (Cutter.start.readAll a.toList) hy hyline hr
  rw [ofSource_eq, ofSource_eq, htext, htext, Cutter.pieces_append _ a.toList,
    Cutter.pieces_append _ a.toList, hx'.pieces_eq hy' hr]

theorem ofSource_alike {s t : String} (h : List.Forall₂ Text.Alike s.toList t.toList) :
    ofSource s = ofSource t := by
  rw [ofSource_eq, ofSource_eq]
  exact Cutter.Alike.pieces ⟨rfl, rfl, rfl⟩ h

end Piece

/-- Texts that are alike have newlines in the same places. -/
theorem Text.count_newline_of_alike {a b : List Char} (h : List.Forall₂ Alike a b) :
    a.count '\n' = b.count '\n' := by
  induction h with
  | nil => rfl
  | cons hcd _ ih =>
      rcases hcd with rfl | ⟨hc, hd⟩
      · rw [List.count_cons, List.count_cons, ih]
      · rw [List.count_cons_of_ne hc.2, List.count_cons_of_ne hd.2, ih]

/-- **What stands in comments and how blanks are written makes no difference**, neither to what is
found nor to the log: the text of a comment, what fills the end of a line, and one blank in place of
another. -/
theorem indistinct_of_trivia :
    (∀ a c₁ c₂ r : String, '\n' ∉ c₁.toList → '\n' ∉ c₂.toList → Text.AtLineEnd r.toList →
        Indistinct (a ++ "#" ++ c₁ ++ r) (a ++ "#" ++ c₂ ++ r)) ∧
      (∀ a x y r : String, Text.IsTrailing x.toList → '\n' ∉ x.toList →
        Text.IsTrailing y.toList → '\n' ∉ y.toList → Text.AtLineEnd r.toList →
        Indistinct (a ++ x ++ r) (a ++ y ++ r)) ∧
      ∀ s t : String, List.Forall₂ Text.Alike s.toList t.toList → Indistinct s t := by
  refine ⟨?_, ?_, ?_⟩
  · intro a c₁ c₂ r h₁ h₂ hr
    refine Indistinct.of_pieces (Piece.ofSource_comment a h₁ h₂ hr) ?_
    simp [List.count_append, List.count_eq_zero_of_not_mem h₁, List.count_eq_zero_of_not_mem h₂]
  · intro a x y r hx hxline hy hyline hr
    refine Indistinct.of_pieces (Piece.ofSource_trailing a hx hxline hy hyline hr) ?_
    simp [List.count_append, List.count_eq_zero_of_not_mem hxline,
      List.count_eq_zero_of_not_mem hyline]
  · intro s t h
    exact Indistinct.of_pieces (Piece.ofSource_alike h) (Text.count_newline_of_alike h)

/-- A comment with quotation marks and another mark in it, a trailing comment in place of nothing
behind an open run, and other blanks in place of a tab and a return. -/
theorem indistinct_call :
    '\n' ∉ " \"(#;".toList ∧ '\n' ∉ "".toList ∧ Text.AtLineEnd "\n)".toList ∧
      Indistinct ("f(1" ++ "#" ++ " \"(#;" ++ "\n)") ("f(1" ++ "#" ++ "" ++ "\n)") ∧
      Text.IsTrailing "\r\t# x".toList ∧ '\n' ∉ "\r\t# x".toList ∧ Text.IsTrailing "".toList ∧
      Indistinct ("f(1" ++ "\r\t# x" ++ "\n)") ("f(1" ++ "" ++ "\n)") ∧
      List.Forall₂ Text.Alike "f\t1\r\n".toList "f\u00a01\u3000\n".toList ∧
      Indistinct "f\t1\r\n" "f\u00a01\u3000\n" := by
  obtain ⟨hcomment, htrailing, halike⟩ := indistinct_of_trivia
  have hquotes : '\n' ∉ " \"(#;".toList := by decide
  have hempty : '\n' ∉ "".toList := by decide
  have hend : Text.AtLineEnd "\n)".toList := by
    rintro _ ⟨⟩
    rfl
  have hblanks : Text.IsTrailing "\r\t# x".toList := by
    refine Or.inr ⟨['\r', '\t'], ['#', ' ', 'x'], rfl, by decide, ?_, ?_⟩
    · exact List.all_eq_true.mp (by decide)
    · rintro _ ⟨⟩
      rfl
  have hline : '\n' ∉ "\r\t# x".toList := by decide
  have hnothing : Text.IsTrailing "".toList := Or.inl rfl
  have hsame : List.Forall₂ Text.Alike "f\t1\r\n".toList "f\u00a01\u3000\n".toList :=
    .cons (Or.inl rfl) (.cons (Or.inr (by decide)) (.cons (Or.inl rfl)
      (.cons (Or.inr (by decide)) (.cons (Or.inl rfl) .nil))))
  exact ⟨hquotes, hempty, hend, hcomment _ _ _ _ hquotes hempty hend, hblanks, hline, hnothing,
    htrailing _ _ _ _ hblanks hline hnothing hempty hend, hsame, halike _ _ hsame⟩

end Lexing
