import Lexing.Proofs.Extension
import Lexing.Proofs.Runs
import Lexing.Proofs.Trivia

/-!
# What a comment drops

A comment that touches a run takes the run with it. What else it does can be seen by putting a blank
in front of it: the comment is then a comment like any other, and the run is what it would be by
itself. So the two sources are compared, the one with the blank and the one without, and they differ
in the run alone. All other tokens and strays are the same in both, on the line of the comment and
on all lines after it.

In both sources the cutter reaches the end of the line with nothing open that could become a piece.
From there on the two runs of the cutter are one, whatever they did before.
-/

namespace Lexing

/-! ## Texts that end in a run -/

/-- Whether what follows the text touches a run: the last character of the text is in no comment,
and it is neither a blank nor a separator. -/
def Text.EndsInRun (chars : List Char) : Prop :=
  commentMark ∉ lastLine chars ∧ ∃ c ∈ chars.getLast?, isBlank c = false ∧ c ∉ separators

/-- Whether the span ends at the last character of the text that the source begins with. -/
def Span.EndsAt (s : Span) (front : List Char) : Prop :=
  s.line = front.count '\n' + 1 ∧ s.last = (Text.lastLine front).length

instance (s : Span) (front : List Char) : Decidable (s.EndsAt front) :=
  inferInstanceAs (Decidable (_ ∧ _))

theorem Text.EndsInRun.role_getLast {chars : List Char} (h : EndsInRun chars) :
    ∃ c ∈ chars.getLast?, Role.of c = .plain := by
  obtain ⟨hmark, c, hc, hblank, hseparator⟩ := h
  obtain ⟨init, rfl⟩ := List.getLast?_eq_some_iff.mp hc
  rw [lastLine_concat (ne_newline_of_not_isBlank hblank), List.mem_append, not_or,
    List.mem_singleton] at hmark
  refine ⟨c, hc, ?_⟩
  rw [Role.of, if_neg (by rw [hblank]; exact Bool.noConfusion), if_neg hseparator,
    if_neg fun e => hmark.2 e.symm]

namespace Cutter

/-- Behind such a text a run is open. -/
theorem exists_run_of_endsInRun {chars : List Char} (h : Text.EndsInRun chars) :
    ∃ first text, (start.readAll chars).mode = .run first text := by
  obtain ⟨c, hc, hplain⟩ := h.role_getLast
  have hdescribes := describes_readAll chars
  cases hmode : (start.readAll chars).mode with
  | idle =>
      rw [hmode] at hdescribes
      exact absurd hplain (hdescribes.2 c hc)
  | comment =>
      rw [hmode] at hdescribes
      exact absurd hdescribes h.1
  | separator mark =>
      rw [hmode] at hdescribes
      exact absurd hplain (hdescribes.2 c hc)
  | run first text => exact ⟨first, text, rfl⟩

end Cutter

/-! ## The two sources -/

/-- The piece of a run that a comment touches. -/
def Piece.dropped (p : Piece) : Piece := { p with form := .dropped }

/-- **The two sources have the same pieces**, but for the form of the run that the first of them
keeps. -/
theorem Piece.exists_dropped {a c r : String} (ha : Text.EndsInRun a.toList)
    (hc : '\n' ∉ c.toList) (hr : Text.AtLineEnd r.toList) :
    ∃ (front : List Piece) (p : Piece) (back : List Piece),
      ofSource (a ++ " #" ++ c ++ r) = front ++ p :: back ∧
        ofSource (a ++ "#" ++ c ++ r) = front ++ p.dropped :: back ∧
        p.form = .run ∧ p.span.EndsAt a.toList := by
  obtain ⟨first, text, hmode⟩ := Cutter.exists_run_of_endsInRun ha
  obtain ⟨hline, hcolumn⟩ := Cutter.cursor_start_readAll a.toList
  -- both sources go on from the state that the text before them leaves
  generalize hk : Cutter.start.readAll a.toList = k at hmode hline hcolumn
  have htrailing : Text.IsTrailing (' ' :: commentMark :: c.toList) := by
    refine Or.inr ⟨[' '], commentMark :: c.toList, rfl, List.cons_ne_nil _ _, ?_, ?_⟩
    · intro b hb
      rw [List.mem_singleton.mp hb]
      decide
    · rintro _ ⟨⟩
      rfl
  have hnewline : '\n' ∉ ' ' :: commentMark :: c.toList := by
    rw [List.mem_cons, List.mem_cons, not_or, not_or]
    exact ⟨by decide, by decide, hc⟩
  obtain ⟨k₁, hquiet₁, hline₁, hapart⟩ := Cutter.subsides_trailing k htrailing hnewline hr
  obtain ⟨k₂, hquiet₂, hline₂, htouching⟩ := Cutter.subsides_comment k hc r.toList
  have hmeet := hquiet₁.pieces_eq hquiet₂ (hline₁.trans hline₂.symm) hr
  have hend : k.settle none = some ⟨.run, text, ⟨k.cursor.line, first, k.cursor.column⟩⟩ := by
    rw [Cutter.settle, hmode]
    rfl
  have hmark : k.settle (some commentMark) =
      some ⟨.dropped, text, ⟨k.cursor.line, first, k.cursor.column⟩⟩ := by
    rw [Cutter.settle, hmode, Form.ofNext?, role_commentMark]
    rfl
  refine ⟨Cutter.start.completed a.toList, ⟨.run, text, ⟨k.cursor.line, first, k.cursor.column⟩⟩,
    k₁.pieces r.toList, ?_, ?_, rfl, hline, hcolumn⟩
  · have htext : (a ++ " #" ++ c ++ r).toList =
        a.toList ++ (' ' :: commentMark :: c.toList ++ r.toList) := by
      simp [commentMark]
    rw [ofSource_eq, htext, Cutter.pieces_append, hk, hapart, hend]
    rfl
  · have htext : (a ++ "#" ++ c ++ r).toList =
        a.toList ++ (commentMark :: c.toList ++ r.toList) := by
      simp [commentMark]
    rw [ofSource_eq, htext, Cutter.pieces_append, hk, htouching, hmark, ← hmeet]
    rfl

/-- No other piece ends where one of them does. -/
theorem Piece.not_endsAt {source : String} {front back : List Piece} {p : Piece}
    (h : ofSource source = front ++ p :: back) {chars : List Char} (hp : p.span.EndsAt chars) :
    ∀ q ∈ front ++ back, ¬q.span.EndsAt chars := by
  have hshows : ∀ q ∈ front ++ p :: back, q.span.first ≤ q.span.last := by
    intro q hq
    rw [← h] at hq
    exact (shows_of_mem_ofSource hq).first_le
  have hpairs := pairwise_ofSource source
  rw [h] at hpairs
  obtain ⟨_, hbehind, hfront⟩ := List.pairwise_append.mp hpairs
  obtain ⟨hpline, hplast⟩ := hp
  rintro q hq ⟨hqline, hqlast⟩
  rcases List.mem_append.mp hq with hq | hq
  · have hle := hshows p (List.mem_append_right front List.mem_cons_self)
    rcases hfront q hq p List.mem_cons_self with hprecedes | ⟨_, hprecedes⟩
    · omega
    · omega
  · have hle := hshows q (List.mem_append_right front (List.mem_cons_of_mem p hq))
    rcases (List.pairwise_cons.mp hbehind).1 q hq with hprecedes | ⟨_, hprecedes⟩
    · omega
    · omega

/-! ## From pieces to tokens and strays -/

namespace Lexed

/-- What was found, except for what ends at the last character of the given text. -/
def besides (l : Lexed) (front : List Char) : Lexed :=
  ⟨l.tokens.filter fun t => ¬t.span.EndsAt front, l.strays.filter fun s => ¬s.span.EndsAt front⟩

/-- Whether an item ends there can be told from its piece. -/
theorem besides_ofPieces (pieces : List Piece) (front : List Char) :
    (ofPieces pieces).besides front =
      ofPieces (pieces.filter fun p => ¬p.span.EndsAt front) := by
  unfold besides ofPieces
  rw [List.filter_filterMap, List.filter_filterMap, List.filterMap_filter, List.filterMap_filter]
  congr 1
  · refine List.filterMap_congr fun p _ => ?_
    cases htoken : p.token? with
    | none => simp
    | some t => rw [← (Piece.of_token?_eq_some htoken).2]; rfl
  · refine List.filterMap_congr fun p _ => ?_
    cases hstray : p.stray? with
    | none => simp
    | some s => rw [← (Piece.of_stray?_eq_some hstray).2]; rfl

/-- A dropped run makes neither a token nor a stray. -/
theorem ofPieces_dropped (front back : List Piece) (p : Piece) :
    ofPieces (front ++ p.dropped :: back) = ofPieces (front ++ back) := by
  unfold ofPieces
  rw [List.filterMap_append, List.filterMap_append, List.filterMap_append, List.filterMap_append]
  rfl

/-- A run that is kept makes one of the two. -/
theorem size_ofPieces_run {p : Piece} (h : p.form = .run) (front back : List Piece) :
    (ofPieces (front ++ p :: back)).size = (ofPieces (front ++ back)).size + 1 := by
  have hone : (ofPieces [p]).size = 1 := by
    obtain ⟨form, text, span⟩ := p
    obtain rfl : form = .run := h
    simp only [ofPieces, size, Piece.token?, Piece.stray?, List.filterMap_cons, List.filterMap_nil]
    cases Rule.recognize text with
    | none => rfl
    | some _ => rfl
  have happend : ofPieces (front ++ p :: back) =
      ofPieces front ++ (ofPieces [p] ++ ofPieces back) := by
    rw [← ofPieces_append, ← ofPieces_append]
    rfl
  rw [happend, ofPieces_append, size_append, size_append, size_append, hone]
  omega

end Lexed

/-- **A comment drops the run that it touches and nothing else.** The source has the tokens and
strays that it would have with a blank in front of the comment, except for the one that ends where
the comment begins; and there is always one that does. -/
theorem touching_comment_drops {a c r : String} (ha : Text.EndsInRun a.toList)
    (hc : '\n' ∉ c.toList) (hr : Text.AtLineEnd r.toList) :
    lex (a ++ "#" ++ c ++ r) = (lex (a ++ " #" ++ c ++ r)).besides a.toList ∧
      (lex (a ++ " #" ++ c ++ r)).size = (lex (a ++ "#" ++ c ++ r)).size + 1 := by
  obtain ⟨front, p, back, hapart, htouching, hform, hends⟩ := Piece.exists_dropped ha hc hr
  have hlex : lex (a ++ "#" ++ c ++ r) = Lexed.ofPieces (front ++ back) := by
    unfold lex
    rw [htouching, Lexed.ofPieces_dropped]
  have hlex' : lex (a ++ " #" ++ c ++ r) = Lexed.ofPieces (front ++ p :: back) := by
    unfold lex
    rw [hapart]
  have hfilter :
      (front ++ p :: back).filter (fun q => ¬q.span.EndsAt a.toList) = front ++ back := by
    have hothers := Piece.not_endsAt hapart hends
    rw [List.filter_append, List.filter_cons_of_neg (by simpa using hends), ← List.filter_append]
    exact List.filter_eq_self.mpr fun q hq => by simpa using hothers q hq
  refine ⟨?_, ?_⟩
  · rw [hlex, hlex', Lexed.besides_ofPieces, hfilter]
  · rw [hlex, hlex', Lexed.size_ofPieces_run hform]

/-- A stray is dropped, though the comment holds a quotation mark and marks; what stands before it
and on the next line keeps its place. -/
theorem touching_comment_drops_stray :
    Text.EndsInRun "f(\n a=b".toList ∧ '\n' ∉ " \"#(".toList ∧ Text.AtLineEnd "\n)".toList ∧
      lex "f(\n a=b# \"#(\n)" = (lex "f(\n a=b # \"#(\n)").besides "f(\n a=b".toList ∧
      (lex "f(\n a=b # \"#(\n)").size = (lex "f(\n a=b# \"#(\n)").size + 1 ∧
      (lex "f(\n a=b # \"#(\n)").strays = [⟨"a=b", ⟨2, 2, 4⟩⟩] := by
  have ha : Text.EndsInRun "f(\n a=b".toList := ⟨by decide, 'b', rfl, by decide, by decide⟩
  have hc : '\n' ∉ " \"#(".toList := by decide
  have hr : Text.AtLineEnd "\n)".toList := by
    rintro _ ⟨⟩
    rfl
  obtain ⟨hdropped, hsize⟩ := touching_comment_drops ha hc hr
  exact ⟨ha, hc, hr, hdropped, hsize, by decide +kernel⟩

end Lexing
