import Lexing.Proofs.Concatenation
import Lexing.Proofs.Location
import Lexing.Proofs.Resumption

/-!
# Sources that are extended

A source may be lexed while it is still being written. Whatever is added at its end, nothing that
was found before changes, but for one item: a run that goes right up to the end may turn out to go
on, to be something else, or to be dropped. All other tokens and strays stand as they are, with the
same kinds, texts and spans, at the front of what the longer source gives.

A separator at the end is not affected, since nothing continues it. And there is never more than one
item that touches the end: pieces that were completed while there was still a character to come end
in front of that character.
-/

namespace Lexing

/-! ## What touches the end -/

/-- Whether the span covers the last character of the source. -/
def Span.CoversEnd (s : Span) (source : List Char) : Prop :=
  source ≠ [] ∧
    s.Holds (source.dropLast.count '\n' + 1) ((Text.lastLine source.dropLast).length + 1)

instance (s : Span) (source : List Char) : Decidable (s.CoversEnd source) :=
  inferInstanceAs (Decidable (source ≠ [] ∧ (_ = s.line ∧ s.first ≤ _ ∧ _ ≤ s.last)))

namespace Lexed

/-- What was found in the source, except for a stray or a token other than a separator that covers
its last character. -/
def settled (l : Lexed) (source : String) : Lexed :=
  ⟨l.tokens.filter fun t => ¬(t.kind ≠ .separator ∧ t.span.CoversEnd source.toList),
    l.strays.filter fun s => ¬s.span.CoversEnd source.toList⟩

/-- How many tokens and strays there are. -/
def size (l : Lexed) : Nat := l.tokens.length + l.strays.length

example : (lex "a=(1").settled "a=(1" = ⟨[⟨.separator, "(", ⟨1, 3, 3⟩⟩], [⟨"a=", ⟨1, 1, 2⟩⟩]⟩ := by
  decide +kernel

end Lexed

/-! ## Pieces end in front of what is still to be read -/

/-- Whether the span ends no later than the character that was read last. -/
def Span.EndsBy (s : Span) (p : Cursor) : Prop :=
  s.line < p.line ∨ s.line = p.line ∧ s.last ≤ p.column

theorem Span.EndsBy.advance {s : Span} {p : Cursor} (h : s.EndsBy p) (c : Char) :
    s.EndsBy (p.advance c) := by
  by_cases hc : c = '\n'
  · subst hc
    left
    show s.line < p.line + 1
    rcases h with h | ⟨h, _⟩
    · omega
    · omega
  · rw [Cursor.advance_of_ne hc]
    rcases h with h | ⟨hline, hlast⟩
    · exact Or.inl h
    · exact Or.inr ⟨hline, Nat.le_succ_of_le hlast⟩

theorem Span.EndsBy.advanceAll {s : Span} {p : Cursor} (h : s.EndsBy p) (chars : List Char) :
    s.EndsBy (p.advanceAll chars) := by
  induction chars generalizing p with
  | nil => exact h
  | cons c chars ih => exact ih (h.advance c)

/-- The next character lies behind all spans that end where the cursor stands. -/
theorem Span.EndsBy.not_holds {s : Span} {p : Cursor} (h : s.EndsBy p) :
    ¬s.Holds p.line (p.column + 1) := by
  rintro ⟨hline, _, hlast⟩
  rcases h with h | ⟨_, h⟩
  · omega
  · omega

namespace Cutter

theorem endsBy_of_settle {k : Cutter} {next : Option Char} {p : Piece}
    (h : k.settle next = some p) : p.span.EndsBy k.cursor := by
  obtain ⟨hline, hlast⟩ := span_of_settle h
  exact Or.inr ⟨hline, Nat.le_of_eq hlast⟩

/-- What is complete once a character has been read ends in front of that character. -/
theorem endsBy_of_mem_completed {k : Cutter} {chars : List Char} {c : Char} {p : Piece}
    (h : p ∈ k.completed (chars ++ [c])) : p.span.EndsBy (k.readAll chars).cursor := by
  rw [cursor_readAll]
  induction chars generalizing k with
  | nil =>
      have hp : p ∈ (k.settle (some c)).toList := by simpa [completed] using h
      exact endsBy_of_settle (Option.mem_toList.mp hp)
  | cons d chars ih =>
      rw [List.cons_append, completed, List.mem_append] at h
      rcases h with h | h
      · exact (endsBy_of_settle (Option.mem_toList.mp h)).advanceAll (d :: chars)
      · exact ih h

theorem not_coversEnd_of_mem_completed {source : List Char} {p : Piece}
    (h : p ∈ start.completed source) : ¬p.span.CoversEnd source := by
  rintro ⟨hne, hholds⟩
  obtain ⟨hline, hcolumn⟩ := cursor_start_readAll source.dropLast
  rw [← List.dropLast_append_getLast hne] at h
  rw [← hline, ← hcolumn] at hholds
  exact (endsBy_of_mem_completed h).not_holds hholds

/-- A run that is open at the end of the source covers its last character. -/
theorem coversEnd_of_run {source : List Char} {first : Nat} {text : String}
    (h : (start.readAll source).mode = .run first text) {p : Piece}
    (hp : (start.readAll source).settle none = some p) (hfirst : p.span.first ≤ p.span.last) :
    p.span.CoversEnd source := by
  have hne : source ≠ [] := by
    rintro rfl
    cases h
  obtain ⟨hline, hcolumn⟩ := cursor_start_readAll source.dropLast
  obtain ⟨hpline, hplast⟩ := span_of_settle hp
  have hread : start.readAll source =
      (start.readAll source.dropLast).read (source.getLast hne) := by
    conv_lhs => rw [← List.dropLast_append_getLast hne, readAll_append]
    rfl
  -- the last character went to the run, so it is no newline
  have hnewline : source.getLast hne ≠ '\n' := by
    intro hc
    rw [hread, hc, mode_read_newline] at h
    cases h
  have hcursor := Cursor.advance_of_ne hnewline (start.readAll source.dropLast).cursor
  have hpline' : p.span.line = source.dropLast.count '\n' + 1 := by
    rw [hpline, hread]
    exact (congrArg Cursor.line hcursor).trans hline
  have hplast' : p.span.last = (Text.lastLine source.dropLast).length + 1 := by
    rw [hplast, hread]
    exact (congrArg Cursor.column hcursor).trans (congrArg (· + 1) hcolumn)
  exact ⟨hne, hpline'.symm, hplast' ▸ hfirst, Nat.le_of_eq hplast'.symm⟩

end Cutter

/-! ## What an extension leaves alone -/

namespace Piece

/-- **An extension leaves all pieces alone** but for one run, which covers the last character. -/
theorem exists_settled (source rest : String) :
    ∃ (settled : List Piece) (last : Option Piece) (more : List Piece),
      ofSource source = settled ++ last.toList ∧ ofSource (source ++ rest) = settled ++ more ∧
        (∀ p ∈ settled, p.form = .separator ∨ ¬p.span.CoversEnd source.toList) ∧
        ∀ p ∈ last, p.form = .run ∧ p.span.CoversEnd source.toList := by
  have hcompleted : ∀ p ∈ Cutter.start.completed source.toList,
      p.form = .separator ∨ ¬p.span.CoversEnd source.toList :=
    fun p hp => Or.inr (Cutter.not_coversEnd_of_mem_completed hp)
  have hsource := ofSource_eq_completed source
  have hwhole := ofSource_append source rest
  cases hmode : (Cutter.start.readAll source.toList).mode with
  | idle =>
      rw [Cutter.Quiet.settle (Or.inl hmode)] at hsource
      exact ⟨_, none, _, hsource, hwhole, hcompleted, by rintro _ ⟨⟩⟩
  | comment =>
      rw [Cutter.Quiet.settle (Or.inr hmode)] at hsource
      exact ⟨_, none, _, hsource, hwhole, hcompleted, by rintro _ ⟨⟩⟩
  | separator mark =>
      -- a separator is complete, whatever follows
      obtain ⟨p, hform, _, hsettle⟩ := Cutter.exists_settle_separator hmode
      rw [hsettle] at hsource
      rw [Cutter.pieces_of_settle (hsettle _), List.append_cons] at hwhole
      refine ⟨_, none, _, hsource.trans (List.append_nil _).symm, hwhole, ?_, by rintro _ ⟨⟩⟩
      intro p' hp'
      rcases List.mem_append.mp hp' with hp' | hp'
      · exact hcompleted p' hp'
      · rw [Option.toList_some, List.mem_singleton] at hp'
        exact Or.inl (hp' ▸ hform)
  | run first text =>
      have hend : Form.ofNext? none = some .run := rfl
      obtain ⟨p, hform, _, hsettle⟩ := Cutter.exists_settle_run hmode hend
      rw [hsettle] at hsource
      have hp : p ∈ ofSource source := by
        rw [hsource]
        exact List.mem_append_right _ List.mem_cons_self
      refine ⟨_, some p, _, hsource, hwhole, hcompleted, ?_⟩
      rintro _ ⟨⟩
      exact ⟨hform, Cutter.coversEnd_of_run hmode hsettle (shows_of_mem_ofSource hp).first_le⟩

end Piece

/-! ## From pieces to tokens and strays -/

theorem Lexed.size_append (a b : Lexed) : (a ++ b).size = a.size + b.size := by
  show (a.tokens ++ b.tokens).length + (a.strays ++ b.strays).length = _
  rw [List.length_append, List.length_append]
  unfold size
  omega

/-- A piece makes one token or one stray at most. -/
theorem Lexed.size_ofPieces_le (pieces : List Piece) : (ofPieces pieces).size ≤ pieces.length := by
  induction pieces with
  | nil => exact Nat.le_refl 0
  | cons p pieces ih =>
      unfold ofPieces size at ih ⊢
      dsimp only at ih ⊢
      rw [List.filterMap_cons, List.filterMap_cons, List.length_cons]
      cases htoken : p.token? with
      | none =>
          cases p.stray? with
          | none => exact Nat.le_succ_of_le ih
          | some s =>
              dsimp only [List.length_cons]
              omega
      | some t =>
          rw [Piece.stray?_eq_none_of_token? htoken]
          dsimp only [List.length_cons]
          omega

/-- A separator makes no stray. -/
theorem Piece.form_ne_separator_of_stray? {p : Piece} {s : Stray} (h : p.stray? = some s) :
    p.form ≠ .separator := by
  rw [(stray?_eq_some_iff.mp h).1]
  exact Form.noConfusion

/-- Whether an item is kept can be told from the piece that it comes from. -/
theorem filter_filterMap_append {α β : Type} {f : α → Option β} {keep : β → Bool}
    {front back : List α} (hfront : ∀ x ∈ front, ∀ y, f x = some y → keep y = true)
    (hback : ∀ x ∈ back, ∀ y, f x = some y → keep y = false) :
    ((front ++ back).filterMap f).filter keep = front.filterMap f := by
  have hall : ∀ y ∈ front.filterMap f, keep y = true := by
    intro y hy
    obtain ⟨x, hx, hxy⟩ := List.mem_filterMap.mp hy
    exact hfront x hx y hxy
  have hnone : ∀ y ∈ back.filterMap f, ¬keep y = true := by
    intro y hy
    obtain ⟨x, hx, hxy⟩ := List.mem_filterMap.mp hy
    rw [hback x hx y hxy]
    exact Bool.noConfusion
  rw [List.filterMap_append, List.filter_append, List.filter_eq_self.mpr hall,
    List.filter_eq_nil_iff.mpr hnone, List.append_nil]

/-- A piece that touches the end, and is no separator, is what a settled result lacks. -/
theorem Lexed.settled_ofPieces {source : String} {settled : List Piece} {last : Option Piece}
    (hsettled : ∀ p ∈ settled, p.form = .separator ∨ ¬p.span.CoversEnd source.toList)
    (hlast : ∀ p ∈ last, p.form = .run ∧ p.span.CoversEnd source.toList) :
    (ofPieces (settled ++ last.toList)).settled source = ofPieces settled := by
  unfold Lexed.settled ofPieces
  congr 1
  · refine filter_filterMap_append ?_ ?_
    · intro p hp t htoken
      rw [decide_eq_true_eq, Piece.kind_ne_separator_iff htoken, (Piece.of_token?_eq_some htoken).2]
      rintro ⟨hform, hcovers⟩
      exact (hsettled p hp).elim hform fun h => h hcovers
    · intro p hp t htoken
      obtain ⟨hform, hcovers⟩ := hlast p (Option.mem_toList.mp hp)
      rw [decide_eq_false_iff_not, not_not, Piece.kind_ne_separator_iff htoken,
        (Piece.of_token?_eq_some htoken).2]
      exact ⟨by rw [hform]; exact Form.noConfusion, hcovers⟩
  · refine filter_filterMap_append ?_ ?_
    · intro p hp s hstray
      rw [decide_eq_true_eq, (Piece.of_stray?_eq_some hstray).2]
      exact (hsettled p hp).resolve_left (Piece.form_ne_separator_of_stray? hstray)
    · intro p hp s hstray
      rw [decide_eq_false_iff_not, not_not, (Piece.of_stray?_eq_some hstray).2]
      exact (hlast p (Option.mem_toList.mp hp)).2

/-- **Extending a source leaves everything alone that does not touch its end**, and no more than one
item does. -/
theorem settled_prefix (source rest : String) :
    ((lex source).settled source).tokens <+: (lex (source ++ rest)).tokens ∧
      ((lex source).settled source).strays <+: (lex (source ++ rest)).strays ∧
      (lex source).size ≤ ((lex source).settled source).size + 1 := by
  obtain ⟨settled, last, more, hsource, hwhole, hsettled, hlast⟩ := Piece.exists_settled source rest
  have hkept : (lex source).settled source = Lexed.ofPieces settled := by
    unfold lex
    rw [hsource]
    exact Lexed.settled_ofPieces hsettled hlast
  have hlex : lex (source ++ rest) = Lexed.ofPieces settled ++ Lexed.ofPieces more := by
    unfold lex
    rw [hwhole, Lexed.ofPieces_append]
  rw [hkept, hlex]
  refine ⟨List.prefix_append _ _, List.prefix_append _ _, ?_⟩
  have hsize : (lex source).size =
      (Lexed.ofPieces settled).size + (Lexed.ofPieces last.toList).size := by
    unfold lex
    rw [hsource, Lexed.ofPieces_append]
    exact Lexed.size_append _ _
  have hone : (Lexed.ofPieces last.toList).size ≤ 1 := by
    refine (Lexed.size_ofPieces_le _).trans ?_
    cases last with
    | none => exact Nat.zero_le 1
    | some p => exact Nat.le_refl 1
  omega

end Lexing
