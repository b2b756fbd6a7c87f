import Lexing.Proofs.Extension
import Lexing.Proofs.Runs

/-!
# Where strict lexing stops

Strict lexing reads the whole source before it refuses it, and reports the first stray of the list
that it has then. This is the stray that comes first in the source, and neither what stands before it
nor what comes after it has a share in the report. What stands before the stray is a source that is
not refused, and its tokens are those of the whole source up to there. What comes after may be
anything, as long as it does not go on with the stray or drop it.

A stray is a whole run, so the source can be cut in front of it. The pieces of the front are then
the pieces of a source of its own, and the stray is the piece that comes next, whatever the rest is.
-/

namespace Lexing

/-- Whether the text is at its end or goes on with a blank or a separator. -/
def Text.AtBoundary (chars : List Char) : Prop :=
  ∀ c ∈ chars.head?, isBlank c = true ∨ c ∈ separators

namespace Text

theorem AtBoundary.closed {chars : List Char} (h : AtBoundary chars) :
    ∀ c ∈ chars.head?, Role.of c ≠ .plain := by
  intro c hc hplain
  rcases Piece.role_of_boundary (h c hc) with hrole | hrole
  · rw [hrole] at hplain
    cases hplain
  · rw [hrole] at hplain
    cases hplain

theorem AtBoundary.formBefore_eq {chars : List Char} (h : AtBoundary chars) :
    Piece.formBefore chars = .run := by
  cases chars with
  | nil => rfl
  | cons c chars =>
      rw [Piece.formBefore, List.head?_cons, Form.ofNext?]
      rcases Piece.role_of_boundary (h c rfl) with hrole | hrole
      · rw [hrole]
        rfl
      · rw [hrole]
        rfl

end Text

/-! ## Cutting in front of a stray -/

theorem lexStrict_eq_error_iff {source : String} {stray : Stray} :
    lexStrict source = .error (.unrecognized stray) ↔
      ∃ more, (lex source).strays = stray :: more := by
  unfold lexStrict Lexed.strict
  cases (lex source).strays with
  | nil => simp
  | cons first more => simp

/-- The run that makes a stray, with what stands before and after it. -/
structure Stray.StandsIn (stray : Stray) (source before after : List Char) : Prop where
  wholeRun : WholeRun source before stray.text.toList after
  span_eq : stray.span = Span.behind before stray.text.toList
  /-- No comment drops it. -/
  kept : Piece.formBefore after = .run
  /-- No rule recognizes it. -/
  unrecognized : Rule.recognize stray.text = none

namespace Stray

variable {stray : Stray} {source before after : List Char}

/-- Every stray of a source stands in it. -/
theorem exists_standsIn {source : String} {stray : Stray} (h : stray ∈ (lex source).strays) :
    ∃ before after, stray.StandsIn source.toList before after := by
  obtain ⟨p, hp, hstray⟩ := mem_strays.mp h
  obtain ⟨hform, hnone, rfl⟩ := Piece.stray?_eq_some_iff.mp hstray
  have hne : p.form ≠ .separator := by
    rw [hform]
    exact Form.noConfusion
  obtain ⟨before, run, after, hrun, rfl⟩ := Piece.exists_wholeRun hp hne
  have hchars : (String.ofList run).toList = run := String.toList_ofList
  refine ⟨before, after, ?_, ?_, hform, hnone⟩
  · show WholeRun source.toList before (String.ofList run).toList after
    rw [hchars]
    exact hrun
  · show Span.behind before run = Span.behind before (String.ofList run).toList
    rw [hchars]

/-- The piece of a stray. -/
def piece (stray : Stray) : Piece := ⟨.run, stray.text, stray.span⟩

theorem StandsIn.piece_eq (h : stray.StandsIn source before after) :
    Piece.ofRun before stray.text.toList after = stray.piece := by
  rw [Piece.ofRun, h.kept, String.ofList_toList, ← h.span_eq]
  rfl

theorem StandsIn.stray? (h : stray.StandsIn source before after) :
    stray.piece.stray? = some stray :=
  Piece.stray?_eq_some_iff.mpr ⟨rfl, h.unrecognized, rfl⟩

theorem StandsIn.token? (h : stray.StandsIn source before after) : stray.piece.token? = none := by
  show (Rule.recognize stray.text).map _ = none
  rw [h.unrecognized]
  rfl

/-- **A source can be cut in front of a stray**: the pieces before it are those of the front. -/
theorem StandsIn.exists_pieces (h : stray.StandsIn source before after) :
    ∃ more, Piece.ofSource (String.ofList source) =
      Piece.ofSource (String.ofList before) ++ stray.piece :: more := by
  obtain ⟨more, hpieces⟩ := Piece.ofSource_wholeRun h.wholeRun
  rw [h.piece_eq] at hpieces
  exact ⟨more, hpieces⟩

theorem StandsIn.exists_strays (h : stray.StandsIn source before after) :
    ∃ more, (lex (String.ofList source)).strays =
      (lex (String.ofList before)).strays ++ stray :: more := by
  obtain ⟨more, hpieces⟩ := h.exists_pieces
  refine ⟨more.filterMap Piece.stray?, ?_⟩
  show (Piece.ofSource (String.ofList source)).filterMap Piece.stray? = _
  rw [hpieces, List.filterMap_append, List.filterMap_cons_some h.stray?]
  rfl

/-- The tokens of the front are those of the source whose spans are less than that of the stray. -/
theorem StandsIn.tokens_eq (h : stray.StandsIn source before after) :
    (lex (String.ofList before)).tokens =
      (lex (String.ofList source)).tokens.filter fun t => t.span < stray.span := by
  obtain ⟨more, hpieces⟩ := h.exists_pieces
  have hpairs := Piece.pairwise_ofSource (String.ofList source)
  have hshows : ∀ p ∈ Piece.ofSource (String.ofList source), p.span.first ≤ p.span.last :=
    fun p hp => (Piece.shows_of_mem_ofSource hp).first_le
  rw [hpieces] at hpairs hshows
  obtain ⟨_, hbehind, hfront⟩ := List.pairwise_append.mp hpairs
  have hmore := (List.pairwise_cons.mp hbehind).1
  show _ = ((Piece.ofSource (String.ofList source)).filterMap Piece.token?).filter _
  rw [hpieces, filter_filterMap_append]
  · rfl
  · -- a token of the front comes before the stray
    intro p hp t htoken
    rw [decide_eq_true_eq, (Piece.of_token?_eq_some htoken).2]
    have hprecedes := hfront p hp stray.piece List.mem_cons_self
    exact hprecedes.lt (hshows p (List.mem_append_left _ hp))
  · -- any other token comes after it
    intro p hp t htoken
    rw [decide_eq_false_iff_not, (Piece.of_token?_eq_some htoken).2]
    rcases List.mem_cons.mp hp with hp | hp
    · rw [hp, h.token?] at htoken
      cases htoken
    · have hlt := (hmore p hp).lt (hshows stray.piece (List.mem_append_right _ List.mem_cons_self))
      rw [Span.lt_iff] at hlt ⊢
      show ¬(p.span.line < stray.piece.span.line ∨ p.span.line = stray.piece.span.line ∧
        (p.span.first < stray.piece.span.first ∨ p.span.first = stray.piece.span.first ∧
          p.span.last < stray.piece.span.last))
      omega

/-- What comes after a stray may be replaced by anything that does not touch it. -/
theorem StandsIn.of_boundary (h : stray.StandsIn source before after) {rest : List Char}
    (hrest : Text.AtBoundary rest) :
    stray.StandsIn (before ++ stray.text.toList ++ rest) before rest where
  wholeRun := ⟨rfl, h.wholeRun.isRun, h.wholeRun.fresh, hrest.closed⟩
  span_eq := h.span_eq
  kept := hrest.formBefore_eq
  unrecognized := h.unrecognized

end Stray

/-! ## The first stray -/

/-- In front of the first stray there is none. -/
theorem strays_front_eq_nil {source : String} {stray : Stray} {front back more : List Stray}
    (h : (lex source).strays = stray :: more) (hcut : (lex source).strays = front ++ stray :: back) :
    front = [] := by
  cases front with
  | nil => rfl
  | cons other front =>
      exfalso
      have hpairs := pairwise_strays source
      have hmem : stray ∈ (lex source).strays := by
        rw [h]
        exact List.mem_cons_self
      have hother : other = stray := by
        rw [h, List.cons_append, List.cons.injEq] at hcut
        exact hcut.1.symm
      rw [hcut, hother] at hpairs
      -- it would come before itself
      have hself := (List.pairwise_cons.mp hpairs).1 stray
        (List.mem_append_right front List.mem_cons_self)
      have hle := (stray_shows hmem).first_le
      rcases hself with hself | ⟨_, hself⟩
      · omega
      · omega

/-- **Strict lexing reports the stray that comes first, and looks at nothing else.** What stands
before the stray is lexed strictly, to the tokens of the source up to there; and the stray is
reported whatever comes after it, as long as nothing touches it. -/
theorem refusal_local {source : String} {stray : Stray}
    (h : lexStrict source = .error (.unrecognized stray)) :
    ∃ before after : String,
      source = before ++ stray.text ++ after ∧
      stray.span = Span.behind before.toList stray.text.toList ∧
      stray ∈ (lex source).strays ∧
      (∀ other ∈ (lex source).strays, other ≠ stray → stray.span < other.span) ∧
      lexStrict before = .ok ((lex source).tokens.filter fun t => t.span < stray.span) ∧
      ∀ rest : String, Text.AtBoundary rest.toList →
        lexStrict (before ++ stray.text ++ rest) = .error (.unrecognized stray) := by
  obtain ⟨more, hstrays⟩ := lexStrict_eq_error_iff.mp h
  have hmem : stray ∈ (lex source).strays := by
    rw [hstrays]
    exact List.mem_cons_self
  obtain ⟨before, after, hstands⟩ := Stray.exists_standsIn hmem
  have htokens := hstands.tokens_eq
  obtain ⟨back, hcut⟩ := hstands.exists_strays
  rw [String.ofList_toList] at htokens hcut
  have hfront := strays_front_eq_nil hstrays hcut
  refine ⟨String.ofList before, String.ofList after, ?_, ?_, hmem, ?_, ?_, ?_⟩
  · rw [← String.toList_inj]
    simpa using hstands.wholeRun.source_eq
  · rw [String.toList_ofList]
    exact hstands.span_eq
  · intro other hother hne
    have hpairs := pairwise_strays source
    rw [hstrays] at hpairs hother
    have hrest := (List.mem_cons.mp hother).resolve_left hne
    exact ((List.pairwise_cons.mp hpairs).1 other hrest).lt (stray_shows hmem).first_le
  · rw [← htokens, lexStrict, Lexed.strict, hfront]
  · intro rest hrest
    obtain ⟨back', hcut'⟩ := (hstands.of_boundary hrest).exists_strays
    have hsource : String.ofList (before ++ stray.text.toList ++ rest.toList) =
        String.ofList before ++ stray.text ++ rest := by
      rw [← String.toList_inj]
      simp
    rw [hsource, hfront] at hcut'
    exact lexStrict_eq_error_iff.mpr ⟨back', hcut'⟩

/-- The second stray is not reported, and quotes and marks behind the first change nothing. -/
theorem refusal_local_call :
    lexStrict "f(1\n 007;$ b" = .error (.unrecognized ⟨"007", ⟨2, 2, 4⟩⟩) ∧
      ∃ before after : String, "f(1\n 007;$ b" = before ++ "007" ++ after ∧
        lexStrict before = .ok [⟨.identifier, "f", ⟨1, 1, 1⟩⟩, ⟨.separator, "(", ⟨1, 2, 2⟩⟩,
          ⟨.literal, "1", ⟨1, 3, 3⟩⟩] ∧
        Text.AtBoundary "\t\"#$".toList ∧
        lexStrict (before ++ "007" ++ "\t\"#$") = .error (.unrecognized ⟨"007", ⟨2, 2, 4⟩⟩) := by
  have hlex : lex "f(1\n 007;$ b" =
      ⟨[⟨.identifier, "f", ⟨1, 1, 1⟩⟩, ⟨.separator, "(", ⟨1, 2, 2⟩⟩, ⟨.literal, "1", ⟨1, 3, 3⟩⟩,
        ⟨.separator, ";", ⟨2, 5, 5⟩⟩, ⟨.identifier, "b", ⟨2, 8, 8⟩⟩],
        [⟨"007", ⟨2, 2, 4⟩⟩, ⟨"$", ⟨2, 6, 6⟩⟩]⟩ := by decide +kernel
  have hrefused : lexStrict "f(1\n 007;$ b" = .error (.unrecognized ⟨"007", ⟨2, 2, 4⟩⟩) := by
    rw [lexStrict, hlex]
    rfl
  have hboundary : Text.AtBoundary "\t\"#$".toList := by
    intro c hc
    cases hc
    exact Or.inl (by decide)
  obtain ⟨before, after, hsource, _, _, _, hbefore, hrest⟩ := refusal_local hrefused
  refine ⟨hrefused, before, after, hsource, ?_, hboundary, hrest _ hboundary⟩
  rw [hbefore, hlex]
  decide +kernel

end Lexing
