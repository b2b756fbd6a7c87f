import Lexing.Lexed
import Lexing.Proofs.Lines
import Lexing.Proofs.Placement
import Mathlib.Data.List.Pairwise

/-!
# Spans are exact

A span is a promise about the source: the line is there, the columns are there, and the characters
in them are the text of the token or stray that carries the span. The promise is kept because a
piece stands in the code of its line, and the code of a line begins where the line does, so columns
mean the same in both.

The order of spans is the order of the source. Tokens and strays come from pieces, no piece makes
both, and of two pieces one ends before the other begins. So no two of them share a character,
whichever lists they are in, and comparing spans as numbers says which comes first.
-/

namespace Lexing

/-- Whether the span is a place in the source, and the given text is what stands there. -/
structure Span.Shows (s : Span) (source text : List Char) : Prop where
  /-- Lines count from one. -/
  line_pos : 1 ≤ s.line
  /-- The line is there. -/
  line_le : s.line ≤ (Text.lines source).length
  /-- Columns count from one. -/
  first_pos : 1 ≤ s.first
  /-- At least one column is covered. -/
  first_le : s.first ≤ s.last
  /-- The columns are there. -/
  last_le : ∀ line ∈ (Text.lines source)[s.line - 1]?, s.last ≤ line.length
  /-- The text is what stands in them. -/
  slice_eq : Text.slice source s = text

/-- The spans of all tokens and strays. -/
def Lexed.spans (l : Lexed) : List Span := l.tokens.map Token.span ++ l.strays.map Stray.span

/-! ## What pieces show -/

/-- A text that stands between two others is cut out of them by its place. -/
theorem Text.take_drop_middle (before text after : List Char) :
    ((before ++ text ++ after).drop before.length).take text.length = text := by
  rw [List.append_assoc, List.drop_left, List.take_left]

namespace Piece

theorem shows_of_mem_ofSource {source : String} {p : Piece} (h : p ∈ ofSource source) :
    p.span.Shows source.toList p.text.toList := by
  obtain ⟨index, line, hline, hp⟩ := mem_ofSource.mp h
  have hstands := stands_of_mem_ofLine hp
  have htext := List.length_pos_of_ne_nil hstands.text_ne_nil
  obtain ⟨before, after, hcode, hspan, _⟩ := hstands
  -- the comment, if there is one, only adds to what comes after the piece
  obtain ⟨comment, hcomment⟩ := code_prefix line
  have hwhole : line = before ++ p.text.toList ++ (after ++ comment) := by
    rw [← hcomment, hcode, List.append_assoc]
  have hindex : index < (Text.lines source.toList).length := by
    obtain ⟨hlt, _⟩ := List.getElem?_eq_some_iff.mp hline
    exact hlt
  have hlength : before.length + p.text.toList.length ≤ line.length := by
    rw [hwhole, List.length_append, List.length_append]
    omega
  rw [hspan]
  have hget : (Text.lines source.toList)[1 + index - 1]? = some line := by
    rw [Nat.add_sub_cancel_left]
    exact hline
  refine ⟨?_, ?_, ?_, ?_, ?_, ?_⟩
  · show 1 ≤ 1 + index
    omega
  · show 1 + index ≤ _
    omega
  · show 1 ≤ before.length + 1
    omega
  · show before.length + 1 ≤ before.length + p.text.toList.length
    omega
  · intro line' hline'
    rw [hget, Option.mem_some_iff] at hline'
    rw [← hline']
    exact hlength
  · show ((Option.getD _ []).drop (before.length + 1 - 1)).take
      (before.length + p.text.toList.length + 1 - (before.length + 1)) = _
    have hcount : before.length + p.text.toList.length + 1 - (before.length + 1) =
        p.text.toList.length := by omega
    rw [hget, Option.getD_some, Nat.add_sub_cancel, hcount]
    conv_lhs => rw [hwhole]
    exact Text.take_drop_middle _ _ _

/-! ## The order of pieces -/

theorem precedes_or_precedes {source : String} {p q : Piece} (hp : p ∈ ofSource source)
    (hq : q ∈ ofSource source) (hne : p ≠ q) :
    p.span.Precedes q.span ∨ q.span.Precedes p.span := by
  have hsymm : Std.Symm fun p q : Piece => p.span.Precedes q.span ∨ q.span.Precedes p.span :=
    ⟨fun _ _ => Or.symm⟩
  have hpairs := (pairwise_ofSource source).imp (fun h => Or.inl h :
    ∀ {p q : Piece}, p.span.Precedes q.span → p.span.Precedes q.span ∨ q.span.Precedes p.span)
  exact hpairs.forall hp hq hne

theorem lt_iff_precedes {source : String} {p q : Piece} (hp : p ∈ ofSource source)
    (hq : q ∈ ofSource source) : p.span < q.span ↔ p.span.Precedes q.span := by
  have hpfirst := (shows_of_mem_ofSource hp).first_le
  have hqfirst := (shows_of_mem_ofSource hq).first_le
  refine ⟨fun h => ?_, Span.Precedes.lt hpfirst⟩
  rw [Span.lt_iff] at h
  by_cases hne : p = q
  · subst hne
    omega
  · rcases precedes_or_precedes hp hq hne with hpq | hqp
    · exact hpq
    · -- what comes second is no smaller
      have hlt := Span.lt_iff.mp (hqp.lt hqfirst)
      omega

end Piece

/-! ## From pieces to tokens and strays -/

theorem Rule.kind?_of_recognize {text : String} {rule : Rule} {kind : Kind}
    (h : recognize text = some (rule, kind)) : rule.kind? text = some kind := by
  obtain ⟨rule', _, hrule⟩ := List.exists_of_findSome?_eq_some h
  obtain ⟨kind', hkind, hpair⟩ := Option.map_eq_some_iff.mp hrule
  cases hpair
  exact hkind

/-- No rule takes a run for a separator. -/
theorem Rule.ne_separator_of_recognize {text : String} {rule : Rule} {kind : Kind}
    (h : recognize text = some (rule, kind)) : kind ≠ .separator := by
  have hkind := kind?_of_recognize h
  intro hseparator
  subst hseparator
  cases rule with
  | word =>
      have hkinds := (Option.ite_none_right_eq_some.mp hkind).2
      split at hkinds
      · cases hkinds
      · cases hkinds
  | number => cases (Option.ite_none_right_eq_some.mp hkind).2
  | operator => cases (Option.ite_none_right_eq_some.mp hkind).2
  | string => cases (Option.ite_none_right_eq_some.mp hkind).2

namespace Piece

theorem of_token?_eq_some {p : Piece} {t : Token} (h : p.token? = some t) :
    t.text = p.text ∧ t.span = p.span := by
  unfold token? at h
  split at h
  · cases h
    exact ⟨rfl, rfl⟩
  · obtain ⟨_, _, rfl⟩ := Option.map_eq_some_iff.mp h
    exact ⟨rfl, rfl⟩
  · cases h

/-- A piece makes a stray if it is a run that no rule recognizes. -/
theorem stray?_eq_some_iff {p : Piece} {s : Stray} :
    p.stray? = some s ↔ p.form = .run ∧ Rule.recognize p.text = none ∧ ⟨p.text, p.span⟩ = s := by
  unfold stray?
  cases p.form with
  | separator => simp
  | dropped => simp
  | run => simp

theorem of_stray?_eq_some {p : Piece} {s : Stray} (h : p.stray? = some s) :
    s.text = p.text ∧ s.span = p.span := by
  obtain ⟨_, _, rfl⟩ := stray?_eq_some_iff.mp h
  exact ⟨rfl, rfl⟩

/-- No piece makes both a token and a stray. -/
theorem stray?_eq_none_of_token? {p : Piece} {t : Token} (h : p.token? = some t) :
    p.stray? = none := by
  unfold token? at h
  unfold stray?
  split at h
  · rename_i hform
    rw [hform]
  · rename_i hform
    obtain ⟨_, hrecognize, _⟩ := Option.map_eq_some_iff.mp h
    rw [hform, hrecognize]
    rfl
  · cases h

theorem kind_ne_separator_iff {p : Piece} {t : Token} (h : p.token? = some t) :
    t.kind ≠ .separator ↔ p.form ≠ .separator := by
  refine not_congr ?_
  unfold token? at h
  split at h
  · rename_i hform
    cases h
    exact ⟨fun _ => hform, fun _ => rfl⟩
  · rename_i hform
    obtain ⟨⟨rule, kind⟩, hrecognize, rfl⟩ := Option.map_eq_some_iff.mp h
    rw [hform]
    exact ⟨fun hkind => absurd hkind (Rule.ne_separator_of_recognize hrecognize),
      fun hrun => Form.noConfusion hrun⟩
  · cases h

section Items

variable {α : Type} {make? : Piece → Option α} {text : α → String} {span : α → Span}

/-- Whatever takes over the text and the span of its piece shows that text. -/
theorem shows_of_mem_filterMap
    (hmake : ∀ {p a}, make? p = some a → text a = p.text ∧ span a = p.span) {source : String}
    {a : α} (h : a ∈ (ofSource source).filterMap make?) :
    (span a).Shows source.toList (text a).toList := by
  obtain ⟨p, hp, ha⟩ := List.mem_filterMap.mp h
  rw [(hmake ha).1, (hmake ha).2]
  exact shows_of_mem_ofSource hp

/-- And what is made of the pieces keeps their order. -/
theorem pairwise_filterMap
    (hmake : ∀ {p a}, make? p = some a → text a = p.text ∧ span a = p.span) (source : String) :
    ((ofSource source).filterMap make?).Pairwise fun a b => (span a).Precedes (span b) := by
  refine List.pairwise_filterMap.mpr ((pairwise_ofSource source).imp ?_)
  intro p q hpq a ha b hb
  rw [(hmake ha).2, (hmake hb).2]
  exact hpq

end Items

end Piece

theorem mem_tokens {source : String} {t : Token} :
    t ∈ (lex source).tokens ↔ ∃ p ∈ Piece.ofSource source, p.token? = some t :=
  List.mem_filterMap

theorem mem_strays {source : String} {s : Stray} :
    s ∈ (lex source).strays ↔ ∃ p ∈ Piece.ofSource source, p.stray? = some s :=
  List.mem_filterMap

theorem exists_piece_of_mem_spans {source : String} {s : Span} (h : s ∈ (lex source).spans) :
    ∃ p ∈ Piece.ofSource source, p.span = s := by
  rcases List.mem_append.mp h with h | h
  · obtain ⟨t, ht, rfl⟩ := List.mem_map.mp h
    obtain ⟨p, hp, htoken⟩ := mem_tokens.mp ht
    exact ⟨p, hp, (Piece.of_token?_eq_some htoken).2.symm⟩
  · obtain ⟨u, hu, rfl⟩ := List.mem_map.mp h
    obtain ⟨p, hp, hstray⟩ := mem_strays.mp hu
    exact ⟨p, hp, (Piece.of_stray?_eq_some hstray).2.symm⟩

theorem token_shows {source : String} {t : Token} (h : t ∈ (lex source).tokens) :
    t.span.Shows source.toList t.text.toList :=
  Piece.shows_of_mem_filterMap Piece.of_token?_eq_some h

theorem stray_shows {source : String} {s : Stray} (h : s ∈ (lex source).strays) :
    s.span.Shows source.toList s.text.toList :=
  Piece.shows_of_mem_filterMap Piece.of_stray?_eq_some h

theorem pairwise_tokens (source : String) :
    (lex source).tokens.Pairwise fun a b => a.span.Precedes b.span :=
  Piece.pairwise_filterMap Piece.of_token?_eq_some source

theorem pairwise_strays (source : String) :
    (lex source).strays.Pairwise fun a b => a.span.Precedes b.span :=
  Piece.pairwise_filterMap Piece.of_stray?_eq_some source

theorem token_disjoint_stray {source : String} {t : Token} {s : Stray}
    (ht : t ∈ (lex source).tokens) (hs : s ∈ (lex source).strays) : t.span.Disjoint s.span := by
  obtain ⟨p, hp, htoken⟩ := mem_tokens.mp ht
  obtain ⟨q, hq, hstray⟩ := mem_strays.mp hs
  -- they come from different pieces, of which one precedes the other
  have hne : p ≠ q := by
    rintro rfl
    rw [Piece.stray?_eq_none_of_token? htoken] at hstray
    cases hstray
  rw [(Piece.of_token?_eq_some htoken).2, (Piece.of_stray?_eq_some hstray).2]
  rcases Piece.precedes_or_precedes hp hq hne with h | h
  · exact h.disjoint
  · exact h.disjoint.symm

/-- No two of the tokens and strays of a source share a character. -/
theorem pairwise_disjoint_spans (source : String) :
    (lex source).spans.Pairwise Span.Disjoint := by
  refine List.pairwise_append.mpr ⟨?_, ?_, ?_⟩
  · exact List.pairwise_map.mpr ((pairwise_tokens source).imp Span.Precedes.disjoint)
  · exact List.pairwise_map.mpr ((pairwise_strays source).imp Span.Precedes.disjoint)
  · intro a ha b hb
    obtain ⟨t, ht, rfl⟩ := List.mem_map.mp ha
    obtain ⟨s, hs, rfl⟩ := List.mem_map.mp hb
    exact token_disjoint_stray ht hs

/-- **Spans are exact**, and their order is the order of the source. -/
theorem spans_exact (source : String) :
    (∀ t ∈ (lex source).tokens, t.span.Shows source.toList t.text.toList) ∧
      (∀ s ∈ (lex source).strays, s.span.Shows source.toList s.text.toList) ∧
      (lex source).tokens.Pairwise (fun a b => a.span < b.span) ∧
      (lex source).strays.Pairwise (fun a b => a.span < b.span) ∧
      (lex source).spans.Pairwise Span.Disjoint ∧
      ∀ a ∈ (lex source).spans, ∀ b ∈ (lex source).spans, a < b ↔ a.Precedes b := by
  refine ⟨fun t => token_shows, fun s => stray_shows, ?_, ?_, pairwise_disjoint_spans source, ?_⟩
  · refine (pairwise_tokens source).imp_of_mem ?_
    intro a b ha _ hab
    exact hab.lt (token_shows ha).first_le
  · refine (pairwise_strays source).imp_of_mem ?_
    intro a b ha _ hab
    exact hab.lt (stray_shows ha).first_le
  · intro a ha b hb
    obtain ⟨p, hp, rfl⟩ := exists_piece_of_mem_spans ha
    obtain ⟨q, hq, rfl⟩ := exists_piece_of_mem_spans hb
    exact Piece.lt_iff_precedes hp hq

end Lexing
