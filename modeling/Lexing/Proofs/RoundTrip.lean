import Lexing.Proofs.Coverage
import Lexing.Proofs.Runs
import Lexing.Proofs.Segmentation

/-!
# What is written down is read back

A layout writes texts down, with blanks and comments in the gaps between them. If it is proper, then
lexing finds exactly these texts again, in their order: a separator is a token, a run is a token if
a rule recognizes it, and otherwise it is a stray. What fills the gaps leaves no trace.

The proof goes text by text. In front of each text the cutter has nothing open, so a separator or a
run begins there; the gap closes it, or else the next text does, being a separator; and when the gap
has been read nothing is open again.

Tokens are themselves texts of this sort. So the tokens of any source can be written down with a
blank between neighbours, and what is written is lexed strictly, to the same kinds and texts.
-/

namespace Lexing

/-! ## Properness can be checked -/

instance : DecidablePred Filler.Proper
  | .blank c => inferInstanceAs (Decidable (Text.isBlank c = true))
  | .comment text => inferInstanceAs (Decidable ('\n' ∉ text))

instance : DecidablePred IsRun :=
  fun text => @instDecidableAnd (text ≠ []) _ _
    (List.decidableBAll (fun c => Role.of c = .plain) text)

namespace Layout

instance (gap : Gap) (next : Option (List Char)) : Decidable (Separates gap next) :=
  match gap with
  | [] => inferInstanceAs (Decidable (∀ text ∈ next, ¬IsRun text))
  | .blank _ :: _ => .isTrue trivial
  | .comment _ :: _ => .isFalse id

instance decidableProperEntries : DecidablePred ProperEntries
  | [] => .isTrue trivial
  | (text, gap) :: rest =>
    have := decidableProperEntries rest
    inferInstanceAs (Decidable
      ((IsSeparator text ∨ IsRun text ∧ Separates gap (rest.head?.map Prod.fst)) ∧
        (∀ filler ∈ gap, filler.Proper) ∧ ProperEntries rest))

instance : DecidablePred Proper :=
  fun l => inferInstanceAs
    (Decidable ((∀ filler ∈ l.lead, filler.Proper) ∧ ProperEntries l.entries))

end Layout

/-! ## Gaps leave nothing open -/

namespace Cutter

theorem readAll_filler {k : Cutter} (hk : k.mode = .idle) {filler : Filler} (h : filler.Proper) :
    (k.readAll filler.chars).mode = .idle ∧ k.completed filler.chars = [] := by
  cases filler with
  | blank c =>
      refine ⟨mode_read_of_blank (by rw [hk]; decide) (if_pos h), ?_⟩
      show (k.settle (some c)).toList ++ [] = []
      rw [Quiet.settle (Or.inl hk)]
      rfl
  | comment text =>
      obtain ⟨hmode, hcompleted⟩ := readAll_comment (mode_read_mark k) h
      show (k.readAll (commentMark :: (text ++ ['\n']))).mode = _ ∧
        k.completed (commentMark :: (text ++ ['\n'])) = _
      rw [readAll_cons, readAll_append, completed, completed_append, Quiet.settle (Or.inl hk),
        hcompleted]
      refine ⟨mode_read_newline _, ?_⟩
      show (settle _ (some '\n')).toList ++ [] = []
      rw [Quiet.settle (Or.inr hmode)]
      rfl

theorem readAll_gap {k : Cutter} (hk : k.mode = .idle) {gap : Gap}
    (h : ∀ filler ∈ gap, filler.Proper) :
    (k.readAll gap.chars).mode = .idle ∧ k.completed gap.chars = [] := by
  induction gap generalizing k with
  | nil => exact ⟨hk, rfl⟩
  | cons filler gap ih =>
      obtain ⟨hmode, hcompleted⟩ := readAll_filler hk (h filler List.mem_cons_self)
      obtain ⟨hmode', hcompleted'⟩ := ih hmode fun f hf => h f (List.mem_cons_of_mem filler hf)
      show (k.readAll (filler.chars ++ Gap.chars gap)).mode = _ ∧
        k.completed (filler.chars ++ Gap.chars gap) = _
      rw [readAll_append, completed_append, hcompleted, hcompleted']
      exact ⟨hmode', rfl⟩

/-! ## Texts become pieces -/

/-- Whether reading finds one piece with the given text, which is not dropped, and then reads the
rest as if nothing had been open. -/
def Finds (k : Cutter) (text rest : List Char) : Prop :=
  ∃ (p : Piece) (k' : Cutter), p.form ≠ .dropped ∧ p.text.toList = text ∧ k'.mode = .idle ∧
    k.pieces (text ++ rest) = p :: k'.pieces rest

theorem finds_separator {k : Cutter} (hk : k.mode = .idle) {text : List Char}
    (htext : IsSeparator text) (rest : List Char) : k.Finds text rest := by
  obtain ⟨c, hc, rfl⟩ := htext
  have hmode : (k.read c).mode = .separator c := by
    show k.mode.read _ c = _
    rw [hk, Mode.read, Mode.read.opening, Piece.role_of_mem_separators hc]
  obtain ⟨p, hform, htext, hsettle⟩ := exists_settle_separator hmode
  refine ⟨p, (k.read c).close, ?_, ?_, rfl, ?_⟩
  · rw [hform]
    decide
  · rw [htext]
    exact String.toList_singleton c
  · rw [List.singleton_append, Quiet.pieces_cons (Or.inl hk), pieces_of_settle (hsettle _)]

theorem finds_run {k : Cutter} (hk : k.mode = .idle) {run rest : List Char} (hrun : IsRun run)
    (hrest : Form.ofNext? rest.head? = some .run) : k.Finds run rest := by
  have hclosed := Form.closed_of_ofNext? hrest
  rw [Form.ofNext?_of_closed hclosed, Option.some_inj] at hrest
  refine ⟨_, _, ?_, String.toList_ofList, rfl, pieces_run hk hrun hclosed⟩
  rw [hrest]
  exact Form.noConfusion

end Cutter

namespace Layout

/-- What is written down for some texts and the gaps after them. -/
def entryChars (entries : List (List Char × Gap)) : List Char :=
  entries.flatMap fun (text, gap) => text ++ gap.chars

theorem entryChars_cons (text : List Char) (gap : Gap) (rest : List (List Char × Gap)) :
    entryChars ((text, gap) :: rest) = text ++ (gap.chars ++ entryChars rest) := by
  rw [entryChars, List.flatMap_cons, List.append_assoc]
  rfl

/-- What comes after a run in a proper layout closes it and does not drop it. -/
theorem ofNext?_of_separates {gap : Gap} {rest : List (List Char × Gap)}
    (hgap : ∀ filler ∈ gap, filler.Proper) (hrest : ProperEntries rest)
    (h : Separates gap (rest.head?.map Prod.fst)) :
    Form.ofNext? (gap.chars ++ entryChars rest).head? = some .run := by
  cases gap with
  | nil =>
      cases rest with
      | nil => rfl
      | cons entry rest =>
          -- no gap, so what follows is a separator
          obtain ⟨text, gap'⟩ := entry
          obtain ⟨c, hc, rfl⟩ := hrest.1.resolve_right fun hrun => h text rfl hrun.1
          show Form.ofNext? (some c) = _
          rw [Form.ofNext?, Piece.role_of_mem_separators hc]
  | cons filler gap =>
      cases filler with
      | blank c =>
          have hc : Role.of c = .blank := if_pos (hgap _ List.mem_cons_self)
          show Form.ofNext? (some c) = _
          rw [Form.ofNext?, hc]
      | comment text => exact absurd h id

end Layout

/-- **Reading finds the texts of a layout**, and drops none of them. -/
theorem Cutter.pieces_entryChars {k : Cutter} (hk : k.mode = .idle)
    {entries : List (List Char × Gap)} (h : Layout.ProperEntries entries) :
    (k.pieces (Layout.entryChars entries)).map (fun p => p.text.toList) = entries.map Prod.fst ∧
      ∀ p ∈ k.pieces (Layout.entryChars entries), p.form ≠ .dropped := by
  induction entries generalizing k with
  | nil =>
      show (k.settle none).toList.map _ = [] ∧ ∀ p ∈ (k.settle none).toList, _
      rw [Quiet.settle (Or.inl hk)]
      exact ⟨rfl, fun p hp => absurd hp List.not_mem_nil⟩
  | cons entry rest ih =>
      obtain ⟨text, gap⟩ := entry
      obtain ⟨htext, hgap, hrest⟩ := h
      have hfinds : k.Finds text (gap.chars ++ Layout.entryChars rest) := by
        rcases htext with hsep | ⟨hrun, hsep⟩
        · exact finds_separator hk hsep _
        · exact finds_run hk hrun (Layout.ofNext?_of_separates hgap hrest hsep)
      obtain ⟨p, k', hform, hp, hk', hpieces⟩ := hfinds
      obtain ⟨hmode, hcompleted⟩ := readAll_gap hk' hgap
      obtain ⟨hmap, hall⟩ := ih hmode hrest
      rw [Layout.entryChars_cons, hpieces, pieces_append, hcompleted, List.nil_append]
      refine ⟨?_, ?_⟩
      · rw [List.map_cons, hp, hmap, List.map_cons]
      · intro q hq
        rcases List.mem_cons.mp hq with rfl | hq
        · exact hform
        · exact hall q hq

theorem Piece.ofSource_layout {l : Layout} (h : l.Proper) :
    (ofSource (String.ofList l.chars)).map (fun p => p.text.toList) = l.texts ∧
      ∀ p ∈ ofSource (String.ofList l.chars), p.form ≠ .dropped := by
  obtain ⟨hmode, hcompleted⟩ := Cutter.readAll_gap (k := Cutter.start) rfl h.1
  have hchars : l.chars = l.lead.chars ++ Layout.entryChars l.entries := rfl
  rw [ofSource_eq, String.toList_ofList, hchars, Cutter.pieces_append, hcompleted, List.nil_append]
  exact Cutter.pieces_entryChars hmode h.2

/-! ## Texts become tokens and strays -/

namespace Piece

/-- If no piece of a source is dropped, the texts of its pieces tell its tokens and strays. -/
theorem lex_eq_of_texts {source : String} {texts : List (List Char)}
    (htexts : (ofSource source).map (fun p => p.text.toList) = texts)
    (hdropped : ∀ p ∈ ofSource source, p.form ≠ .dropped) :
    (lex source).tokens.map (fun t => (t.kind, t.text.toList)) =
        texts.filterMap (fun text => (Kind.ofSegment? text).map fun kind => (kind, text)) ∧
      (lex source).strays.map (fun s => s.text.toList) =
        texts.filter fun text => (Kind.ofSegment? text).isNone := by
  have hkept : ∀ p ∈ ofSource source, p ∈ kept (ofSource source) := fun p hp =>
    List.mem_filter.mpr ⟨hp, by simpa using hdropped p hp⟩
  rw [← htexts]
  constructor
  · show ((ofSource source).filterMap token?).map _ = _
    rw [List.map_filterMap, List.filterMap_map]
    refine List.filterMap_congr fun p hp => ?_
    rw [token?_eq (hkept p hp), Option.map_map]
    rfl
  · show ((ofSource source).filterMap stray?).map _ = _
    rw [List.map_filterMap, ← List.filterMap_eq_filter, List.filterMap_map]
    refine List.filterMap_congr fun p hp => ?_
    rw [stray?_eq (hkept p hp)]
    by_cases hkind : (Kind.ofSegment? p.text.toList).isNone = true
    · simp [Option.guard, hkind]
    · simp [Option.guard, hkind]

end Piece

/-- What a proper layout writes is lexed strictly, if all of its texts make tokens. -/
theorem lexStrict_layout {l : Layout} (h : l.Proper)
    (hall : ∀ text ∈ l.texts, (Kind.ofSegment? text).isSome = true) :
    lexStrict (String.ofList l.chars) = .ok (lex (String.ofList l.chars)).tokens := by
  obtain ⟨htexts, hdropped⟩ := Piece.ofSource_layout h
  have hstrays := (Piece.lex_eq_of_texts htexts hdropped).2
  rw [List.filter_eq_nil_iff.mpr, List.map_eq_nil_iff] at hstrays
  · refine lexStrict_eq_ok_iff.mpr ⟨rfl, ?_⟩
    rw [Lexed.isClean, hstrays]
    rfl
  · intro text htext
    rw [Option.isNone_iff_eq_none]
    exact Option.isSome_iff_ne_none.mp (hall text htext)

theorem ofSegment?_isSome {text : List Char}
    (h : IsSeparator text ∨ (Rule.recognize (String.ofList text)).isSome = true) :
    (Kind.ofSegment? text).isSome = true := by
  unfold Kind.ofSegment?
  by_cases hsep : IsSeparator text
  · rw [if_pos hsep]
    rfl
  · rw [if_neg hsep, Option.isSome_map]
    exact h.resolve_left hsep

/-! ## Tokens written down again -/

/-- A token's kind is that of its text. -/
theorem ofSegment?_of_mem_tokens {source : String} {t : Token} (h : t ∈ (lex source).tokens) :
    Kind.ofSegment? t.text.toList = some t.kind := by
  obtain ⟨p, hp, htoken⟩ := mem_tokens.mp h
  have hdropped : p.form ≠ .dropped := by
    intro hform
    rw [Piece.token?, hform] at htoken
    cases htoken
  rw [Piece.token?_eq (List.mem_filter.mpr ⟨hp, by simpa using hdropped⟩)] at htoken
  obtain ⟨kind, hkind, rfl⟩ := Option.map_eq_some_iff.mp htoken
  exact hkind

/-- So the tokens of a source can be told from their texts. -/
theorem filterMap_texts_tokens (source : String) :
    ((lex source).tokens.map fun t => t.text.toList).filterMap
        (fun text => (Kind.ofSegment? text).map fun kind => (kind, text)) =
      (lex source).tokens.map fun t => (t.kind, t.text.toList) := by
  rw [List.filterMap_map, ← List.filterMap_eq_map]
  refine List.filterMap_congr fun t ht => ?_
  show (Kind.ofSegment? t.text.toList).map _ = some _
  rw [ofSegment?_of_mem_tokens ht]
  rfl

theorem isSeparator_or_isRun_of_mem_tokens {source : String} {t : Token}
    (h : t ∈ (lex source).tokens) : IsSeparator t.text.toList ∨ IsRun t.text.toList := by
  obtain ⟨p, hp, htoken⟩ := mem_tokens.mp h
  rw [(Piece.of_token?_eq_some htoken).1]
  rcases Piece.form_of_mem_ofSource hp with ⟨_, hsep⟩ | ⟨_, hrun⟩
  · exact Or.inl hsep
  · exact Or.inr hrun

/-! ## Texts with a blank between neighbours -/

namespace Layout

/-- The texts, and the given blank after each but the last. -/
def spacedEntries (blank : Char) : List (List Char) → List (List Char × Gap)
  | [] => []
  | [text] => [(text, [])]
  | text :: texts => (text, [.blank blank]) :: spacedEntries blank texts

/-- The texts with the given blank between neighbours. -/
def spaced (blank : Char) (texts : List (List Char)) : Layout := ⟨[], spacedEntries blank texts⟩

theorem spacedEntries_cons_cons (blank : Char) (text next : List Char) (texts : List (List Char)) :
    spacedEntries blank (text :: next :: texts) =
      (text, [.blank blank]) :: spacedEntries blank (next :: texts) := rfl

theorem texts_spaced (blank : Char) (texts : List (List Char)) :
    (spaced blank texts).texts = texts := by
  show (spacedEntries blank texts).map Prod.fst = texts
  induction texts with
  | nil => rfl
  | cons text texts ih =>
      cases texts with
      | nil => rfl
      | cons next texts => rw [spacedEntries_cons_cons, List.map_cons, ih]

theorem chars_spaced (blank : Char) (texts : List (List Char)) :
    (spaced blank texts).chars = [blank].intercalate texts := by
  show entryChars (spacedEntries blank texts) = _
  induction texts with
  | nil => rfl
  | cons text texts ih =>
      cases texts with
      | nil =>
          show entryChars [(text, [])] = _
          rw [entryChars_cons, List.intercalate_singleton]
          exact List.append_nil text
      | cons next texts =>
          rw [spacedEntries_cons_cons, entryChars_cons, ih, List.intercalate_cons_cons,
            List.append_assoc]
          rfl

theorem proper_spaced {blank : Char} (hblank : Text.isBlank blank = true)
    {texts : List (List Char)} (h : ∀ text ∈ texts, IsSeparator text ∨ IsRun text) :
    (spaced blank texts).Proper := by
  refine ⟨fun filler hfiller => absurd hfiller List.not_mem_nil, ?_⟩
  show ProperEntries (spacedEntries blank texts)
  induction texts with
  | nil => trivial
  | cons text texts ih =>
      have htext := h text List.mem_cons_self
      have hrest := ih fun t ht => h t (List.mem_cons_of_mem text ht)
      cases texts with
      | nil =>
          refine ⟨htext.imp_right fun hrun => ⟨hrun, ?_⟩, ?_, trivial⟩
          · rintro _ ⟨⟩
          · exact fun filler hfiller => absurd hfiller List.not_mem_nil
      | cons next texts =>
          refine ⟨htext.imp_right fun hrun => ⟨hrun, trivial⟩, ?_, hrest⟩
          intro filler hfiller
          rw [List.mem_singleton.mp hfiller]
          exact hblank

end Layout

/-- The tokens of a source, written down with a blank between neighbours, are lexed strictly, to
tokens of the same kinds and texts. -/
theorem exists_lexStrict_spaced (source : String) {blank : Char}
    (hblank : Text.isBlank blank = true) :
    ∃ tokens, lexStrict ((String.singleton blank).intercalate
        ((lex source).tokens.map Token.text)) = .ok tokens ∧
      tokens.map (fun t => (t.kind, t.text)) =
        (lex source).tokens.map fun t => (t.kind, t.text) := by
  set texts := (lex source).tokens.map fun t => t.text.toList with htexts
  have hproper : (Layout.spaced blank texts).Proper := by
    refine Layout.proper_spaced hblank fun text htext => ?_
    obtain ⟨t, ht, rfl⟩ := List.mem_map.mp htext
    exact isSeparator_or_isRun_of_mem_tokens ht
  have hall : ∀ text ∈ (Layout.spaced blank texts).texts,
      (Kind.ofSegment? text).isSome = true := by
    rw [Layout.texts_spaced]
    intro text htext
    obtain ⟨t, ht, rfl⟩ := List.mem_map.mp htext
    rw [ofSegment?_of_mem_tokens ht]
    rfl
  have hwritten : (String.singleton blank).intercalate ((lex source).tokens.map Token.text) =
      String.ofList (Layout.spaced blank texts).chars := by
    rw [← String.toList_inj, String.toList_intercalate, String.toList_singleton,
      String.toList_ofList, Layout.chars_spaced, htexts, List.map_map]
    rfl
  rw [hwritten]
  refine ⟨_, lexStrict_layout hproper hall, ?_⟩
  obtain ⟨hmap, hdropped⟩ := Piece.ofSource_layout hproper
  have htokens := (Piece.lex_eq_of_texts hmap hdropped).1
  rw [Layout.texts_spaced, htexts, filterMap_texts_tokens] at htokens
  have hstrings := congrArg (List.map fun t => (t.1, String.ofList t.2)) htokens
  simpa only [List.map_map, Function.comp_def, String.ofList_toList] using hstrings

/-! ## Round trips -/

/-- **Lexing undoes writing down.** What a proper layout writes is lexed to its texts, each with its
kind, and strictly if every run among them is recognized. In particular the tokens of a source can
be written down with any blank between neighbours. -/
theorem lex_undoes_layout :
    (∀ l : Layout, l.Proper →
        (lex (String.ofList l.chars)).tokens.map (fun t => (t.kind, t.text.toList)) =
            l.texts.filterMap
              (fun text => (Kind.ofSegment? text).map fun kind => (kind, text)) ∧
          (lex (String.ofList l.chars)).strays.map (fun s => s.text.toList) =
            l.texts.filter (fun text => (Kind.ofSegment? text).isNone) ∧
          ((∀ text ∈ l.texts, IsSeparator text ∨
              (Rule.recognize (String.ofList text)).isSome = true) →
            lexStrict (String.ofList l.chars) = .ok (lex (String.ofList l.chars)).tokens)) ∧
      ∀ (source : String) (blank : Char), Text.isBlank blank = true →
        ∃ tokens, lexStrict ((String.singleton blank).intercalate
            ((lex source).tokens.map Token.text)) = .ok tokens ∧
          tokens.map (fun t => (t.kind, t.text)) =
            (lex source).tokens.map fun t => (t.kind, t.text) := by
  refine ⟨fun l h => ?_, fun source blank hblank => exists_lexStrict_spaced source hblank⟩
  obtain ⟨htexts, hdropped⟩ := Piece.ofSource_layout h
  obtain ⟨htokens, hstrays⟩ := Piece.lex_eq_of_texts htexts hdropped
  exact ⟨htokens, hstrays, fun hall =>
    lexStrict_layout h fun text htext => ofSegment?_isSome (hall text htext)⟩

/-- Separators that touch, a comment behind one of them, and a run on the next line; and a source
that loses a dropped run and a stray when its tokens are written down again. -/
theorem lex_undoes_layout_call :
    Layout.Proper ⟨[.comment ['x'], .blank '\t'], [(['f'], []), (['('], []),
        ([')'], [.comment ['"', '#']]), (['!', '='], [.blank '\r', .blank '\n'])]⟩ ∧
      (lex "#x\n\tf()#\"#\n!=\r\n").tokens.map (fun t => (t.kind, t.text.toList)) =
        [(.identifier, ['f']), (.separator, ['(']), (.separator, [')']),
          (.operator, ['!', '='])] ∧
      lexStrict "#x\n\tf()#\"#\n!=\r\n" = .ok (lex "#x\n\tf()#\"#\n!=\r\n").tokens ∧
      Text.isBlank ' ' = true ∧
      ∃ tokens, lexStrict "a ; 1.5" = .ok tokens ∧
        tokens.map (fun t => (t.kind, t.text)) =
          [(.identifier, "a"), (.separator, ";"), (.literal, "1.5")] := by
  obtain ⟨hlayout, hspaced⟩ := lex_undoes_layout
  have hproper : Layout.Proper ⟨[.comment ['x'], .blank '\t'], [(['f'], []), (['('], []),
      ([')'], [.comment ['"', '#']]), (['!', '='], [.blank '\r', .blank '\n'])]⟩ := by decide
  have hblank : Text.isBlank ' ' = true := by decide
  obtain ⟨htokens, _, hstrict⟩ := hlayout _ hproper
  obtain ⟨tokens, hagain, hsame⟩ := hspaced "a ;b# 1\n007 1.5" ' ' hblank
  have hwritten : (String.singleton ' ').intercalate
      ((lex "a ;b# 1\n007 1.5").tokens.map Token.text) = "a ; 1.5" := by decide +kernel
  rw [hwritten] at hagain
  refine ⟨hproper, htokens.trans (by decide +kernel), hstrict (by decide +kernel), hblank, tokens,
    hagain, hsame.trans (by decide +kernel)⟩

end Lexing
