import Lexing.Lexed
import Lexing.Proofs.Lines
import Lexing.Proofs.Placement
import Mathlib.Data.List.SplitBy

/-!
# What a source is cut into

This module says which texts the tokens and strays of a source have, without a word about reading
it from left to right. Every line is taken by itself. Its comment is removed, and what is left is
split wherever two neighbours do not both belong to a run; the parts that are not blank are the
separators and the runs. If a comment was removed and a run touched it, that run is gone too.

The rest is a matter of kinds: a separator is a token, a run is a token if a rule recognizes it, and
all other runs are strays. Lexing gives exactly these, in this order.
-/

namespace Lexing

namespace Text

/-- Whether the character belongs to a run, if no comment takes it. -/
def inRun (c : Char) : Bool := !isBlank c && !decide (c ∈ separators)

/-- The separators and the longest runs in some code. -/
def cuts (code : List Char) : List (List Char) :=
  (code.splitBy fun a b => inRun a && inRun b).filter fun cut => !cut.all isBlank

/-- The segments of a line: the cuts of its code, but for a last run that touches a comment. -/
def segmentsOfLine (line : List Char) : List (List Char) :=
  let code := line.takeWhile (· != commentMark)
  if commentMark ∈ line ∧ code.getLast?.any inRun then (cuts code).dropLast else cuts code

/-- The segments of a source, line by line. -/
def segments (source : List Char) : List (List Char) :=
  (source.splitOn '\n').flatMap segmentsOfLine

example : segments "a(b# c\n!= d #e".toList = [['a'], ['('], ['!', '='], ['d']] := by decide

end Text

instance : DecidablePred IsSeparator :=
  fun text => List.decidableBEx (fun c => text = [c]) separators

/-- The kind of the token that a segment makes, if it makes one. -/
def Kind.ofSegment? (segment : List Char) : Option Kind :=
  if IsSeparator segment then some .separator
  else (Rule.recognize (String.ofList segment)).map Prod.snd

/-! ## Cutting follows the walk over code -/

namespace Text

theorem inRun_eq_isPlain {c : Char} (h : c ≠ commentMark) : inRun c = Piece.isPlain c := by
  unfold inRun Piece.isPlain Role.of
  by_cases hblank : isBlank c = true
  · simp [hblank]
  · by_cases hsep : c ∈ separators
    · simp [hblank, hsep]
    · simp [hblank, hsep, h]

theorem cuts_nil : cuts [] = [] := by
  simp [cuts]

/-- A character that belongs to no run is a part by itself. -/
theorem splitBy_cons_of_not_inRun {c : Char} (h : inRun c = false) (rest : List Char) :
    (c :: rest).splitBy (fun a b => inRun a && inRun b) =
      [c] :: rest.splitBy fun a b => inRun a && inRun b := by
  have hsplit := List.splitBy_append (r := fun a b => inRun a && inRun b) (l := [c]) (m := rest)
    (by simp [h])
  exact hsplit

theorem cuts_blank {c : Char} (h : Role.of c = .blank) (rest : List Char) :
    cuts (c :: rest) = cuts rest := by
  have hblank := isBlank_of_role h
  rw [cuts, splitBy_cons_of_not_inRun (by simp [inRun, hblank])]
  simp [cuts, hblank]

theorem cuts_separator {c : Char} (h : Role.of c = .separator) (rest : List Char) :
    cuts (c :: rest) = [c] :: cuts rest := by
  have hblank : isBlank c = false := not_isBlank_of_role (by rw [h]; decide)
  have hsep := Piece.mem_separators_of_role h
  rw [cuts, splitBy_cons_of_not_inRun (by simp [inRun, hsep])]
  simp [cuts, hblank]

theorem cuts_run {run after : List Char} (hrun : IsRun run)
    (hafter : ∀ c ∈ after.head?, inRun c = false) : cuts (run ++ after) = run :: cuts after := by
  obtain ⟨hne, hplain⟩ := hrun
  have hin : ∀ c ∈ run, inRun c = true := by
    intro c hc
    have hmark : c ≠ commentMark := Piece.ne_commentMark_of_role (by rw [hplain c hc]; decide)
    rw [inRun_eq_isPlain hmark]
    exact Piece.isPlain_iff.mpr (hplain c hc)
  have hwhole : run.splitBy (fun a b => inRun a && inRun b) = [run] := by
    refine List.splitBy_of_isChain hne (List.Pairwise.isChain ?_)
    refine List.pairwise_of_forall_mem_list ?_
    intro a ha b hb
    simp [hin a ha, hin b hb]
  -- a run is not blank, so it is kept among the cuts
  have hkept : run.all isBlank = false := by
    obtain ⟨c, run', rfl⟩ := List.exists_cons_of_ne_nil hne
    have hblank : isBlank c = false :=
      not_isBlank_of_role (by rw [hplain c List.mem_cons_self]; decide)
    simp [hblank]
  rw [cuts, List.splitBy_append fun a _ b hb => by simp [hafter b hb], hwhole]
  simp [cuts, hkept]

end Text

namespace Piece

/-- The texts of the pieces of some code are its cuts. -/
theorem map_text_ofCode {code : List Char} (h : commentMark ∉ code) (number : Nat) (last : Form)
    (column : Nat) :
    (ofCode number last column code).map (fun p => p.text.toList) = Text.cuts code := by
  induction code using walk generalizing column with
  | nil => rw [ofCode_nil, Text.cuts_nil, List.map_nil]
  | gap c rest hc ih =>
      rw [List.mem_cons, not_or] at h
      rcases hc with hc | hc
      · rw [ofCode_gap (Or.inl hc), Text.cuts_blank hc, ih h.2]
      · exact absurd (eq_commentMark_of_role hc) (fun e => h.1 e.symm)
  | separator c rest hc ih =>
      rw [List.mem_cons, not_or] at h
      rw [ofCode_separator hc, Text.cuts_separator hc, List.map_cons, ih h.2,
        String.toList_singleton]
  | run run after hrun hafter ih =>
      rw [List.mem_append, not_or] at h
      have hstop : ∀ c ∈ after.head?, Text.inRun c = false := by
        intro c hc
        have hmark : c ≠ commentMark := fun e => h.2 (e ▸ List.mem_of_mem_head? hc)
        rw [Text.inRun_eq_isPlain hmark]
        exact hafter c hc
      rw [ofCode_run hrun hafter, Text.cuts_run hrun hstop, List.map_cons, ih h.2,
        String.toList_ofList]

/-! ## The run that ends with the code -/

/-- If the code does not end in a run, nothing depends on what such a run turns out to be. -/
theorem ofCode_of_closed {front : List Char} {c : Char} (hc : isPlain c = false) (number : Nat)
    (last : Form) (column : Nat) :
    ofCode number last column (front ++ [c]) = ofCode number .run column (front ++ [c]) := by
  have hsingle : ∀ column, ofCode number last column [c] = ofCode number .run column [c] := by
    intro column
    cases hrole : Role.of c with
    | blank => rw [ofCode_gap (Or.inl hrole), ofCode_gap (Or.inl hrole), ofCode_nil, ofCode_nil]
    | mark => rw [ofCode_gap (Or.inr hrole), ofCode_gap (Or.inr hrole), ofCode_nil, ofCode_nil]
    | separator => rw [ofCode_separator hrole, ofCode_separator hrole, ofCode_nil, ofCode_nil]
    | plain => exact absurd hrole (role_of_not_plain hc)
  have hseam : ∀ d ∈ [c].head?, isPlain d = false := by
    rintro d ⟨⟩
    exact hc
  rw [ofCode_append (List.cons_ne_nil c []) (Or.inr hseam),
    ofCode_append (List.cons_ne_nil c []) (Or.inr hseam), hsingle]

/-- Code that ends in a plain character ends in a run, which begins behind the last character that
is not plain. -/
theorem exists_run_at_end (front : List Char) {c : Char} (hc : isPlain c = true) :
    ∃ before run, front ++ [c] = before ++ run ∧ IsRun run ∧
      ∀ d ∈ before.getLast?, isPlain d = false := by
  refine ⟨front.rdropWhile isPlain, front.rtakeWhile isPlain ++ [c], ?_, ⟨by simp, ?_⟩, ?_⟩
  · rw [← List.append_assoc, List.rdropWhile_append_rtakeWhile]
  · intro d hd
    rcases List.mem_append.mp hd with hd | hd
    · exact isPlain_iff.mp (List.mem_rtakeWhile_imp hd)
    · rw [List.mem_singleton.mp hd]
      exact isPlain_iff.mp hc
  · intro d hd
    obtain ⟨hne, rfl⟩ := List.mem_getLast?_eq_getLast hd
    simpa using List.rdropWhile_last_not isPlain front hne

/-- If the code ends in a run, that run is the last piece, and only its form is open. -/
theorem exists_ofCode_of_open (front : List Char) {c : Char} (hc : isPlain c = true)
    (number column : Nat) :
    ∃ init text span, ∀ last,
      ofCode number last column (front ++ [c]) = init ++ [⟨last, text, span⟩] := by
  obtain ⟨before, run, hsplit, hrun, hseam⟩ := exists_run_at_end front hc
  refine ⟨ofCode number .run column before, String.ofList run,
    ⟨number, column + before.length + 1, column + before.length + run.length⟩, fun last => ?_⟩
  rw [hsplit, ofCode_append hrun.1 (Or.inl hseam), ofCode_of_run hrun]

/-! ## The segments of a line -/

/-- Only a run that touches a comment is dropped. -/
theorem form_ne_dropped {number : Nat} {code : List Char} {p : Piece}
    (h : p ∈ ofCode number .run 0 code) : p.form ≠ .dropped := by
  have hstands : Stands number .run ([] ++ code) p := stands_of_mem_ofCode h
  obtain ⟨_, after, _, _, ⟨hform, _⟩ | ⟨hform, _⟩⟩ := hstands
  · rw [hform]
    decide
  · rw [hform, ite_self]
    decide

/-- The pieces that are not dropped. -/
def kept (pieces : List Piece) : List Piece := pieces.filter fun p => p.form ≠ .dropped

theorem kept_ofCode (number : Nat) (code : List Char) :
    kept (ofCode number .run 0 code) = ofCode number .run 0 code := by
  refine List.filter_eq_self.mpr fun p hp => ?_
  simpa using form_ne_dropped hp

theorem map_text_kept_ofLine (number : Nat) (line : List Char) :
    (kept (ofLine number 0 line)).map (fun p => p.text.toList) = Text.segmentsOfLine line := by
  have hcode := commentMark_not_mem_code line
  unfold ofLine Text.segmentsOfLine lastForm
  by_cases hmark : commentMark ∈ line
  · rw [if_pos hmark]
    show _ = if commentMark ∈ line ∧ (code line).getLast?.any Text.inRun = true then
      (Text.cuts (code line)).dropLast else Text.cuts (code line)
    rcases List.eq_nil_or_concat' (code line) with hnil | ⟨front, c, hfront⟩
    · rw [hnil, ofCode_nil, Text.cuts_nil]
      simp [kept]
    have hne : c ≠ commentMark := fun e => hcode (by rw [hfront, e]; simp)
    have hlast : (code line).getLast?.any Text.inRun = isPlain c := by
      rw [hfront, List.getLast?_concat, Option.any_some, Text.inRun_eq_isPlain hne]
    rw [hlast]
    by_cases hc : isPlain c = true
    · -- the last run touches the comment
      obtain ⟨init, text, span, hinit⟩ := exists_ofCode_of_open front hc number 0
      rw [if_pos ⟨hmark, hc⟩, ← map_text_ofCode hcode number .run 0, hfront, hinit, hinit,
        List.map_append, List.map_singleton, List.dropLast_concat]
      have hkept : kept init = init := by
        have hall := kept_ofCode number (front ++ [c])
        rw [hinit] at hall
        simpa [kept] using hall
      rw [kept, List.filter_append, ← kept, hkept]
      simp
    · -- what touches the comment is no run
      rw [if_neg (fun h => hc h.2), hfront, ofCode_of_closed (by simpa using hc), kept_ofCode,
        ← hfront, map_text_ofCode hcode]
  · -- without a comment nothing is dropped
    rw [if_neg hmark, if_neg (fun h => hmark h.1), kept_ofCode, map_text_ofCode hcode]
    rfl

theorem map_text_kept_ofLines (number : Nat) (lines : List (List Char)) :
    (kept (ofLines number lines)).map (fun p => p.text.toList) =
      lines.flatMap Text.segmentsOfLine := by
  induction lines generalizing number with
  | nil => rfl
  | cons line lines ih =>
      rw [ofLines_cons, kept, List.filter_append, List.map_append, ← kept, ← kept,
        map_text_kept_ofLine, ih, List.flatMap_cons]

/-- The texts of the pieces that are not dropped are the segments of the source. -/
theorem map_text_kept_ofSource (source : String) :
    (kept (ofSource source)).map (fun p => p.text.toList) = Text.segments source.toList := by
  rw [ofSource_eq_byLine, byLine, map_text_kept_ofLines, Text.lines_eq_splitOn, Text.segments]

/-! ## The kinds of segments -/

theorem not_isSeparator_of_isRun {text : List Char} (h : IsRun text) : ¬IsSeparator text := by
  rintro ⟨c, hc, rfl⟩
  have hplain := h.2 c List.mem_cons_self
  rw [role_of_mem_separators hc] at hplain
  cases hplain

theorem token?_eq {source : String} {p : Piece} (h : p ∈ kept (ofSource source)) :
    p.token? = (Kind.ofSegment? p.text.toList).map fun kind => ⟨kind, p.text, p.span⟩ := by
  obtain ⟨hmem, hkept⟩ := List.mem_filter.mp h
  have hne : p.form ≠ .dropped := by simpa using hkept
  unfold token? Kind.ofSegment?
  rcases form_of_mem_ofSource hmem with ⟨hform, hsep⟩ | ⟨hform | hform, hrun⟩
  · rw [hform, if_pos hsep]
    rfl
  · rw [hform, if_neg (not_isSeparator_of_isRun hrun), String.ofList_toList, Option.map_map]
    rfl
  · exact absurd hform hne

theorem stray?_eq {source : String} {p : Piece} (h : p ∈ kept (ofSource source)) :
    p.stray? =
      if (Kind.ofSegment? p.text.toList).isNone then some ⟨p.text, p.span⟩ else none := by
  obtain ⟨hmem, hkept⟩ := List.mem_filter.mp h
  have hne : p.form ≠ .dropped := by simpa using hkept
  unfold stray? Kind.ofSegment?
  rcases form_of_mem_ofSource hmem with ⟨hform, hsep⟩ | ⟨hform | hform, hrun⟩
  · rw [hform, if_pos hsep]
    rfl
  · rw [hform, if_neg (not_isSeparator_of_isRun hrun), String.ofList_toList, Option.isNone_map]
  · exact absurd hform hne

/-- What is dropped makes neither a token nor a stray. -/
theorem filterMap_kept {α : Type} {f : Piece → Option α} (hf : ∀ p, p.form = .dropped → f p = none)
    (pieces : List Piece) : pieces.filterMap f = (kept pieces).filterMap f := by
  rw [kept, List.filterMap_filter]
  refine List.filterMap_congr fun p _ => ?_
  by_cases hform : p.form = .dropped
  · simp [hform, hf p hform]
  · simp [hform]

/-- So what is made of pieces is made of segments, if each piece makes what its text does. -/
theorem filterMap_ofSource {α : Type} {f : Piece → Option α} {g : List Char → Option α}
    {source : String} (hdropped : ∀ p, p.form = .dropped → f p = none)
    (hkept : ∀ p ∈ kept (ofSource source), f p = g p.text.toList) :
    (ofSource source).filterMap f = (Text.segments source.toList).filterMap g := by
  rw [filterMap_kept hdropped, ← map_text_kept_ofSource, List.filterMap_map]
  exact List.filterMap_congr hkept

end Piece

/-! ## The tokens and strays of a source -/

/-- **The tokens and strays of a source are its segments, by their kinds.** -/
theorem tokens_and_strays_eq (source : String) :
    (lex source).tokens.map (fun t => (t.kind, t.text.toList)) =
        (Text.segments source.toList).filterMap
          (fun segment => (Kind.ofSegment? segment).map fun kind => (kind, segment)) ∧
      (lex source).strays.map (fun s => s.text.toList) =
        (Text.segments source.toList).filter fun segment => (Kind.ofSegment? segment).isNone := by
  constructor
  · show ((Piece.ofSource source).filterMap Piece.token?).map _ = _
    rw [List.map_filterMap]
    refine Piece.filterMap_ofSource (fun p hp => ?_) (fun p hp => ?_)
    · rw [Piece.token?, hp]
      rfl
    · rw [Piece.token?_eq hp, Option.map_map]
      rfl
  · show ((Piece.ofSource source).filterMap Piece.stray?).map _ = _
    rw [List.map_filterMap, ← List.filterMap_eq_filter]
    refine Piece.filterMap_ofSource (fun p hp => ?_) (fun p hp => ?_)
    · rw [Piece.stray?, hp]
      rfl
    · rw [Piece.stray?_eq hp]
      by_cases hkind : (Kind.ofSegment? p.text.toList).isNone = true
      · simp [Option.guard, hkind]
      · simp [Option.guard, hkind]

end Lexing
