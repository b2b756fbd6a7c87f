import Lexing.Proofs.Location

/-!
# What a clean source leaves out

A source is clean if it has no strays. One would like to read this as: every character that is
neither blank nor in a comment is in a token. That is not so. A run that a comment touches is
dropped together with the comment, and a dropped run is no stray, so a clean source may hold one.

This is also all that a clean source can leave out. The pieces pass over no character of the code;
a piece that makes no token is a stray or a dropped run; and a dropped run is one that goes right up
to the first comment mark of its line. In the other direction a stray is never such a run, and its
characters are in no token, since spans do not overlap.
-/

namespace Lexing

/-- Whether a character that stands behind the given text is code: it is not blank, and no comment
mark stands before it on its line or is the character itself. -/
def Text.IsCode (before : List Char) (c : Char) : Prop :=
  isBlank c = false ∧ c ≠ commentMark ∧ commentMark ∉ lastLine before

/-- Whether the characters begin with a run that goes right up to a comment. -/
def Text.BeginsTouched (chars : List Char) : Prop :=
  ∃ run comment, chars = run ++ commentMark :: comment ∧ IsRun run

/-- Whether one of the tokens holds the character that stands behind the given text. -/
def HeldBehind (tokens : List Token) (before : List Char) : Prop :=
  ∃ t ∈ tokens,
    t.span.Holds (before.count '\n' + 1) ((Text.lastLine before).length + 1)

/-- Whether all code of the source is in tokens. -/
def AllHeld (tokens : List Token) (source : String) : Prop :=
  ∀ before c after, source.toList = before ++ c :: after → Text.IsCode before c →
    HeldBehind tokens before

/-- Whether all code of the source is in tokens or in runs that a comment touches. -/
def AllHeldOrTouched (tokens : List Token) (source : String) : Prop :=
  ∀ before c after, source.toList = before ++ c :: after → Text.IsCode before c →
    HeldBehind tokens before ∨ Text.BeginsTouched (c :: after)

/-! ## Touched runs are dropped, and only they -/

/-- A text that begins in front of a boundary and ends behind it is cut in two by it. -/
theorem Text.exists_cut {before text after front back : List Char}
    (h : before ++ text ++ after = front ++ back) (hle : before.length ≤ front.length)
    (hlt : front.length < before.length + text.length) :
    ∃ head tail, tail ≠ [] ∧ text = head ++ tail ∧ back = tail ++ after := by
  rw [List.append_assoc] at h
  obtain ⟨head, rfl, hrest⟩ : ∃ head, front = before ++ head ∧ text ++ after = head ++ back := by
    rcases List.append_eq_append_iff.mp h with h | ⟨extra, hbefore, hback⟩
    · exact h
    · have hnil : extra = [] := by
        rw [hbefore, List.length_append] at hle
        exact List.eq_nil_of_length_eq_zero (by omega)
      subst hnil
      rw [List.append_nil] at hbefore
      exact ⟨[], by rw [hbefore, List.append_nil], hback.symm⟩
  rw [List.length_append] at hlt
  rcases List.append_eq_append_iff.mp hrest with ⟨extra, hhead, _⟩ | ⟨tail, htext, hback⟩
  · rw [hhead, List.length_append] at hlt
    omega
  · refine ⟨head, tail, ?_, htext, hback⟩
    rintro rfl
    rw [htext, List.append_nil] at hlt
    omega

namespace Piece

/-- The piece that holds a place in the code begins at or before it and goes on behind it. -/
theorem Stands.exists_cut {number : Nat} {last : Form} {front back : List Char} {p : Piece}
    (h : Stands number last (front ++ back) p)
    (hholds : p.span.Holds number (front.length + 1)) :
    ∃ head tail after, tail ≠ [] ∧ p.text.toList = head ++ tail ∧ back = tail ++ after ∧
      (p.form = .separator ∧ IsSeparator p.text.toList ∨
        p.form = (if after.isEmpty then last else .run) ∧ IsRun p.text.toList ∧
          ∀ c ∈ after.head?, isPlain c = false) := by
  obtain ⟨before, after, hcode, hspan, hsort⟩ := h
  rw [hspan] at hholds
  obtain ⟨_, hfirst, hlast⟩ := hholds
  obtain ⟨head, tail, htail, htext, hback⟩ := Text.exists_cut hcode.symm
    (Nat.le_of_succ_le_succ hfirst) (Nat.lt_of_succ_le hlast)
  exact ⟨head, tail, after, htail, htext, hback, hsort⟩

/-- A piece that reaches into a run at the end of the code is that run. -/
theorem Stands.form_of_holds {number : Nat} {last : Form} {front run : List Char} {p : Piece}
    (h : Stands number last (front ++ run) p) (hrun : ∀ c ∈ run, Role.of c = .plain)
    (hholds : p.span.Holds number (front.length + 1)) : p.form = last := by
  obtain ⟨head, tail, after, htail, htext, hback, hsort⟩ := h.exists_cut hholds
  rcases hsort with ⟨_, c, hc, hsep⟩ | ⟨hform, _, hafter⟩
  · -- a separator is no part of the run
    obtain ⟨d, tail', rfl⟩ := List.exists_cons_of_ne_nil htail
    have hd : d ∈ [c] := by
      rw [← hsep, htext]
      exact List.mem_append_right head List.mem_cons_self
    have hplain : Role.of d = .plain := by
      refine hrun d ?_
      rw [hback]
      exact List.mem_append_left after List.mem_cons_self
    rw [List.mem_singleton.mp hd, role_of_mem_separators hc] at hplain
    cases hplain
  · cases after with
    | nil => exact hform
    | cons d after =>
        -- the run would go on
        have hplain : Role.of d = .plain := by
          refine hrun d ?_
          rw [hback]
          exact List.mem_append_right tail List.mem_cons_self
        exact absurd hplain (role_of_not_plain (hafter d rfl))

/-- A dropped piece ends with the code, so whatever stands in it goes on as a run to that end. -/
theorem Stands.isRun_of_dropped {number : Nat} {last : Form} {front back : List Char} {p : Piece}
    (h : Stands number last (front ++ back) p) (hdropped : p.form = .dropped)
    (hholds : p.span.Holds number (front.length + 1)) : last = .dropped ∧ IsRun back := by
  obtain ⟨head, tail, after, htail, htext, hback, hsort⟩ := h.exists_cut hholds
  rw [hdropped] at hsort
  rcases hsort with ⟨hform, _⟩ | ⟨hform, hrun, _⟩
  · cases hform
  · cases after with
    | nil =>
        -- nothing comes after the piece, so what is left of it is all that is left of the code
        refine ⟨hform.symm, ?_⟩
        rw [hback, List.append_nil]
        refine ⟨htail, ?_⟩
        intro d hd
        refine hrun.2 d ?_
        rw [htext]
        exact List.mem_append_right head hd
    | cons d after => cases hform

/-- So the piece that holds a place in the code is dropped just if what goes on from there is a run
that a comment touches. -/
theorem Stands.dropped_iff {number : Nat} {last : Form} {front back : List Char} {p : Piece}
    (h : Stands number last (front ++ back) p)
    (hholds : p.span.Holds number (front.length + 1)) :
    p.form = .dropped ↔ last = .dropped ∧ IsRun back := by
  constructor
  · intro hdropped
    exact h.isRun_of_dropped hdropped hholds
  · rintro ⟨hlast, hrun⟩
    rw [h.form_of_holds hrun.2 hholds]
    exact hlast

end Piece

/-! ## Code and comment -/

namespace Piece

theorem lastForm_eq_dropped_iff {line : List Char} :
    lastForm line = .dropped ↔ commentMark ∈ line := by
  unfold lastForm
  constructor
  · intro h
    split at h
    · assumption
    · cases h
  · intro h
    exact if_pos h

theorem exists_eq_code_append {line : List Char} (h : commentMark ∈ line) :
    ∃ comment, line = code line ++ commentMark :: comment := by
  obtain ⟨front, comment, hline, hfront⟩ := List.eq_append_cons_of_mem h
  refine ⟨comment, ?_⟩
  conv_rhs => rw [hline, code_append_mark hfront]
  exact hline

end Piece

theorem Text.beginsTouched_iff {chars : List Char} :
    BeginsTouched chars ↔
      commentMark ∈ firstLine chars ∧ IsRun (Piece.code (firstLine chars)) := by
  constructor
  · rintro ⟨run, comment, rfl, hrun⟩
    have hnewline : '\n' ∉ run := hrun.newline_not_mem
    have hmark : commentMark ∉ run := hrun.commentMark_not_mem
    have hfirst : firstLine (commentMark :: comment) = commentMark :: firstLine comment :=
      List.takeWhile_cons_of_pos (by decide)
    rw [firstLine_append hnewline, hfirst, Piece.code_append_mark hmark]
    exact ⟨List.mem_append_right run List.mem_cons_self, hrun⟩
  · rintro ⟨hmark, hrun⟩
    obtain ⟨comment, hcomment⟩ := Piece.exists_eq_code_append hmark
    refine ⟨_, comment ++ chars.dropWhile (· != '\n'), ?_, hrun⟩
    calc chars
        = firstLine chars ++ chars.dropWhile (· != '\n') := List.takeWhile_append_dropWhile.symm
      _ = Piece.code (firstLine chars) ++
            commentMark :: (comment ++ chars.dropWhile (· != '\n')) := by
          conv_lhs => rw [hcomment]
          rw [List.append_assoc, List.cons_append]

/-! ## The line of a character -/

theorem Text.IsCode.firstLine_cons {before : List Char} {c : Char} (h : IsCode before c)
    (after : List Char) : firstLine (c :: after) = c :: firstLine after := by
  refine List.takeWhile_cons_of_pos ?_
  exact bne_iff_ne.mpr (ne_newline_of_not_isBlank h.1)

namespace Piece

/-- The pieces of the line at some place are those that carry its number. -/
theorem mem_ofLine_iff {source : String} {before after : List Char}
    (hsource : source.toList = before ++ after) {p : Piece} :
    p ∈ ofLine (before.count '\n' + 1) 0 (Text.lastLine before ++ Text.firstLine after) ↔
      p ∈ ofSource source ∧ p.span.line = before.count '\n' + 1 := by
  have hget := Text.getElem?_lines_append before after
  rw [← hsource] at hget
  constructor
  · intro h
    refine ⟨mem_ofSource.mpr ⟨_, _, hget, ?_⟩, (first_of_mem_ofCode h).1⟩
    rwa [Nat.add_comm]
  · rintro ⟨h, hnumber⟩
    obtain ⟨index, line, hline, hp⟩ := mem_ofSource.mp h
    have hindex : index = before.count '\n' := by
      have := (first_of_mem_ofCode hp).1
      omega
    rw [hindex, hget, Option.some_inj] at hline
    rwa [hindex, Nat.add_comm, ← hline] at hp

section Character

variable {source : String} {before after : List Char} {c : Char}

/-- Every character of the code is held by a piece. -/
theorem exists_holds_of_isCode (hsource : source.toList = before ++ c :: after)
    (hc : Text.IsCode before c) :
    ∃ p ∈ ofSource source,
      p.span.Holds (before.count '\n' + 1) ((Text.lastLine before).length + 1) := by
  have hblank : Role.of c ≠ .blank := by
    intro h
    have hb := Text.isBlank_of_role h
    rw [hc.1] at hb
    cases hb
  have hmark : Role.of c ≠ .mark := fun h => hc.2.1 (eq_commentMark_of_role h)
  have hget : (code (Text.lastLine before ++ Text.firstLine (c :: after)))[
      (Text.lastLine before).length]? = some c := by
    rw [hc.firstLine_cons, code_append hc.2.2, code_cons hc.2.1,
      List.getElem?_append_right (Nat.le_refl _), Nat.sub_self, List.getElem?_cons_zero]
  obtain ⟨p, hp, hholds⟩ := exists_holds_of_ofCode (before.count '\n' + 1)
    (lastForm (Text.lastLine before ++ Text.firstLine (c :: after))) 0 hget hblank hmark
  rw [Nat.zero_add] at hholds
  exact ⟨p, ((mem_ofLine_iff hsource).mp hp).1, hholds⟩

/-- The piece that holds a character of the code is dropped just if a comment touches what goes on
from there. -/
theorem dropped_iff_beginsTouched (hsource : source.toList = before ++ c :: after)
    (hc : Text.IsCode before c) {p : Piece} (hp : p ∈ ofSource source)
    (hholds : p.span.Holds (before.count '\n' + 1) ((Text.lastLine before).length + 1)) :
    p.form = .dropped ↔ Text.BeginsTouched (c :: after) := by
  have hstands := stands_of_mem_ofLine ((mem_ofLine_iff hsource).mpr ⟨hp, hholds.1.symm⟩)
  rw [code_append hc.2.2] at hstands
  -- no mark stands before the character, so the one that drops a run stands behind it
  rw [hstands.dropped_iff hholds, lastForm_eq_dropped_iff, List.mem_append,
    or_iff_right hc.2.2, Text.beginsTouched_iff]

end Character

/-- A piece begins with a character of the code. -/
theorem exists_isCode_of_mem_ofSource {source : String} {p : Piece} (h : p ∈ ofSource source) :
    ∃ before c after, source.toList = before ++ c :: after ∧ Text.IsCode before c ∧
      p.span.Holds (before.count '\n' + 1) ((Text.lastLine before).length + 1) := by
  obtain ⟨index, line, hline, hp⟩ := mem_ofSource.mp h
  obtain ⟨front, after, hcode, hspan, hsort⟩ := stands_of_mem_ofLine hp
  -- separators and runs alike begin with something that is neither blank nor a mark
  obtain ⟨c, text, htext, hblank, hmark⟩ : ∃ c text, p.text.toList = c :: text ∧
      Role.of c ≠ .blank ∧ Role.of c ≠ .mark := by
    rcases hsort with ⟨_, c, hc, htext⟩ | ⟨_, hrun, _⟩
    · rw [htext]
      refine ⟨c, [], rfl, ?_⟩
      rw [role_of_mem_separators hc]
      exact ⟨by decide, by decide⟩
    · obtain ⟨c, text, htext⟩ := List.exists_cons_of_ne_nil hrun.1
      have hc : Role.of c = .plain := hrun.2 c (by rw [htext]; exact List.mem_cons_self)
      refine ⟨c, text, htext, ?_⟩
      rw [hc]
      exact ⟨by decide, by decide⟩
  -- behind it the line goes on with the rest of the piece, of the code and of the comment
  obtain ⟨comment, hcomment⟩ := code_prefix line
  have hwhole : line = front ++ c :: (text ++ after ++ comment) := by
    rw [← hcomment, hcode, htext]
    simp
  rw [hwhole] at hline
  obtain ⟨before, rest, hsource, hcount, hlast⟩ := Text.exists_of_getElem?_lines hline
  refine ⟨before, c, text ++ after ++ comment ++ rest, ?_, ⟨?_, ?_, ?_⟩, ?_⟩
  · rw [hsource]
    simp
  · exact Text.not_isBlank_of_role hblank
  · exact ne_commentMark_of_role hmark
  · rw [hlast]
    intro hmem
    refine commentMark_not_mem_code line ?_
    rw [hcode, List.append_assoc]
    exact List.mem_append_left _ hmem
  · rw [hspan, hcount, hlast, htext, List.length_cons]
    refine ⟨Nat.add_comm _ _, Nat.le_refl _, ?_⟩
    show front.length + 1 ≤ front.length + (text.length + 1)
    omega

end Piece

/-! ## What becomes of the code -/

theorem Piece.dropped_or_stray_of_token?_eq_none {p : Piece} (h : p.token? = none) :
    p.form = .dropped ∨ ∃ s, p.stray? = some s := by
  unfold token? at h
  unfold stray?
  split at h
  · cases h
  · rename_i hform
    rw [Option.map_eq_none_iff] at h
    rw [hform, h]
    exact Or.inr ⟨_, rfl⟩
  · rename_i hform
    exact Or.inl hform

theorem isClean_iff {source : String} :
    (lex source).isClean = true ↔ ∀ p ∈ Piece.ofSource source, p.stray? = none := by
  unfold Lexed.isClean
  rw [List.isEmpty_iff]
  exact List.filterMap_eq_nil_iff

theorem lexStrict_eq_ok_iff {source : String} {tokens : List Token} :
    lexStrict source = .ok tokens ↔
      tokens = (lex source).tokens ∧ (lex source).isClean = true := by
  unfold lexStrict Lexed.strict Lexed.isClean
  cases (lex source).strays with
  | nil => simp [eq_comm]
  | cons s strays => simp

theorem isClean_iff_allHeldOrTouched {source : String} :
    (lex source).isClean = true ↔ AllHeldOrTouched (lex source).tokens source := by
  rw [isClean_iff]
  constructor
  · intro hclean before c after hsource hc
    obtain ⟨p, hp, hholds⟩ := Piece.exists_holds_of_isCode hsource hc
    cases htoken : p.token? with
    | some t =>
        refine Or.inl ⟨t, mem_tokens.mpr ⟨p, hp, htoken⟩, ?_⟩
        rwa [(Piece.of_token?_eq_some htoken).2]
    | none =>
        rcases Piece.dropped_or_stray_of_token?_eq_none htoken with hdropped | ⟨s, hstray⟩
        · exact Or.inr ((Piece.dropped_iff_beginsTouched hsource hc hp hholds).mp hdropped)
        · rw [hclean p hp] at hstray
          cases hstray
  · -- a stray begins with a character of the code, which no token holds and no comment touches
    intro hall p hp
    rw [Option.eq_none_iff_forall_ne_some]
    intro s hstray
    obtain ⟨before, c, after, hsource, hc, hholds⟩ := Piece.exists_isCode_of_mem_ofSource hp
    rcases hall before c after hsource hc with ⟨t, ht, htholds⟩ | htouched
    · have hdisjoint := token_disjoint_stray ht (mem_strays.mpr ⟨p, hp, hstray⟩)
      rw [(Piece.of_stray?_eq_some hstray).2] at hdisjoint
      exact hdisjoint _ _ htholds hholds
    · have hdropped := (Piece.dropped_iff_beginsTouched hsource hc hp hholds).mpr htouched
      unfold Piece.stray? at hstray
      rw [hdropped] at hstray
      cases hstray

/-- **A source is clean just if nothing but runs that a comment touches is missing from its
tokens**, and strict lexing succeeds for such sources only. -/
theorem clean_iff_allHeldOrTouched (source : String) :
    ((lex source).isClean = true ↔ AllHeldOrTouched (lex source).tokens source) ∧
      ∀ tokens, lexStrict source = .ok tokens ↔
        tokens = (lex source).tokens ∧ AllHeldOrTouched tokens source := by
  refine ⟨isClean_iff_allHeldOrTouched, fun tokens => ?_⟩
  rw [lexStrict_eq_ok_iff, isClean_iff_allHeldOrTouched]
  constructor
  · rintro ⟨rfl, hall⟩
    exact ⟨rfl, hall⟩
  · rintro ⟨rfl, hall⟩
    exact ⟨rfl, hall⟩

/-- The runs that a comment touches cannot be left out of this: a source can be clean, and be lexed
strictly, without all of its code in tokens. -/
theorem not_clean_iff_allHeld :
    ¬((lex "a#").isClean = true ↔ AllHeld (lex "a#").tokens "a#") ∧
      ¬∀ tokens, lexStrict "a#" = .ok tokens → AllHeld tokens "a#" := by
  have hlex : lex "a#" = ⟨[], []⟩ := by decide +kernel
  have hcode : Text.IsCode [] 'a' := ⟨by decide, by decide, List.not_mem_nil⟩
  have hlost : ¬AllHeld [] "a#" := by
    intro hall
    obtain ⟨t, ht, _⟩ := hall [] 'a' ['#'] rfl hcode
    exact absurd ht List.not_mem_nil
  unfold lexStrict
  rw [hlex]
  exact ⟨fun hclean => hlost (hclean.mp rfl), fun hstrict => hlost (hstrict [] rfl)⟩

end Lexing
