import Lexing.Proofs.Placement
import Lexing.Proofs.Resumption

/-!
# Whole runs

A run of a source is whole if neither what comes before it nor what comes after it goes on with it,
and if no comment reaches it. This says nothing about reading: whether some characters of a source
are a whole run can be told by looking at the characters beside them and at the line in front.

The runs among the pieces of a source are exactly its whole runs, each with the span of its place.
In one direction the mode of the cutter is read as a statement about the characters read so far
(`Mode.Describes`), which every further character keeps true: an open run is one that began where
nothing went on. In the other direction a source is cut in front of a whole run. What comes before
is then a source by itself, with the same pieces, and the run is the next piece.
-/

namespace Lexing

/-! ## Places where a run can begin -/

namespace Text

/-- Whether a plain character behind the given text begins a run: it is in no comment, and it does
not go on with a run. -/
def Fresh (before : List Char) : Prop :=
  commentMark ∉ lastLine before ∧ ∀ c ∈ before.getLast?, Role.of c ≠ .plain

theorem fresh_concat {chars : List Char} {c : Char} (hmark : commentMark ∉ lastLine (chars ++ [c]))
    (hplain : Role.of c ≠ .plain) : Fresh (chars ++ [c]) := by
  refine ⟨hmark, ?_⟩
  intro d hd
  rw [List.getLast?_concat, Option.mem_some_iff] at hd
  rw [← hd]
  exact hplain

theorem commentMark_not_mem_lastLine_concat {chars : List Char} {c : Char}
    (hmark : commentMark ∉ lastLine chars) (hc : c ≠ commentMark) :
    commentMark ∉ lastLine (chars ++ [c]) := by
  by_cases hnewline : c = '\n'
  · subst hnewline
    rw [lastLine_append_newline_cons]
    exact List.not_mem_nil
  · rw [lastLine_concat hnewline, List.mem_append, List.mem_singleton, not_or]
    exact ⟨hmark, fun e => hc e.symm⟩

/-- A run never leaves its line and holds no comment mark. -/
theorem lastLine_append_run {run : List Char} (h : IsRun run) (before : List Char) :
    lastLine (before ++ run) = lastLine before ++ run :=
  lastLine_append h.newline_not_mem before

end Text

/-! ## The mode tells what was read -/

namespace Mode

/-- What a mode says of the characters read so far. -/
def Describes : Mode → List Char → Prop
  | .idle, chars => Text.Fresh chars
  | .comment, chars => commentMark ∈ Text.lastLine chars
  | .separator _, chars => Text.Fresh chars
  | .run first text, chars =>
      ∃ before, chars = before ++ text.toList ∧ Text.Fresh before ∧ IsRun text.toList ∧
        first = (Text.lastLine before).length + 1

theorem Describes.commentMark_not_mem {mode : Mode} {chars : List Char} (h : mode.Describes chars)
    (hmode : mode ≠ .comment) : commentMark ∉ Text.lastLine chars := by
  cases mode with
  | idle => exact h.1
  | comment => exact absurd rfl hmode
  | separator mark => exact h.1
  | run first text =>
      obtain ⟨before, hchars, hfresh, hrun, _⟩ := h
      rw [hchars, Text.lastLine_append_run hrun, List.mem_append, not_or]
      exact ⟨hfresh.1, hrun.commentMark_not_mem⟩

theorem describes_opening {chars : List Char} {c : Char} (hmark : commentMark ∉ Text.lastLine chars)
    {run : Mode} (hrun : Role.of c = .plain → run.Describes (chars ++ [c])) :
    (read.opening c run).Describes (chars ++ [c]) := by
  have hfresh : Role.of c ≠ .mark → Role.of c ≠ .plain → Text.Fresh (chars ++ [c]) := by
    intro hcomment hplain
    have hne := Piece.ne_commentMark_of_role hcomment
    exact Text.fresh_concat (Text.commentMark_not_mem_lastLine_concat hmark hne) hplain
  unfold read.opening
  cases hrole : Role.of c with
  | blank => exact hfresh (by rw [hrole]; decide) (by rw [hrole]; decide)
  | separator => exact hfresh (by rw [hrole]; decide) (by rw [hrole]; decide)
  | mark =>
      have hc := Piece.eq_commentMark_of_role hrole
      have hnewline : c ≠ '\n' := by rw [hc]; decide
      show commentMark ∈ Text.lastLine (chars ++ [c])
      rw [Text.lastLine_concat hnewline, hc]
      exact List.mem_append_right _ List.mem_cons_self
  | plain => exact hrun hrole

/-- **Each character keeps the mode true to what was read.** -/
theorem Describes.read {mode : Mode} {chars : List Char} (h : mode.Describes chars) {c : Char}
    {column : Nat} (hcolumn : c ≠ '\n' → column = (Text.lastLine chars).length + 1) :
    (mode.read column c).Describes (chars ++ [c]) := by
  have hsingle : Text.Fresh chars → Role.of c = .plain →
      (Mode.run column (String.singleton c)).Describes (chars ++ [c]) := by
    intro hfresh hplain
    have hnewline : c ≠ '\n' := by
      intro hc
      rw [hc, Cutter.role_newline] at hplain
      cases hplain
    refine ⟨chars, by rw [String.toList_singleton], hfresh, ?_, hcolumn hnewline⟩
    rw [String.toList_singleton]
    refine ⟨List.cons_ne_nil c [], ?_⟩
    intro d hd
    rw [List.mem_singleton.mp hd]
    exact hplain
  cases mode with
  | idle => exact describes_opening h.1 (hsingle h)
  | separator mark => exact describes_opening h.1 (hsingle h)
  | comment =>
      show Describes (if c = '\n' then .idle else .comment) (chars ++ [c])
      by_cases hnewline : c = '\n'
      · rw [if_pos hnewline, hnewline]
        refine Text.fresh_concat ?_ (by rw [Cutter.role_newline]; decide)
        rw [Text.lastLine_append_newline_cons]
        exact List.not_mem_nil
      · rw [if_neg hnewline]
        show commentMark ∈ Text.lastLine (chars ++ [c])
        rw [Text.lastLine_concat hnewline]
        exact List.mem_append_left _ h
  | run first text =>
      refine describes_opening (h.commentMark_not_mem Mode.noConfusion) ?_
      intro hplain
      obtain ⟨before, hchars, hfresh, hrun, hfirst⟩ := h
      refine ⟨before, ?_, hfresh, ?_, hfirst⟩
      · rw [hchars, String.toList_push, List.append_assoc]
      · rw [String.toList_push]
        refine ⟨by simp, ?_⟩
        intro d hd
        rcases List.mem_append.mp hd with hd | hd
        · exact hrun.2 d hd
        · rw [List.mem_singleton.mp hd]
          exact hplain

end Mode

namespace Cutter

/-- So the mode is true to what was read, whatever that is. -/
theorem describes_readAll (chars : List Char) : (start.readAll chars).mode.Describes chars := by
  induction chars using List.reverseRecOn with
  | nil =>
      refine ⟨List.not_mem_nil, ?_⟩
      intro c hc
      cases hc
  | append_singleton chars c ih =>
      rw [readAll_append]
      refine ih.read ?_
      intro hnewline
      have hcolumn := (cursor_start_readAll chars).2
      rw [Cursor.advance_of_ne hnewline, hcolumn]

/-- Whether neither a comment nor a run is open. -/
def Ready (k : Cutter) : Prop := k.mode = .idle ∨ ∃ mark, k.mode = .separator mark

/-- A place where a run can begin is one where neither a comment nor a run is open. -/
theorem ready_of_fresh {chars : List Char} (h : Text.Fresh chars) : (start.readAll chars).Ready := by
  have hdescribes := describes_readAll chars
  cases hmode : (start.readAll chars).mode with
  | idle => exact Or.inl hmode
  | separator mark => exact Or.inr ⟨mark, hmode⟩
  | comment =>
      rw [hmode] at hdescribes
      exact absurd hdescribes h.1
  | run first text =>
      -- the last character read would belong to the run
      rw [hmode] at hdescribes
      obtain ⟨before, hchars, _, hrun, _⟩ := hdescribes
      obtain ⟨init, c, hlast⟩ := (List.eq_nil_or_concat' text.toList).resolve_left hrun.1
      have hplain : Role.of c = .plain := by
        refine hrun.2 c ?_
        rw [hlast]
        exact List.mem_append_right init List.mem_cons_self
      refine absurd hplain (h.2 c ?_)
      rw [hchars, hlast, ← List.append_assoc, List.getLast?_concat]
      rfl

/-- Where neither is open, what is open is settled whatever comes next, and reading goes on as if
nothing had been open. -/
theorem Ready.pieces {k : Cutter} (h : k.Ready) (chars : List Char) :
    k.pieces chars = (k.settle none).toList ++ k.close.pieces chars := by
  rcases h with hidle | ⟨mark, hmark⟩
  · have hclose : k.close = k := by
      rw [close, ← hidle]
    rw [hclose, Quiet.settle (Or.inl hidle)]
    rfl
  · obtain ⟨p, _, _, hsettle⟩ := exists_settle_separator hmark
    rw [pieces_of_settle (hsettle _), hsettle]
    rfl

/-! ## Pieces are settled somewhere -/

/-- Each piece is settled at some place of the text. -/
theorem mem_pieces {k : Cutter} {chars : List Char} {p : Piece} (h : p ∈ k.pieces chars) :
    ∃ front back, chars = front ++ back ∧ (k.readAll front).settle back.head? = some p := by
  induction chars generalizing k with
  | nil =>
      refine ⟨[], [], rfl, ?_⟩
      exact Option.mem_toList.mp h
  | cons c chars ih =>
      rw [pieces, List.mem_append] at h
      rcases h with h | h
      · exact ⟨[], c :: chars, rfl, Option.mem_toList.mp h⟩
      · obtain ⟨front, back, hchars, hsettle⟩ := ih h
        refine ⟨c :: front, back, ?_, hsettle⟩
        rw [hchars]
        rfl

end Cutter

/-! ## Whole runs are pieces -/

/-- The span of a text that goes on with the last line of the one before it. -/
def Span.behind (before text : List Char) : Span :=
  ⟨before.count '\n' + 1, (Text.lastLine before).length + 1,
    (Text.lastLine before).length + text.length⟩

/-- Whether the text before, the run and the text after make up the source, and the run is whole. -/
structure WholeRun (source before run after : List Char) : Prop where
  source_eq : source = before ++ run ++ after
  isRun : IsRun run
  /-- Nothing that comes before reaches into the run. -/
  fresh : Text.Fresh before
  /-- What comes after does not go on with it. -/
  closed : ∀ c ∈ after.head?, Role.of c ≠ .plain

/-- The piece that a run makes, by what stands around it. -/
def Piece.ofRun (before run after : List Char) : Piece :=
  ⟨formBefore after, String.ofList run, Span.behind before run⟩

theorem Form.ofNext?_of_closed {after : List Char} (h : ∀ c ∈ after.head?, Role.of c ≠ .plain) :
    Form.ofNext? after.head? = some (Piece.formBefore after) := by
  cases after with
  | nil => rfl
  | cons c after => exact ofNext?_of_not_plain (h c rfl) after

theorem Form.closed_of_ofNext? {next : Option Char} {form : Form} (h : ofNext? next = some form) :
    ∀ c ∈ next, Role.of c ≠ .plain := by
  intro c hc hplain
  rw [Option.mem_def.mp hc, ofNext?, hplain] at h
  cases h

theorem Cursor.column_advanceAll {chars : List Char} (h : '\n' ∉ chars) (p : Cursor) :
    (p.advanceAll chars).column = p.column + chars.length := by
  induction chars generalizing p with
  | nil => rfl
  | cons c chars ih =>
      rw [List.mem_cons, not_or] at h
      show ((p.advance c).advanceAll chars).column = _
      rw [ih h.2, advance_of_ne (fun e => h.1 e.symm), List.length_cons]
      show p.column + 1 + chars.length = _
      omega

/-- Where nothing is open, a run that is closed by what comes after it is the next piece. -/
theorem Cutter.pieces_run {k : Cutter} (hk : k.mode = .idle) {run after : List Char}
    (hrun : IsRun run) (hclosed : ∀ c ∈ after.head?, Role.of c ≠ .plain) :
    k.pieces (run ++ after) =
      ⟨Piece.formBefore after, String.ofList run,
        ⟨k.cursor.line, k.cursor.column + 1, k.cursor.column + run.length⟩⟩ ::
        (k.readAll run).close.pieces after := by
  have hnewline : '\n' ∉ run := hrun.newline_not_mem
  have hcolumn : (k.readAll run).cursor.column = k.cursor.column + run.length := by
    rw [cursor_readAll, Cursor.column_advanceAll hnewline]
  obtain ⟨c, rest, hcons⟩ := List.exists_cons_of_ne_nil hrun.1
  subst hcons
  have hc : Role.of c = .plain := hrun.2 c List.mem_cons_self
  have hne : c ≠ '\n' := fun e => hnewline (e ▸ List.mem_cons_self)
  have hmode : (k.read c).mode = .run (k.cursor.column + 1) (String.singleton c) := by
    show k.mode.read (k.cursor.advance c).column c = _
    rw [hk, Mode.read, Mode.read.opening, hc, Cursor.advance_of_ne hne]
  obtain ⟨hmode', hcompleted⟩ := readAll_run hmode fun d hd => hrun.2 d (List.mem_cons_of_mem c hd)
  have htext : String.singleton c ++ String.ofList rest = String.ofList (c :: rest) := by
    rw [← String.toList_inj]
    simp
  have hsettle : (k.readAll (c :: rest)).settle after.head? =
      some ⟨Piece.formBefore after, String.ofList (c :: rest),
        ⟨k.cursor.line, k.cursor.column + 1, k.cursor.column + (c :: rest).length⟩⟩ := by
    rw [settle, readAll_cons, hmode', htext, ← readAll_cons, line_readAll hnewline, hcolumn,
      Form.ofNext?_of_closed hclosed]
    rfl
  have hopened : k.completed (c :: rest) = [] := by
    rw [completed, Quiet.settle (Or.inl hk), hcompleted]
    rfl
  rw [pieces_append, hopened, List.nil_append, pieces_of_settle hsettle]

namespace Piece

/-- **A source can be cut in front of a whole run.** What comes before has the pieces that it would
have by itself, and the run is the next piece. -/
theorem ofSource_wholeRun {source before run after : List Char}
    (h : WholeRun source before run after) :
    ∃ more, ofSource (String.ofList source) =
      ofSource (String.ofList before) ++ ofRun before run after :: more := by
  have hready := Cutter.ready_of_fresh h.fresh
  obtain ⟨hline, hcolumn⟩ := Cutter.cursor_start_readAll before
  have hpieces := Cutter.pieces_run (k := (Cutter.start.readAll before).close) rfl h.isRun h.closed
  have hbefore := ofSource_eq_completed (String.ofList before)
  rw [String.toList_ofList] at hbefore
  refine ⟨((Cutter.start.readAll before).close.readAll run).close.pieces after, ?_⟩
  rw [ofSource_eq, String.toList_ofList, h.source_eq, List.append_assoc, Cutter.pieces_append,
    hready.pieces, hpieces, ← List.append_assoc, ← hbefore]
  show _ ++ Piece.mk _ _ ⟨(Cutter.start.readAll before).cursor.line,
    (Cutter.start.readAll before).cursor.column + 1,
    (Cutter.start.readAll before).cursor.column + run.length⟩ :: _ = _
  rw [hline, hcolumn]
  rfl

/-- **Every run among the pieces is a whole run**, and its span is the place where it stands. -/
theorem exists_wholeRun {source : String} {p : Piece} (h : p ∈ ofSource source)
    (hform : p.form ≠ .separator) :
    ∃ before run after, WholeRun source.toList before run after ∧ p = ofRun before run after := by
  rw [ofSource_eq] at h
  obtain ⟨front, after, hsource, hsettle⟩ := Cutter.mem_pieces h
  have hdescribes := Cutter.describes_readAll front
  obtain ⟨hline, hcolumn⟩ := Cutter.cursor_start_readAll front
  cases hmode : (Cutter.start.readAll front).mode with
  | idle =>
      rw [Cutter.Quiet.settle (Or.inl hmode)] at hsettle
      cases hsettle
  | comment =>
      rw [Cutter.Quiet.settle (Or.inr hmode)] at hsettle
      cases hsettle
  | separator mark =>
      obtain ⟨q, hq, _, hsettle'⟩ := Cutter.exists_settle_separator hmode
      rw [hsettle', Option.some_inj] at hsettle
      exact absurd (hsettle ▸ hq) hform
  | run first text =>
      rw [hmode] at hdescribes
      obtain ⟨before, hfront, hfresh, hrun, hfirst⟩ := hdescribes
      rw [Cutter.settle, hmode] at hsettle
      obtain ⟨form, hnext, hp⟩ := Option.map_eq_some_iff.mp hsettle
      have hclosed := Form.closed_of_ofNext? hnext
      rw [Form.ofNext?_of_closed hclosed, Option.some_inj] at hnext
      refine ⟨before, text.toList, after, ⟨by rw [hsource, hfront], hrun, hfresh, hclosed⟩, ?_⟩
      have hlines : before.count '\n' = front.count '\n' := by
        rw [hfront, List.count_append, List.count_eq_zero_of_not_mem hrun.newline_not_mem,
          Nat.add_zero]
      rw [← hp, ofRun, Span.behind, hline, hcolumn, hfirst, hnext, hlines, hfront,
        Text.lastLine_append_run hrun, List.length_append, String.ofList_toList]

end Piece

end Lexing
