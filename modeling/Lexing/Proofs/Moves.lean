import Lexing.Proofs.Positions

/-!
# What the machine keeps from move to move

The machine and the cutter do the same work, but they know different things about it. The cutter
knows what is open and looks one character ahead; the machine has a buffer, a column and a place in
its program. What they share is what has still to be told: at every stage the rest of the log is the
one that some state of the cutter gives rise to, once the machine has got rid of its buffer. So the
invariant speaks of what is owed. What was told, followed by what is owed, is the log of the source,
from the first move to the last.

The other half of the invariant is about places. The cursor is that of the characters read; and a
buffer that is not empty holds the last of them, on one line, and the column is kept in which they
began. At each stage it is known whether there is such a buffer (`Machine.Ready`).
-/

namespace Lexing

/-! ## Logs and what they tell of -/

/-- The token that an event tells of. -/
def Event.token? : Event → Option Token
  | .token t => some t
  | _ => none

/-- The stray that an event tells of. -/
def Event.stray? : Event → Option Stray
  | .stray s => some s
  | _ => none

/-- The event at the end of the log. -/
def Event.summary (source : String) : Event :=
  .finished (Cursor.start.advanceAll source.toList).line (lex source).tokens.length
    (lex source).strays.length

/-- The tokens and strays that a log tells of. -/
def Lexed.ofEvents (events : List Event) : Lexed :=
  ⟨events.filterMap Event.token?, events.filterMap Event.stray?⟩

theorem Lexed.ofEvents_concat (events : List Event) (event : Event) :
    ofEvents (events ++ [event]) = ⟨(ofEvents events).tokens ++ event.token?.toList,
      (ofEvents events).strays ++ event.stray?.toList⟩ := by
  unfold ofEvents
  rw [List.filterMap_append, List.filterMap_append]
  cases event <;> rfl

theorem Event.filterMap_ofPiece (p : Piece) :
    (ofPiece p).filterMap token? = p.token?.toList ∧
      (ofPiece p).filterMap stray? = p.stray?.toList := by
  unfold ofPiece Piece.token? Piece.stray?
  cases p.form with
  | separator => exact ⟨rfl, rfl⟩
  | run =>
      cases Rule.recognize p.text with
      | none => exact ⟨rfl, rfl⟩
      | some found => exact ⟨rfl, rfl⟩
  | dropped => exact ⟨rfl, rfl⟩

/-- The events of pieces tell of the tokens and strays among the pieces. -/
theorem Lexed.ofEvents_flatMap (pieces : List Piece) :
    ofEvents (pieces.flatMap Event.ofPiece) = ofPieces pieces := by
  have htoken : ∀ p, (Event.ofPiece p).filterMap Event.token? = p.token?.toList :=
    fun p => (Event.filterMap_ofPiece p).1
  have hstray : ∀ p, (Event.ofPiece p).filterMap Event.stray? = p.stray?.toList :=
    fun p => (Event.filterMap_ofPiece p).2
  simp only [ofEvents, List.filterMap_flatMap, htoken, hstray]
  rw [ofPieces, List.filterMap_eq_flatMap_toList, List.filterMap_eq_flatMap_toList]

/-- The log of a source tells of what the source was found to hold. -/
theorem Lexed.ofEvents_log (source : String) : ofEvents (log source) = lex source := by
  have hlog : log source =
      (Piece.ofSource source).flatMap Event.ofPiece ++ [Event.summary source] := rfl
  have hpieces := ofEvents_flatMap (Piece.ofSource source)
  rw [hlog, lex, ← hpieces, ofEvents_concat]
  simp [Event.summary, Event.token?, Event.stray?]

/-! ## What the cutter has still to tell -/

/-- What is told of the rest of a source, the summary included, from a state of the cutter on. -/
def Cutter.tells (source : String) (k : Cutter) (rest : List Char) : List Event :=
  (k.pieces rest).flatMap Event.ofPiece ++ [Event.summary source]

namespace Cutter

variable {source : String} {p : Cursor} {c : Char} {rest : List Char}

theorem tells_start (source : String) : start.tells source source.toList = log source := by
  rw [tells, ← Piece.ofSource_eq]
  rfl

/-- Where no piece is open, none is complete in front of a character. -/
theorem tells_quiet {k : Cutter} (h : k.Quiet) :
    k.tells source (c :: rest) = (k.read c).tells source rest := by
  rw [tells, h.pieces_cons]
  rfl

theorem tells_blank (hc : Role.of c = .blank) :
    (mk p .idle).tells source (c :: rest) = (mk (p.advance c) .idle).tells source rest := by
  rw [tells_quiet (Or.inl rfl)]
  simp only [read, Mode.read, Mode.read.opening, hc]

/-- A comment mark opens a comment, which begins with the mark itself. -/
theorem tells_mark (hc : Role.of c = .mark) :
    (mk p .idle).tells source (c :: rest) = (mk p .comment).tells source (c :: rest) := by
  have hnewline : c ≠ '\n' := by
    rw [Piece.eq_commentMark_of_role hc]
    decide
  -- Both states read the mark, and both are inside the comment behind it.
  rw [tells_quiet (Or.inl rfl), tells_quiet (Or.inr rfl)]
  simp only [read, Mode.read, Mode.read.opening, hc, if_neg hnewline]

theorem tells_newline :
    (mk p .comment).tells source ('\n' :: rest) = (mk (p.advance '\n') .idle).tells source rest := by
  rw [tells_quiet (Or.inr rfl)]
  rfl

theorem tells_comment (hc : c ≠ '\n') :
    (mk p .comment).tells source (c :: rest) = (mk (p.advance c) .comment).tells source rest := by
  rw [tells_quiet (Or.inr rfl)]
  simp only [read, Mode.read, if_neg hc]

theorem tells_plain (hc : Role.of c = .plain) :
    (mk p .idle).tells source (c :: rest) =
      (mk (p.advance c) (.run (p.advance c).column (String.singleton c))).tells source rest := by
  rw [tells_quiet (Or.inl rfl)]
  simp only [read, Mode.read, Mode.read.opening, hc]

/-- A separator is a token by itself. -/
theorem tells_separator (hc : Role.of c = .separator) :
    (mk p .idle).tells source (c :: rest) =
      .token ⟨.separator, String.singleton c,
          ⟨(p.advance c).line, (p.advance c).column, (p.advance c).column⟩⟩ ::
        (mk (p.advance c) .idle).tells source rest := by
  have hread : (mk p .idle).read c = mk (p.advance c) (.separator c) := by
    simp only [read, Mode.read, Mode.read.opening, hc]
  have hsettle : (mk (p.advance c) (.separator c)).settle rest.head? =
      some ⟨.separator, String.singleton c,
        ⟨(p.advance c).line, (p.advance c).column, (p.advance c).column⟩⟩ := rfl
  rw [tells_quiet (Or.inl rfl), hread, tells, pieces_of_settle hsettle]
  rfl

/-- A run goes on with a plain character. -/
theorem tells_run_plain (hc : Role.of c = .plain) (first : Nat) (text : String) :
    (mk p (.run first text)).tells source (c :: rest) =
      (mk (p.advance c) (.run first (text.push c))).tells source rest := by
  have hsettle : (mk p (.run first text)).settle (some c) = none := by
    simp only [settle, Form.ofNext?, hc, Option.map_none]
  rw [tells, pieces, hsettle]
  simp only [read, Mode.read, Mode.read.opening, hc]
  rfl

/-- Anything else closes it. -/
theorem tells_run {form : Form} (h : Form.ofNext? rest.head? = some form) (first : Nat)
    (text : String) :
    (mk p (.run first text)).tells source rest =
      Event.ofPiece ⟨form, text, ⟨p.line, first, p.column⟩⟩ ++ (mk p .idle).tells source rest := by
  have hsettle : (mk p (.run first text)).settle rest.head? =
      some ⟨form, text, ⟨p.line, first, p.column⟩⟩ := by
    simp only [settle, h, Option.map_some]
  rw [tells, pieces_of_settle hsettle, List.flatMap_cons, List.append_assoc]
  rfl

end Cutter

namespace Machine

/-! ## The invariant -/

/-- Whether the buffer holds the characters read last, all of them on the current line, and the
column is kept in which they began. -/
def Buffers (m : Machine) (done : List Char) : Prop :=
  ∃ before, done = before ++ m.buffer.toList ∧ m.buffer.toList ≠ [] ∧ '\n' ∉ m.buffer.toList ∧
    m.first = (Text.lastLine before).length + 1

/-- What each stage can rely on. -/
def Ready (m : Machine) (done rest : List Char) : Prop :=
  match m.stage with
  | .turn | .skipping | .comment _ => m.buffer = ""
  | .opening => m.buffer = "" ∧ ∃ c ∈ rest.head?, Role.of c = .separator ∨ Role.of c = .plain
  | .filling | .issuing _ => m.Buffers done
  | .judging => m.Buffers done ∧ Form.ofNext? rest.head? = some .run
  | .halted => rest = []

/-- What the machine has still to tell. -/
def owes (source : String) (m : Machine) (rest : List Char) : List Event :=
  match m.stage with
  | .turn | .skipping | .opening => (Cutter.mk m.cursor .idle).tells source rest
  | .comment _ => (Cutter.mk m.cursor .comment).tells source rest
  | .filling => (Cutter.mk m.cursor (.run m.first m.buffer)).tells source rest
  | .judging =>
    Event.ofPiece ⟨.run, m.buffer, m.span⟩ ++ (Cutter.mk m.cursor .idle).tells source rest
  | .issuing kind =>
    .token ⟨kind, m.buffer, m.span⟩ :: (Cutter.mk m.cursor .idle).tells source rest
  | .halted => []

/-- What holds of the machine when it has read the first of two parts of a source. -/
structure Keeps (source : String) (done rest : List Char) (m : Machine) : Prop where
  source_eq : source.toList = done ++ rest
  cursor_eq : m.cursor = Cursor.start.advanceAll done
  ready : m.Ready done rest
  /-- The results are those that the log tells of. -/
  lexed_eq : m.lexed = Lexed.ofEvents m.log
  /-- What was told, and what is still owed, is the log of the source. -/
  log_eq : m.log ++ m.owes source rest = Lexing.log source

theorem keeps_start (source : String) : start.Keeps source [] source.toList where
  source_eq := rfl
  cursor_eq := rfl
  ready := rfl
  lexed_eq := rfl
  log_eq := Cutter.tells_start source

/-- The invariant behind a move. A character that was read is the next one of the source. -/
def Keeping (source : String) (done rest : List Char) : Option Char × Machine → Prop
  | (none, m) => m.Keeps source done rest
  | (some c, m) => ∃ after, rest = c :: after ∧ m.Keeps source (done ++ [c]) after

variable {source : String} {done rest : List Char} {m : Machine}

/-! ## Every move keeps it -/

/-- Reading the next character keeps the cursor where it belongs. -/
theorem Keeps.read {c : Char} {m' : Machine} (h : m.Keeps source done (c :: rest))
    (hcursor : m'.cursor = m.cursor.advance c) (hready : m'.Ready (done ++ [c]) rest)
    (hlexed : m'.lexed = Lexed.ofEvents m'.log)
    (hlog : m'.log ++ m'.owes source rest = Lexing.log source) :
    m'.Keeps source (done ++ [c]) rest := by
  refine ⟨?_, ?_, hready, hlexed, hlog⟩
  · rw [h.source_eq, List.append_assoc]
    rfl
  · rw [hcursor, h.cursor_eq, Cursor.advanceAll_append]
    rfl

/-- Telling what was owed first keeps the invariant, if the results take in what is told. -/
theorem Keeps.tells {event : Event} {m' : Machine} (h : m.Keeps source done rest)
    (hcursor : m'.cursor = m.cursor) (hready : m'.Ready done rest)
    (hlexed : m'.lexed = ⟨m.lexed.tokens ++ event.token?.toList,
      m.lexed.strays ++ event.stray?.toList⟩)
    (hlog : m'.log = m.log ++ [event])
    (howes : m.owes source rest = event :: m'.owes source rest) : m'.Keeps source done rest := by
  refine ⟨h.source_eq, hcursor.trans h.cursor_eq, hready, ?_, ?_⟩
  · rw [hlexed, hlog, h.lexed_eq, Lexed.ofEvents_concat]
  · rw [hlog, List.append_assoc, List.singleton_append, ← howes, h.log_eq]

/-- At the end of the source the summary is all that is left to tell. -/
theorem Keeps.halt (h : m.Keeps source done []) (howes : m.owes source [] = [Event.summary source]) :
    m.halt.Keeps source done [] := by
  have hlog := h.log_eq
  rw [howes] at hlog
  -- What was told is all of the log but the summary, so the results are complete.
  have hfound : m.lexed = lex source := by
    have hcut := List.append_cancel_right hlog
    rw [h.lexed_eq, hcut, Lexed.ofEvents_flatMap]
    rfl
  have hcursor : m.cursor = Cursor.start.advanceAll source.toList := by
    rw [h.cursor_eq, h.source_eq, List.append_nil]
  have hsummary : Event.finished m.cursor.line m.lexed.tokens.length m.lexed.strays.length =
      Event.summary source := by
    rw [hfound, hcursor]
    rfl
  refine h.tells rfl rfl ?_ rfl ?_
  · simp [Event.token?, Event.stray?, Machine.halt, tell, goTo]
  · rw [howes, hsummary]
    rfl

theorem Keeps.turn (h : m.Keeps source done rest) (hstage : m.stage = .turn) :
    Keeping source done rest (m.move rest.head?) := by
  have hready := h.ready
  have hlog := h.log_eq
  simp only [Ready, owes, hstage] at hready hlog
  rw [move_turn hstage]
  exact ⟨h.source_eq, h.cursor_eq, hready, h.lexed_eq, hlog⟩

theorem Keeps.skipping (h : m.Keeps source done rest) (hstage : m.stage = .skipping) :
    Keeping source done rest (m.move rest.head?) := by
  have hready := h.ready
  have hlog := h.log_eq
  simp only [Ready, owes, hstage] at hready hlog
  cases rest with
  | nil =>
      rw [List.head?_nil, move_skipping_none hstage]
      refine h.halt ?_
      simp only [owes, hstage]
      rfl
  | cons c rest =>
      have hopening (hpiece : Role.of c = .separator ∨ Role.of c = .plain) :
          Keeping source done (c :: rest) (m.move (some c)) := by
        rw [move_skipping_piece hstage hpiece]
        exact ⟨h.source_eq, h.cursor_eq, ⟨hready, c, rfl, hpiece⟩, h.lexed_eq, hlog⟩
      rw [List.head?_cons]
      cases hc : Role.of c with
      | blank =>
          rw [move_skipping_blank hstage hc]
          refine ⟨rest, rfl, h.read rfl ?_ h.lexed_eq ?_⟩
          · simpa only [Ready, Machine.read, hstage] using hready
          · rw [Cutter.tells_blank hc] at hlog
            simpa only [owes, Machine.read, hstage] using hlog
      | mark =>
          rw [Cutter.tells_mark hc] at hlog
          rw [move_skipping_mark hstage hc]
          exact ⟨h.source_eq, h.cursor_eq, hready, h.lexed_eq, hlog⟩
      | separator => exact hopening (Or.inl hc)
      | plain => exact hopening (Or.inr hc)

/-- Behind a comment the machine is between pieces, wherever it goes on. -/
theorem ready_behind (m : Machine) (dropped : Bool) :
    (m.goTo (move.behind dropped)).Ready done rest ↔ m.buffer = "" := by
  cases dropped with
  | false => exact Iff.rfl
  | true => exact Iff.rfl

theorem owes_behind (m : Machine) (dropped : Bool) :
    (m.goTo (move.behind dropped)).owes source rest =
      (Cutter.mk m.cursor .idle).tells source rest := by
  cases dropped with
  | false => rfl
  | true => rfl

theorem Keeps.comment (h : m.Keeps source done rest) {dropped : Bool}
    (hstage : m.stage = .comment dropped) : Keeping source done rest (m.move rest.head?) := by
  have hready := h.ready
  have hlog := h.log_eq
  simp only [Ready, owes, hstage] at hready hlog
  cases rest with
  | nil =>
      rw [List.head?_nil, move_comment_none hstage]
      refine ⟨h.source_eq, h.cursor_eq, (ready_behind m dropped).mpr hready, h.lexed_eq, ?_⟩
      rw [owes_behind]
      exact hlog
  | cons c rest =>
      rw [List.head?_cons]
      by_cases hc : c = '\n'
      · subst hc
        rw [Cutter.tells_newline] at hlog
        rw [move_comment_newline hstage]
        refine ⟨rest, rfl, h.read rfl ((ready_behind _ dropped).mpr hready) h.lexed_eq ?_⟩
        rw [owes_behind]
        exact hlog
      · rw [Cutter.tells_comment hc] at hlog
        rw [move_comment_some hstage hc]
        refine ⟨rest, rfl, h.read rfl ?_ h.lexed_eq ?_⟩
        · simpa only [Ready, Machine.read, hstage] using hready
        · simpa only [owes, Machine.read, hstage] using hlog

theorem ne_newline_of_role {c : Char} (h : Role.of c ≠ .blank) : c ≠ '\n' := by
  intro hc
  rw [hc] at h
  exact h Cutter.role_newline

/-- A piece that is begun is the character that was read last. -/
theorem Keeps.buffers_begin {c : Char} (h : m.Keeps source done rest) (hempty : m.buffer = "")
    (hc : c ≠ '\n') : ((m.read c).begin c).Buffers (done ++ [c]) := by
  have hbuffer : ((m.read c).begin c).buffer.toList = [c] := by
    show (m.buffer.push c).toList = [c]
    rw [hempty]
    simp
  refine ⟨done, ?_, ?_, ?_, ?_⟩
  · rw [hbuffer]
  · rw [hbuffer]
    exact List.cons_ne_nil c []
  · rw [hbuffer, List.mem_singleton]
    exact fun e => hc e.symm
  · show (m.cursor.advance c).column = _
    rw [Cursor.advance_of_ne hc, h.cursor_eq, Cursor.column_start_advanceAll]

/-- A run that goes on still holds the characters that were read last. -/
theorem Buffers.take {c : Char} (h : m.Buffers done) (hc : c ≠ '\n') :
    ((m.read c).take c).Buffers (done ++ [c]) := by
  obtain ⟨before, hdone, _, hnewline, hfirst⟩ := h
  have hbuffer : ((m.read c).take c).buffer.toList = m.buffer.toList ++ [c] := String.toList_push c
  refine ⟨before, ?_, ?_, ?_, hfirst⟩
  · rw [hbuffer, hdone, List.append_assoc]
  · rw [hbuffer]
    exact List.append_ne_nil_of_right_ne_nil _ (List.cons_ne_nil c [])
  · rw [hbuffer, List.mem_append, List.mem_singleton, not_or]
    exact ⟨hnewline, fun e => hc e.symm⟩

theorem Keeps.opening (h : m.Keeps source done rest) (hstage : m.stage = .opening) :
    Keeping source done rest (m.move rest.head?) := by
  have hready := h.ready
  have hlog := h.log_eq
  simp only [Ready, owes, hstage] at hready hlog
  obtain ⟨hempty, c, hnext, hpiece⟩ := hready
  cases rest with
  | nil =>
      -- The stage is reached in front of a piece only, so there is no end of the source here.
      cases hnext
  | cons d rest =>
      cases hnext
      have hbuffer : m.buffer.push c = String.singleton c := by
        rw [hempty]
        rfl
      rw [List.head?_cons]
      rcases hpiece with hc | hc
      · have hnewline : c ≠ '\n' := ne_newline_of_role (by rw [hc]; exact Role.noConfusion)
        rw [Cutter.tells_separator hc, ← hbuffer] at hlog
        rw [move_opening_separator hstage hc]
        exact ⟨rest, rfl, h.read rfl (h.buffers_begin hempty hnewline) h.lexed_eq hlog⟩
      · have hnewline : c ≠ '\n' := ne_newline_of_role (by rw [hc]; exact Role.noConfusion)
        rw [Cutter.tells_plain hc, ← hbuffer] at hlog
        rw [move_opening_run hstage (by rw [hc]; exact Role.noConfusion)]
        exact ⟨rest, rfl, h.read rfl (h.buffers_begin hempty hnewline) h.lexed_eq hlog⟩

theorem Keeps.filling (h : m.Keeps source done rest) (hstage : m.stage = .filling) :
    Keeping source done rest (m.move rest.head?) := by
  have hready := h.ready
  have hlog := h.log_eq
  simp only [Ready, owes, hstage] at hready hlog
  have hjudging (hclosed : Form.ofNext? rest.head? = some .run) :
      Keeping source done rest (m.move rest.head?) := by
    rw [Cutter.tells_run hclosed] at hlog
    rw [move_filling_closed hstage hclosed]
    exact ⟨h.source_eq, h.cursor_eq, ⟨hready, hclosed⟩, h.lexed_eq, hlog⟩
  cases rest with
  | nil => exact hjudging rfl
  | cons c rest =>
      cases hc : Role.of c with
      | blank => exact hjudging (by simp only [List.head?_cons, Form.ofNext?, hc])
      | separator => exact hjudging (by simp only [List.head?_cons, Form.ofNext?, hc])
      | mark =>
          have hdropped : Form.ofNext? (c :: rest).head? = some .dropped := by
            simp only [List.head?_cons, Form.ofNext?, hc]
          rw [List.head?_cons, move_filling_mark hstage hc]
          refine h.tells rfl rfl ?_ rfl ?_
          · simp [Event.token?, Event.stray?, drop, tell]
          · simp only [owes, hstage]
            rw [Cutter.tells_run hdropped, Cutter.tells_mark hc]
            rfl
      | plain =>
          have hnewline : c ≠ '\n' := ne_newline_of_role (by rw [hc]; exact Role.noConfusion)
          rw [List.head?_cons, move_filling_plain hstage hc]
          refine ⟨rest, rfl, h.read rfl ?_ h.lexed_eq ?_⟩
          · simpa only [Ready, Machine.read, Machine.take, hstage] using hready.take hnewline
          · rw [Cutter.tells_run_plain hc] at hlog
            simpa only [owes, Machine.read, Machine.take, hstage] using hlog

theorem Keeps.judging (h : m.Keeps source done rest) (hstage : m.stage = .judging) :
    Keeping source done rest (m.move rest.head?) := by
  have hready := h.ready
  simp only [Ready, hstage] at hready
  cases hrule : Rule.recognize m.buffer with
  | none =>
      rw [move_judging_none hstage hrule]
      refine h.tells rfl rfl ?_ rfl ?_
      · simp [Event.token?, Event.stray?, setAside, tell]
      · simp only [owes, hstage, Event.ofPiece, hrule]
        rfl
  | some found =>
      rw [move_judging_some hstage hrule]
      refine h.tells rfl hready.1 ?_ rfl ?_
      · simp [Event.token?, Event.stray?, tell, goTo]
      · simp only [owes, hstage, Event.ofPiece, hrule]
        rfl

theorem Keeps.issuing (h : m.Keeps source done rest) {kind : Kind}
    (hstage : m.stage = .issuing kind) : Keeping source done rest (m.move rest.head?) := by
  rw [move_issuing hstage]
  refine h.tells rfl rfl ?_ rfl ?_
  · simp [Event.token?, Event.stray?, issue, tell]
  · simp only [owes, hstage]
    rfl

/-- **Every move keeps the invariant**, and what it reads is the next character. -/
theorem Keeps.move (h : m.Keeps source done rest) :
    Keeping source done rest (m.move rest.head?) := by
  cases hstage : m.stage with
  | turn => exact h.turn hstage
  | skipping => exact h.skipping hstage
  | comment dropped => exact h.comment hstage
  | opening => exact h.opening hstage
  | filling => exact h.filling hstage
  | judging => exact h.judging hstage
  | issuing kind => exact h.issuing hstage
  | halted =>
      rw [move_halted hstage]
      exact h

end Machine

end Lexing
