import Lexing.Proofs.Moves

/-!
# The machine never breaks, and it comes to an end

Every move keeps the invariant, so it holds after any number of moves; and where it holds the machine
can look into the source, so there is always a next move. That is safety. It ends because each move
leaves less to do. Most moves read nothing, so the characters that are left do not tell how much that
is; they count for more than all stages together, and the stages are ranked by what comes after what
(`Stage.remaining`). Only a comment needs care: in front of a character it ranks low, since it is
going to read, and at the end of the source it ranks high, since it gives way to the stages that
find the end a second time.

`machine_safe` puts together what this says of places. Where the machine stands is told by the
characters that it has read, count by count; the buffer is empty where a turn begins, and holds the
last characters where it is handed on; and in the end the whole source was read, to the result that
`lex` and `log` have.
-/

namespace Lexing

namespace Machine

variable {source : String} {done rest : List Char} {m : Machine}

/-! ## There is always a next move -/

/-- The machine stands behind the characters that it has read, so it sees the next one. -/
theorem Keeps.peek?_eq (h : m.Keeps source done rest) :
    Text.peek? source m.cursor.offset = some rest.head? := by
  have hsource : source = String.ofList done ++ String.ofList rest := by
    rw [← String.ofList_append, ← h.source_eq, String.ofList_toList]
  have hpeek := Text.peek?_append (String.ofList done) (String.ofList rest)
  rw [← hsource, String.toList_ofList] at hpeek
  rw [h.cursor_eq, Cursor.offset_start_advanceAll, hpeek]

theorem Keeps.step_eq (h : m.Keeps source done rest) :
    m.step source = some (m.move rest.head?) := by
  rw [step, h.peek?_eq, Option.map_some]

theorem Keeps.after_succ (h : m.Keeps source done rest) {moves : Nat}
    (hafter : after source moves = some (done, m)) :
    after source (moves + 1) =
      some (done ++ (m.move rest.head?).1.toList, (m.move rest.head?).2) := by
  rw [after, hafter]
  show (m.step source).bind _ = _
  rw [h.step_eq]
  rfl

theorem Keeping.keeps {r : Option Char × Machine} (h : Keeping source done rest r) :
    r.2.Keeps source (done ++ r.1.toList) (rest.drop r.1.toList.length) := by
  obtain ⟨read?, m'⟩ := r
  cases read? with
  | none =>
      show m'.Keeps source (done ++ []) rest
      rw [List.append_nil]
      exact h
  | some c =>
      obtain ⟨after, rfl, hkeeps⟩ := h
      exact hkeeps

/-- **The invariant holds after any number of moves**, none of which breaks the machine. -/
theorem exists_after (source : String) (moves : Nat) :
    ∃ done rest m, after source moves = some (done, m) ∧ m.Keeps source done rest := by
  induction moves with
  | zero => exact ⟨[], source.toList, start, rfl, keeps_start source⟩
  | succ moves ih =>
      obtain ⟨done, rest, m, hafter, hkeeps⟩ := ih
      exact ⟨_, _, _, hkeeps.after_succ hafter, hkeeps.move.keeps⟩

end Machine

/-! ## The machine comes to an end -/

/-- The rank of a stage, in front of the given characters, among those that read nothing more. -/
def Stage.rank : Stage → List Char → Nat
  | .halted, _ => 0
  | .comment _, [] => 4
  | .comment _, _ :: _ => 1
  | .opening, _ => 1
  | .skipping, _ => 2
  | .turn, _ => 3
  | .issuing _, _ => 4
  | .judging, _ => 5
  | .filling, _ => 6

/-- How much is left to do at a stage, if the given characters are left to read. -/
def Stage.remaining (stage : Stage) (rest : List Char) : Nat := 7 * rest.length + stage.rank rest

theorem Stage.rank_le (stage : Stage) (rest : List Char) : stage.rank rest ≤ 6 := by
  cases stage with
  | comment dropped =>
      cases rest with
      | nil => simp [rank]
      | cons c rest => simp [rank]
  | _ => simp [rank]

namespace Machine

variable {source : String} {done rest : List Char} {m : Machine}

/-- Whether less is left to do behind a move than there was at a stage in front of it. -/
def Lessening (stage : Stage) (rest : List Char) (r : Option Char × Machine) : Prop :=
  r.2.stage.remaining (rest.drop r.1.toList.length) < stage.remaining rest

/-- A move that reads nothing has to go on with a stage of lower rank. -/
theorem Lessening.of_rank {stage : Stage} {m' : Machine}
    (h : m'.stage.rank rest < stage.rank rest) : Lessening stage rest (none, m') :=
  Nat.add_lt_add_left h _

/-- A move that reads may go on anywhere: a character counts for more than any two ranks differ. -/
theorem Lessening.of_read (stage : Stage) (c : Char) (rest : List Char) (m' : Machine) :
    Lessening stage (c :: rest) (some c, m') := by
  have hrank := m'.stage.rank_le rest
  show 7 * rest.length + m'.stage.rank rest < 7 * (c :: rest).length + stage.rank (c :: rest)
  rw [List.length_cons]
  omega

theorem lessening_skipping (h : m.stage = .skipping) (rest : List Char) :
    Lessening .skipping rest (m.move rest.head?) := by
  cases rest with
  | nil =>
      rw [List.head?_nil, move_skipping_none h]
      exact .of_rank (show 0 < 2 by omega)
  | cons c rest =>
      have hopening (hpiece : Role.of c = .separator ∨ Role.of c = .plain) :
          Lessening .skipping (c :: rest) (m.move (some c)) := by
        rw [move_skipping_piece h hpiece]
        exact .of_rank (show 1 < 2 by omega)
      rw [List.head?_cons]
      cases hc : Role.of c with
      | blank =>
          rw [move_skipping_blank h hc]
          exact .of_read _ c rest _
      | mark =>
          rw [move_skipping_mark h hc]
          exact .of_rank (show 1 < 2 by omega)
      | separator => exact hopening (Or.inl hc)
      | plain => exact hopening (Or.inr hc)

theorem lessening_comment {dropped : Bool} (h : m.stage = .comment dropped) (rest : List Char) :
    Lessening (.comment dropped) rest (m.move rest.head?) := by
  cases rest with
  | nil =>
      rw [List.head?_nil, move_comment_none h]
      cases dropped with
      | false => exact .of_rank (show 2 < 4 by omega)
      | true => exact .of_rank (show 3 < 4 by omega)
  | cons c rest =>
      rw [List.head?_cons]
      by_cases hc : c = '\n'
      · subst hc
        rw [move_comment_newline h]
        exact .of_read _ '\n' rest _
      · rw [move_comment_some h hc]
        exact .of_read _ c rest _

theorem lessening_opening (h : m.stage = .opening) (rest : List Char) :
    Lessening .opening rest (m.move rest.head?) := by
  cases rest with
  | nil =>
      rw [List.head?_nil, move_opening_none h]
      exact .of_rank (show 0 < 1 by omega)
  | cons c rest =>
      rw [List.head?_cons]
      by_cases hc : Role.of c = .separator
      · rw [move_opening_separator h hc]
        exact .of_read _ c rest _
      · rw [move_opening_run h hc]
        exact .of_read _ c rest _

theorem lessening_filling (h : m.stage = .filling) (rest : List Char) :
    Lessening .filling rest (m.move rest.head?) := by
  have hjudging (hclosed : Form.ofNext? rest.head? = some .run) :
      Lessening .filling rest (m.move rest.head?) := by
    rw [move_filling_closed h hclosed]
    exact .of_rank (show 5 < 6 by omega)
  cases rest with
  | nil => exact hjudging rfl
  | cons c rest =>
      cases hc : Role.of c with
      | blank => exact hjudging (by simp only [List.head?_cons, Form.ofNext?, hc])
      | separator => exact hjudging (by simp only [List.head?_cons, Form.ofNext?, hc])
      | mark =>
          rw [List.head?_cons, move_filling_mark h hc]
          exact .of_rank (show 1 < 6 by omega)
      | plain =>
          rw [List.head?_cons, move_filling_plain h hc]
          exact .of_read _ c rest _

theorem lessening_judging (h : m.stage = .judging) (rest : List Char) :
    Lessening .judging rest (m.move rest.head?) := by
  cases hrule : Rule.recognize m.buffer with
  | none =>
      rw [move_judging_none h hrule]
      exact .of_rank (show 3 < 5 by omega)
  | some found =>
      rw [move_judging_some h hrule]
      exact .of_rank (show 4 < 5 by omega)

/-- **Each move leaves less to do**, unless the machine has halted. -/
theorem lessening_move (h : m.stage ≠ .halted) (rest : List Char) :
    Lessening m.stage rest (m.move rest.head?) := by
  cases hstage : m.stage with
  | turn =>
      rw [move_turn hstage]
      exact .of_rank (show 2 < 3 by omega)
  | skipping => exact lessening_skipping hstage rest
  | comment dropped => exact lessening_comment hstage rest
  | opening => exact lessening_opening hstage rest
  | filling => exact lessening_filling hstage rest
  | judging => exact lessening_judging hstage rest
  | issuing kind =>
      rw [move_issuing hstage]
      exact .of_rank (show 3 < 4 by omega)
  | halted => exact absurd hstage h

/-- From any number of moves on, the machine halts in the end. -/
theorem Keeps.exists_halted (h : m.Keeps source done rest) {moves : Nat}
    (hafter : after source moves = some (done, m)) :
    ∃ last done rest m, after source last = some (done, m) ∧ m.Keeps source done rest ∧
      m.stage = .halted := by
  -- The induction is on what is left to do, and any place on the way may be its start.
  induction hleft : m.stage.remaining rest using Nat.strongRecOn generalizing moves done rest m with
  | ind left ih =>
      by_cases hstage : m.stage = .halted
      · exact ⟨moves, done, rest, m, hafter, h, hstage⟩
      · subst hleft
        exact ih _ (lessening_move hstage rest) h.move.keeps (h.after_succ hafter) rfl

/-! ## What can be said of every state -/

/-- What the buffer holds are the last characters that were read, as many as the columns tell. -/
theorem Buffers.suffix (h : m.Buffers done)
    (hcolumn : m.cursor.column = (Text.lastLine done).length) :
    m.buffer ≠ "" ∧ m.first ≤ m.cursor.column ∧
      m.buffer.toList = done.rtake (m.cursor.column - m.first + 1) ∧
      m.buffer.toList <:+ Text.lastLine done := by
  obtain ⟨before, hdone, hne, hnewline, hfirst⟩ := h
  have hline : Text.lastLine done = Text.lastLine before ++ m.buffer.toList := by
    rw [hdone, Text.lastLine_append hnewline]
  have hlength : m.cursor.column = (Text.lastLine before).length + m.buffer.toList.length := by
    rw [hcolumn, hline, List.length_append]
  have hpos : 0 < m.buffer.toList.length := List.length_pos_of_ne_nil hne
  -- The first column is one more than what stands before the buffer, so the difference is exact.
  have hcount : m.cursor.column - m.first + 1 = m.buffer.toList.length := by omega
  refine ⟨?_, by omega, ?_, ?_⟩
  · intro hempty
    rw [hempty] at hne
    exact hne rfl
  · rw [hcount, hdone, List.rtake]
    simp
  · rw [hline]
    exact List.suffix_append _ _

/-- What can be said of the machine when it has read the first of two parts of a source. -/
structure Sound (source : String) (done rest : List Char) (m : Machine) : Prop where
  source_eq : source.toList = done ++ rest
  /-- The cursor is the one that the cutter has in the same place. -/
  cursor_eq : m.cursor = (Cutter.start.readAll done).cursor
  /-- The offset counts the bytes of what was read. -/
  offset_eq : m.cursor.offset = (Utf8.encode (String.ofList done)).length
  /-- It is not past the end, and not inside a character. -/
  offset_le : m.cursor.offset ≤ (Utf8.encode source).length
  offset_isValid : String.Pos.Raw.IsValid source ⟨m.cursor.offset⟩
  /-- So the machine can look into the source, and what it sees is the next character. -/
  peek?_eq : Text.peek? source m.cursor.offset = some rest.head?
  line_eq : m.cursor.line = 1 + done.count '\n'
  column_eq : m.cursor.column = (Text.lastLine done).length
  line_add_column_le : m.cursor.line - 1 + m.cursor.column ≤ done.length
  /-- No count overflows a machine word, if the bytes can be counted with one bit less. -/
  no_overflow : ∀ bits, (Utf8.encode source).length < 2 ^ bits →
    m.cursor.offset < 2 ^ (bits + 1) ∧ m.cursor.line < 2 ^ (bits + 1) ∧
      m.cursor.column < 2 ^ (bits + 1)
  /-- Every turn begins with an empty buffer, and so does every piece. -/
  buffer_eq : m.stage = .turn ∨ m.stage = .opening → m.buffer = ""
  /-- What the rules are asked about, and what becomes a token, are the last characters that were
  read, as many as there are columns from the first one of the buffer to the current one, and all of
  them on the current line. -/
  buffered : m.stage = .judging ∨ (∃ kind, m.stage = .issuing kind) →
    m.buffer ≠ "" ∧ m.first ≤ m.cursor.column ∧
      m.buffer.toList = done.rtake (m.cursor.column - m.first + 1) ∧
      m.buffer.toList <:+ Text.lastLine done
  /-- Behind a gap there is a character, and the next move reads it. -/
  opening : m.stage = .opening → ∃ c after, rest = c :: after ∧
    ∃ m', m.step source = some (some c, m')
  /-- In the end the whole source was read, and everything was found and told. -/
  halted : m.stage = .halted → rest = [] ∧ m.lexed = lex source ∧ m.log = Lexing.log source

theorem Keeps.sound (h : m.Keeps source done rest) : m.Sound source done rest := by
  have hoffset : m.cursor.offset = (Utf8.encode (String.ofList done)).length := by
    rw [h.cursor_eq, Cursor.offset_start_advanceAll]
  have hcolumn : m.cursor.column = (Text.lastLine done).length := by
    rw [h.cursor_eq, Cursor.column_start_advanceAll]
  have hsource : source = String.ofList done ++ String.ofList rest := by
    rw [← String.ofList_append, ← h.source_eq, String.ofList_toList]
  have hready := h.ready
  refine
    { source_eq := h.source_eq
      cursor_eq := ?_
      offset_eq := hoffset
      offset_le := ?_
      offset_isValid := ?_
      peek?_eq := h.peek?_eq
      line_eq := ?_
      column_eq := hcolumn
      line_add_column_le := ?_
      no_overflow := ?_
      buffer_eq := ?_
      buffered := ?_
      opening := ?_
      halted := ?_ }
  · rw [h.cursor_eq, Cutter.cursor_readAll]
    rfl
  · rw [hoffset, hsource, Utf8.length_encode_append]
    omega
  · refine String.Pos.Raw.isValid_iff_exists_append.mpr ⟨_, _, hsource, ?_⟩
    rw [hoffset, Utf8.length_encode]
    rfl
  · rw [h.cursor_eq, Cursor.line_start_advanceAll, Nat.add_comm]
  · rw [h.cursor_eq]
    exact Cursor.line_add_column_le done
  · intro bits hbits
    rw [h.cursor_eq]
    exact Cursor.advanceAll_lt_two_pow h.source_eq hbits
  · intro hstage
    rcases hstage with hstage | hstage
    · simpa only [Ready, hstage] using hready
    · simp only [Ready, hstage] at hready
      exact hready.1
  · intro hstage
    refine Buffers.suffix ?_ hcolumn
    rcases hstage with hstage | ⟨kind, hstage⟩
    · simp only [Ready, hstage] at hready
      exact hready.1
    · simpa only [Ready, hstage] using hready
  · intro hstage
    simp only [Ready, hstage] at hready
    obtain ⟨_, c, hnext, _⟩ := hready
    obtain ⟨after, hrest⟩ : ∃ after, rest = c :: after := List.head?_eq_some_iff.mp hnext
    refine ⟨c, after, hrest, ?_⟩
    rw [h.step_eq, hnext]
    by_cases hc : Role.of c = .separator
    · exact ⟨_, by rw [move_opening_separator hstage hc]⟩
    · exact ⟨_, by rw [move_opening_run hstage hc]⟩
  · intro hstage
    have hlog := h.log_eq
    simp only [Ready, owes, hstage, List.append_nil] at hready hlog
    refine ⟨hready, ?_, hlog⟩
    rw [h.lexed_eq, hlog, Lexed.ofEvents_log]

end Machine

/-- **The machine is safe, and it halts.** After any number of moves it has not broken, and its state
is told by what it has read: the offset is a place where the source can be looked into, the line and
the column are counted without overflow, and the buffer is empty or holds the last characters. And
in the end it has read the whole source, and found and told what `lex` and `log` say. -/
theorem machine_safe (source : String) :
    (∀ moves, ∃ done rest m,
      Machine.after source moves = some (done, m) ∧ m.Sound source done rest) ∧
    ∃ moves m, Machine.after source moves = some (source.toList, m) ∧ m.stage = .halted ∧
      m.lexed = lex source ∧ m.log = log source := by
  constructor
  · intro moves
    obtain ⟨done, rest, m, hafter, hkeeps⟩ := Machine.exists_after source moves
    exact ⟨done, rest, m, hafter, hkeeps.sound⟩
  · have hstart : Machine.after source 0 = some ([], Machine.start) := rfl
    obtain ⟨moves, done, rest, m, hafter, hkeeps, hstage⟩ :=
      (Machine.keeps_start source).exists_halted hstart
    obtain ⟨hrest, hlexed, hlog⟩ := hkeeps.sound.halted hstage
    have hdone : done = source.toList := by
      rw [hkeeps.source_eq, hrest, List.append_nil]
    exact ⟨moves, m, hdone ▸ hafter, hstage, hlexed, hlog⟩

/-- A run on the second line, just before the rules are asked about it. On the line above a run was
dropped whose character takes up two bytes, so the offset is ahead of the characters. -/
theorem machine_safe_second_line :
    Machine.after "é#b\nab(" 12 = some ("é#b\nab".toList,
        ⟨.judging, ⟨7, 2, 2⟩, 1, "ab", ⟨[], []⟩, [.dropped 1 "é"]⟩) ∧
      "ab".toList = "é#b\nab".toList.rtake (2 - 1 + 1) ∧
      "ab".toList <:+ Text.lastLine "é#b\nab".toList ∧
      Text.peek? "é#b\nab(" 7 = some (some '(') := by
  have hafter : Machine.after "é#b\nab(" 12 = some ("é#b\nab".toList,
      ⟨.judging, ⟨7, 2, 2⟩, 1, "ab", ⟨[], []⟩, [.dropped 1 "é"]⟩) := by decide +kernel
  obtain ⟨done, rest, m, hstate, hsound⟩ := (machine_safe "é#b\nab(").1 12
  rw [hafter, Option.some_inj, Prod.mk.injEq] at hstate
  obtain ⟨hdone, hm⟩ := hstate
  subst hdone hm
  obtain ⟨_, _, hlast, hline⟩ := hsound.buffered (Or.inl rfl)
  have hrest : rest = ['('] := List.append_cancel_left hsound.source_eq.symm
  have hpeek := hsound.peek?_eq
  rw [hrest] at hpeek
  exact ⟨hafter, hlast, hline, hpeek⟩

end Lexing
