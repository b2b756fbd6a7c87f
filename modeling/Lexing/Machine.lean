import Lexing.Event

/-!
# Lexing as a machine

The cutter says which piece is complete in front of which character, and keeps no more than it takes
to say so. The machine is the program that does the work with a single buffer. It holds a source in
UTF-8 and the offset of the next unread byte, counts lines and columns as it reads, and runs through
nested loops: turn by turn it skips a gap, comment by comment, and then takes a piece into the
buffer. Behind a loop the buffer is handed on, to the rules or straight into a token.

Each move looks at no more than the next character and reads no more than that. Looking is where the
machine could break: a text can be looked into only where one of its characters begins or at its
end, so an offset that went wrong would leave it without a move.
-/

namespace Lexing

/-- The character at an offset into the UTF-8 form of a text, if the text goes on there. There is no
answer at all if the offset is past the end or inside a character. -/
def Text.peek? (text : String) (offset : Nat) : Option (Option Char) :=
  (text.pos? ⟨offset⟩).map fun position => position.get?

/-- Where the machine stands in its program. -/
inductive Stage where
  /-- A turn begins. -/
  | turn
  /-- A gap is being skipped, and the next character decides whether it goes on. -/
  | skipping
  /-- A comment is being skipped. If it dropped a run the turn is over behind it, and otherwise the
  gap goes on. -/
  | comment (dropped : Bool)
  /-- The gap is over, and a piece begins with the next character. -/
  | opening
  /-- A run is being taken into the buffer, and the next character decides whether it goes on. -/
  | filling
  /-- A run is complete, and the rules are asked about it. -/
  | judging
  /-- The text in the buffer becomes a token of the given kind. -/
  | issuing (kind : Kind)
  /-- The source is at its end and everything is done. -/
  | halted
deriving DecidableEq, Repr

/-- The machine at work on a source. -/
structure Machine where
  stage : Stage
  /-- How far reading has got. -/
  cursor : Cursor
  /-- The column in which the text in the buffer began, or the text last in it. -/
  first : Nat
  /-- The text of the piece that is open. -/
  buffer : String
  /-- What was found so far. -/
  lexed : Lexed
  /-- What was told so far. -/
  log : List Event
deriving DecidableEq, Repr

namespace Machine

/-- The machine before its first move. -/
def start : Machine := ⟨.turn, .start, 0, "", ⟨[], []⟩, []⟩

/-- Where the text in the buffer sits, if the character read last is its last one. -/
def span (m : Machine) : Span := ⟨m.cursor.line, m.first, m.cursor.column⟩

/-- Goes to another stage. -/
def goTo (m : Machine) (stage : Stage) : Machine := { m with stage := stage }

/-- Reads a character. -/
def read (m : Machine) (c : Char) : Machine := { m with cursor := m.cursor.advance c }

/-- Puts something into the log. -/
def tell (m : Machine) (event : Event) : Machine := { m with log := m.log ++ [event] }

/-- Begins a piece with the character just read. -/
def begin (m : Machine) (c : Char) : Machine :=
  { m with first := m.cursor.column, buffer := m.buffer.push c }

/-- Takes the character just read into the buffer. -/
def take (m : Machine) (c : Char) : Machine := { m with buffer := m.buffer.push c }

/-- Throws away the text in the buffer, and begins to skip the comment that touches it. -/
def drop (m : Machine) : Machine :=
  { m.tell (.dropped m.cursor.line m.buffer) with buffer := "", stage := .comment true }

/-- Sets the text in the buffer aside, which ends the turn. -/
def setAside (m : Machine) : Machine :=
  let stray : Stray := ⟨m.buffer, m.span⟩
  { m.tell (.stray stray) with
    buffer := "", stage := .turn, lexed := ⟨m.lexed.tokens, m.lexed.strays ++ [stray]⟩ }

/-- Makes a token of the text in the buffer, which ends the turn. -/
def issue (m : Machine) (kind : Kind) : Machine :=
  let token : Token := ⟨kind, m.buffer, m.span⟩
  { m.tell (.token token) with
    buffer := "", stage := .turn, lexed := ⟨m.lexed.tokens ++ [token], m.lexed.strays⟩ }

/-- Sums up and stops. -/
def halt (m : Machine) : Machine :=
  (m.tell (.finished m.cursor.line m.lexed.tokens.length m.lexed.strays.length)).goTo .halted

/-- One move, in front of the given character or of the end of the source: the character that it
reads, if it reads one, and the machine after it. -/
def move (m : Machine) (next : Option Char) : Option Char × Machine :=
  match m.stage, next with
  | .turn, _ => (none, m.goTo .skipping)
  | .skipping, none => (none, m.halt)
  | .skipping, some c =>
    match Role.of c with
    | .mark => (none, m.goTo (.comment false))
    | .blank => (some c, m.read c)
    | .separator | .plain => (none, m.goTo .opening)
  | .comment dropped, none => (none, m.goTo (behind dropped))
  | .comment dropped, some c =>
    if c = '\n' then (some c, (m.read c).goTo (behind dropped)) else (some c, m.read c)
  | .opening, none => (none, m.halt)
  | .opening, some c =>
    let begun := (m.read c).begin c
    (some c, begun.goTo (if Role.of c = .separator then .issuing .separator else .filling))
  | .filling, none => (none, m.goTo .judging)
  | .filling, some c =>
    match Role.of c with
    | .blank | .separator => (none, m.goTo .judging)
    | .mark => (none, m.drop)
    | .plain => (some c, (m.read c).take c)
  | .judging, _ =>
    match Rule.recognize m.buffer with
    | some (rule, kind) => (none, (m.tell (.recognized rule m.buffer kind)).goTo (.issuing kind))
    | none => (none, m.setAside)
  | .issuing kind, _ => (none, m.issue kind)
  | .halted, _ => (none, m)
where
  /-- What comes behind a comment. -/
  behind (dropped : Bool) : Stage := if dropped then .turn else .skipping

/-! ## What each move does

These are proved by unfolding, as the equations that `simp [move]` would use take long to work out. -/

section

variable {m : Machine} {c : Char}

theorem move_turn (h : m.stage = .turn) (next : Option Char) :
    m.move next = (none, m.goTo .skipping) := by
  unfold move
  rw [h]

theorem move_skipping_none (h : m.stage = .skipping) : m.move none = (none, m.halt) := by
  unfold move
  rw [h]

theorem move_skipping_blank (h : m.stage = .skipping) (hc : Role.of c = .blank) :
    m.move (some c) = (some c, m.read c) := by
  unfold move
  rw [h]
  dsimp only
  rw [hc]

theorem move_skipping_mark (h : m.stage = .skipping) (hc : Role.of c = .mark) :
    m.move (some c) = (none, m.goTo (.comment false)) := by
  unfold move
  rw [h]
  dsimp only
  rw [hc]

theorem move_skipping_piece (h : m.stage = .skipping)
    (hc : Role.of c = .separator ∨ Role.of c = .plain) :
    m.move (some c) = (none, m.goTo .opening) := by
  unfold move
  rw [h]
  dsimp only
  rcases hc with hc | hc
  · rw [hc]
  · rw [hc]

theorem move_comment_none {dropped : Bool} (h : m.stage = .comment dropped) :
    m.move none = (none, m.goTo (move.behind dropped)) := by
  unfold move
  rw [h]

theorem move_comment_newline {dropped : Bool} (h : m.stage = .comment dropped) :
    m.move (some '\n') = (some '\n', (m.read '\n').goTo (move.behind dropped)) := by
  unfold move
  rw [h]
  dsimp only
  rw [if_pos rfl]

theorem move_comment_some {dropped : Bool} (h : m.stage = .comment dropped) (hc : c ≠ '\n') :
    m.move (some c) = (some c, m.read c) := by
  unfold move
  rw [h]
  dsimp only
  rw [if_neg hc]

theorem move_opening_none (h : m.stage = .opening) : m.move none = (none, m.halt) := by
  unfold move
  rw [h]

theorem move_opening_separator (h : m.stage = .opening) (hc : Role.of c = .separator) :
    m.move (some c) = (some c, ((m.read c).begin c).goTo (.issuing .separator)) := by
  unfold move
  rw [h]
  dsimp only
  rw [if_pos hc]

theorem move_opening_run (h : m.stage = .opening) (hc : Role.of c ≠ .separator) :
    m.move (some c) = (some c, ((m.read c).begin c).goTo .filling) := by
  unfold move
  rw [h]
  dsimp only
  rw [if_neg hc]

theorem move_filling_closed (h : m.stage = .filling) {next : Option Char}
    (hnext : Form.ofNext? next = some .run) : m.move next = (none, m.goTo .judging) := by
  unfold move
  rw [h]
  cases next with
  | none => rfl
  | some c =>
      dsimp only
      cases hc : Role.of c with
      | blank => rfl
      | separator => rfl
      | mark => simp [Form.ofNext?, hc] at hnext
      | plain => simp [Form.ofNext?, hc] at hnext

theorem move_filling_mark (h : m.stage = .filling) (hc : Role.of c = .mark) :
    m.move (some c) = (none, m.drop) := by
  unfold move
  rw [h]
  dsimp only
  rw [hc]

theorem move_filling_plain (h : m.stage = .filling) (hc : Role.of c = .plain) :
    m.move (some c) = (some c, (m.read c).take c) := by
  unfold move
  rw [h]
  dsimp only
  rw [hc]

theorem move_judging_some (h : m.stage = .judging) {rule : Rule} {kind : Kind}
    (hrule : Rule.recognize m.buffer = some (rule, kind)) (next : Option Char) :
    m.move next = (none, (m.tell (.recognized rule m.buffer kind)).goTo (.issuing kind)) := by
  unfold move
  rw [h]
  dsimp only
  rw [hrule]

theorem move_judging_none (h : m.stage = .judging) (hrule : Rule.recognize m.buffer = none)
    (next : Option Char) : m.move next = (none, m.setAside) := by
  unfold move
  rw [h]
  dsimp only
  rw [hrule]

theorem move_issuing {kind : Kind} (h : m.stage = .issuing kind) (next : Option Char) :
    m.move next = (none, m.issue kind) := by
  unfold move
  rw [h]

theorem move_halted (h : m.stage = .halted) (next : Option Char) : m.move next = (none, m) := by
  unfold move
  rw [h]

end

/-! ## Moves on a source -/

/-- One move on a source. There is none if the machine cannot look into the source. -/
def step (source : String) (m : Machine) : Option (Option Char × Machine) :=
  (Text.peek? source m.cursor.offset).map m.move

/-- The characters that have been read in so many moves, and the machine after them. -/
def after (source : String) : Nat → Option (List Char × Machine)
  | 0 => some ([], start)
  | moves + 1 => do
    let (done, m) ← after source moves
    let (read?, m) ← m.step source
    return (done ++ read?.toList, m)

end Machine

end Lexing
