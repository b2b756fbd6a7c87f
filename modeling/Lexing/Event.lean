import Lexing.Lexed

/-!
# The log

Lexing keeps a log that accounts for every piece of the source, in the order of the source: which
rule recognized a run, each token, each stray, each run that was dropped with a comment, and last of
all how much there was.

What is logged of an event is an entry of two texts, the name of a level and a message. The first
word of a message tells what sort of event it is about, and the message names everything that
belongs to the event, so an entry can be read back (`Event.read?`).
-/

namespace Lexing

/-- Something that lexing tells of. -/
inductive Event where
  /-- A rule recognized a run. -/
  | recognized (rule : Rule) (text : String) (kind : Kind)
  | token (token : Token)
  /-- A run was recognized by no rule. -/
  | stray (stray : Stray)
  /-- A run was dropped with the comment that follows it. -/
  | dropped (line : Nat) (text : String)
  /-- The source is at its end: the last line, and how many tokens and strays there were. -/
  | finished (lines tokens strays : Nat)
deriving DecidableEq, Repr

/-- How much attention an event asks for. -/
inductive Level where
  /-- The course of things. -/
  | trace
  /-- Something that explains a result. -/
  | debug
deriving DecidableEq, Repr

/-- The name of a level in the log. -/
def Level.name : Level → String
  | .trace => "TRACE"
  | .debug => "DEBUG"

namespace Event

/-- What goes as expected is traced; what is set aside, dropped or summed up asks for more. -/
def level : Event → Level
  | .recognized .. | .token _ => .trace
  | .stray _ | .dropped .. | .finished .. => .debug

/-- The message of an event. -/
def message : Event → String
  | .recognized rule text kind =>
    rule.name ++ " classifier took " ++ Text.quote text ++ " as " ++ kind.name
  | .token t => t.kind.name ++ " " ++ Text.quote t.text ++ " at " ++ t.span.render
  | .stray s => "unrecognized text " ++ Text.quote s.text ++ " at " ++ s.span.render
  | .dropped line text =>
    "comment at line " ++ line.repr ++ " discards partial token " ++ Text.quote text
  | .finished lines tokens strays =>
    "scanned " ++ lines.repr ++ " lines: " ++ tokens.repr ++ " tokens, " ++ strays.repr ++
      " unrecognized"

/-- The entry that is logged for an event: the name of its level, and its message. -/
def entry (e : Event) : String × String := (e.level.name, e.message)

/-! ## Reading entries back -/

/-- Reads what follows the first word of the message for a recognized run. -/
def readRecognized? (rule : Rule) (rest : List Char) : Option Event := do
  let (text, rest) ← Text.unquote? (← Text.readText? "classifier took " rest)
  return .recognized rule text (← Kind.ofName? (String.ofList (← Text.readText? " as " rest)))

/-- Reads what follows the first word of the message for a token. -/
def readToken? (kind : Kind) (rest : List Char) : Option Event := do
  let (text, rest) ← Text.unquote? rest
  return .token ⟨kind, text, ← Span.parse? (← Text.readText? " at " rest)⟩

/-- Reads what follows the first word of the message for a stray. -/
def readStray? (rest : List Char) : Option Event := do
  let (text, rest) ← Text.unquote? (← Text.readText? "text " rest)
  return .stray ⟨text, ← Span.parse? (← Text.readText? " at " rest)⟩

/-- Reads what follows the first word of the message for a dropped run. -/
def readDropped? (rest : List Char) : Option Event := do
  let (line, rest) ← Text.readNat? (← Text.readText? "at line " rest)
  let (text, rest) ← Text.unquote? (← Text.readText? " discards partial token " rest)
  if rest.isEmpty then some (.dropped line text) else none

/-- Reads what follows the first word of the summary. -/
def readFinished? (rest : List Char) : Option Event := do
  let (lines, rest) ← Text.readNat? rest
  let (tokens, rest) ← Text.readNat? (← Text.readText? " lines: " rest)
  let (strays, rest) ← Text.readNat? (← Text.readText? " tokens, " rest)
  if (← Text.readText? " unrecognized" rest).isEmpty then some (.finished lines tokens strays)
  else none

/-- Reads what follows the given first word of a message. -/
def readAfter? (word : String) (rest : List Char) : Option Event :=
  match word with
  | "unrecognized" => readStray? rest
  | "comment" => readDropped? rest
  | "scanned" => readFinished? rest
  | name =>
    -- What is left are the names of rules and of kinds, and none of them is both.
    match Rule.ofName? name with
    | some rule => readRecognized? rule rest
    | none => (Kind.ofName? name).bind fun kind => readToken? kind rest

/-- The event that a message is about. -/
def ofMessage? (message : List Char) : Option Event := do
  let (word, rest) ← Text.readUntil? ' ' message
  readAfter? (String.ofList word) rest

/-- The event that an entry is about, if the entry names the level of that event. -/
def read? (entry : String × String) : Option Event :=
  (ofMessage? entry.2.toList).filter fun e => e.level.name == entry.1

theorem readAfter?_rule (rule : Rule) (rest : List Char) :
    readAfter? rule.name rest = readRecognized? rule rest := by
  cases rule <;> rfl

theorem readAfter?_kind (kind : Kind) (rest : List Char) :
    readAfter? kind.name rest = readToken? kind rest := by
  cases kind <;> rfl

/-- A message is read by its first word. -/
theorem ofMessage?_append {word : String} (h : ' ' ∉ word.toList) (rest : List Char) :
    ofMessage? (word.toList ++ ' ' :: rest) = readAfter? word rest := by
  rw [ofMessage?, Text.readUntil?_append h]
  simp only [Option.bind_eq_bind, Option.bind_some, String.ofList_toList]

theorem ofMessage?_recognized (rule : Rule) (text : String) (kind : Kind) :
    ofMessage? (recognized rule text kind).message.toList = some (recognized rule text kind) := by
  have hname : ' ' ∉ rule.name.toList := by cases rule <;> decide
  have hmessage : (recognized rule text kind).message.toList = rule.name.toList ++
      ' ' :: ("classifier took ".toList ++ ((Text.quote text).toList ++
        (" as ".toList ++ kind.name.toList))) := by
    have hblank : " classifier took ".toList = ' ' :: "classifier took ".toList := rfl
    change (_ ++ _ ++ _ ++ _ ++ _ : String).toList = _
    simp only [String.toList_append, List.append_assoc, hblank, List.cons_append]
  rw [hmessage, ofMessage?_append hname, readAfter?_rule, readRecognized?]
  simp only [Text.readText?_append, Text.unquote?_quote_append, String.ofList_toList,
    Kind.ofName?_name, Option.bind_eq_bind, Option.bind_some]
  rfl

theorem ofMessage?_token (t : Token) :
    ofMessage? (token t).message.toList = some (token t) := by
  have hname : ' ' ∉ t.kind.name.toList := by cases t.kind <;> decide
  have hmessage : (token t).message.toList = t.kind.name.toList ++
      ' ' :: ((Text.quote t.text).toList ++ (" at ".toList ++ t.span.render.toList)) := by
    have hblank : " ".toList = [' '] := rfl
    change (_ ++ _ ++ _ ++ _ ++ _ : String).toList = _
    simp only [String.toList_append, List.append_assoc, hblank, List.cons_append, List.nil_append]
  rw [hmessage, ofMessage?_append hname, readAfter?_kind, readToken?]
  simp only [Text.readText?_append, Text.unquote?_quote_append, Span.parse?_render,
    Option.bind_eq_bind, Option.bind_some]
  rfl

theorem ofMessage?_stray (s : Stray) :
    ofMessage? (stray s).message.toList = some (stray s) := by
  have hmessage : (stray s).message.toList = "unrecognized".toList ++
      ' ' :: ("text ".toList ++ ((Text.quote s.text).toList ++
        (" at ".toList ++ s.span.render.toList))) := by
    have hword : "unrecognized text ".toList = "unrecognized".toList ++ ' ' :: "text ".toList := rfl
    change (_ ++ _ ++ _ ++ _ : String).toList = _
    simp only [String.toList_append, List.append_assoc, hword, List.cons_append]
  rw [hmessage, ofMessage?_append (by decide)]
  change readStray? _ = _
  rw [readStray?]
  simp only [Text.readText?_append, Text.unquote?_quote_append, Span.parse?_render,
    Option.bind_eq_bind, Option.bind_some]
  rfl

theorem ofMessage?_dropped (line : Nat) (text : String) :
    ofMessage? (dropped line text).message.toList = some (dropped line text) := by
  have hmessage : (dropped line text).message.toList = "comment".toList ++
      ' ' :: ("at line ".toList ++ (Nat.toDigits 10 line ++
        (" discards partial token ".toList ++ ((Text.quote text).toList ++ [])))) := by
    have hword : "comment at line ".toList = "comment".toList ++ ' ' :: "at line ".toList := rfl
    change (_ ++ _ ++ _ ++ _ : String).toList = _
    simp only [String.toList_append, List.append_assoc, List.append_nil, Nat.toList_repr, hword,
      List.cons_append]
  have hline : " discards partial token ".toList.head? = some ' ' := rfl
  rw [hmessage, ofMessage?_append (by decide)]
  change readDropped? _ = _
  rw [readDropped?]
  simp only [Text.readText?_append, Text.readNat?_toDigits_text hline,
    Text.unquote?_quote_append, Option.bind_eq_bind, Option.bind_some]
  rfl

theorem ofMessage?_finished (lines tokens strays : Nat) :
    ofMessage? (finished lines tokens strays).message.toList =
      some (finished lines tokens strays) := by
  have hmessage : (finished lines tokens strays).message.toList = "scanned".toList ++
      ' ' :: (Nat.toDigits 10 lines ++ (" lines: ".toList ++ (Nat.toDigits 10 tokens ++
        (" tokens, ".toList ++ (Nat.toDigits 10 strays ++ (" unrecognized".toList ++ [])))))) := by
    have hword : "scanned ".toList = "scanned".toList ++ [' '] := rfl
    change (_ ++ _ ++ _ ++ _ ++ _ ++ _ : String).toList = _
    simp only [String.toList_append, List.append_assoc, List.append_nil, Nat.toList_repr, hword,
      List.cons_append, List.nil_append]
  have hlines : " lines: ".toList.head? = some ' ' := rfl
  have htokens : " tokens, ".toList.head? = some ' ' := rfl
  have hstrays : " unrecognized".toList.head? = some ' ' := rfl
  rw [hmessage, ofMessage?_append (by decide)]
  change readFinished? _ = _
  rw [readFinished?]
  simp only [Text.readNat?_toDigits_text hlines, Text.readNat?_toDigits_text htokens,
    Text.readNat?_toDigits_text hstrays, Text.readText?_append, Option.bind_eq_bind,
    Option.bind_some]
  rfl

/-- An event is read back from its message, whatever its texts hold. -/
theorem ofMessage?_message (e : Event) : ofMessage? e.message.toList = some e := by
  cases e with
  | recognized rule text kind => exact ofMessage?_recognized rule text kind
  | token t => exact ofMessage?_token t
  | stray s => exact ofMessage?_stray s
  | dropped line text => exact ofMessage?_dropped line text
  | finished lines tokens strays => exact ofMessage?_finished lines tokens strays

/-- So it is read back from its entry. -/
theorem read?_entry (e : Event) : read? e.entry = some e := by
  rw [read?, entry, ofMessage?_message, Option.filter_some, beq_self_eq_true, if_pos rfl]

/-! ## The log of a source -/

/-- The events that a piece gives rise to. -/
def ofPiece (p : Piece) : List Event :=
  match p.form with
  | .separator => [.token ⟨.separator, p.text, p.span⟩]
  | .run =>
    match Rule.recognize p.text with
    | some (rule, kind) => [.recognized rule p.text kind, .token ⟨kind, p.text, p.span⟩]
    | none => [.stray ⟨p.text, p.span⟩]
  | .dropped => [.dropped p.span.line p.text]

end Event

/-- The log of a source: the events of its pieces, and the summary. -/
def log (source : String) : List Event :=
  let pieces := Piece.ofSource source
  let lexed := Lexed.ofPieces pieces
  let lines := (Cursor.start.advanceAll source.toList).line
  pieces.flatMap Event.ofPiece ++ [.finished lines lexed.tokens.length lexed.strays.length]

/-- What is logged of a source. -/
def logged (source : String) : List (String × String) := (log source).map Event.entry

end Lexing
