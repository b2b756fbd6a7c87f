import Lexing.Text.Quoted
import Lexing.Token

/-!
# Faults

What can stop strict lexing, the message for each fault, and the report that a fault becomes where
only a category and a message can be handed on.

A message names its fault, and so does the line of a report: `Fault.ofMessage?` and `Fault.ofLine?`
read the fault back. The line of a report shows a text that was quoted in the message quoted once
more, and is read in the opposite order.
-/

namespace Lexing

/-- Why a source was refused. -/
inductive Fault where
  /-- The source could not be read as text, for the given reason. -/
  | unreadable (reason : String)
  /-- The source holds text that no rule recognizes. -/
  | unrecognized (stray : Stray)
deriving DecidableEq, Repr

/-- The message for a fault. An unrecognized text is quoted, so that the message is one line whatever
the text holds. -/
def Fault.message : Fault → String
  | .unreadable reason => "could not read source: " ++ reason
  | .unrecognized stray =>
    "unrecognized token " ++ Text.quote stray.text ++ " at " ++ stray.span.render

/-- The fault that a message tells of. -/
def Fault.ofMessage? (message : List Char) : Option Fault :=
  match Text.readText? "could not read source: " message with
  | some reason => some (.unreadable (String.ofList reason))
  | none => do
    let (text, rest) ← Text.unquote? (← Text.readText? "unrecognized token " message)
    return .unrecognized ⟨text, ← Span.parse? (← Text.readText? " at " rest)⟩

theorem Fault.message_unreadable (reason : String) :
    (unreadable reason).message = "could not read source: " ++ reason := rfl

theorem Fault.message_unrecognized (stray : Stray) :
    (unrecognized stray).message =
      "unrecognized token " ++ Text.quote stray.text ++ " at " ++ stray.span.render := rfl

/-- A fault is read back from its message, whatever its texts hold. -/
theorem Fault.ofMessage?_message (fault : Fault) :
    ofMessage? fault.message.toList = some fault := by
  cases fault with
  | unreadable reason =>
      rw [ofMessage?, message_unreadable, String.toList_append, Text.readText?_append]
      simp only [String.ofList_toList]
  | unrecognized stray =>
      have hmessage : (unrecognized stray).message.toList = "unrecognized token ".toList ++
          ((Text.quote stray.text).toList ++ (" at ".toList ++ stray.span.render.toList)) := by
        simp only [message_unrecognized, String.toList_append, List.append_assoc]
      have hother (rest : List Char) : Text.readText? "could not read source: "
          ("unrecognized token ".toList ++ rest) = none := rfl
      rw [ofMessage?, hmessage, hother]
      simp only [Text.readText?_append, Text.unquote?_quote_append, Span.parse?_render,
        Option.bind_eq_bind, Option.bind_some]
      rfl

/-- The category of a report. -/
inductive Category where
  /-- The input is no text, or could not be had. -/
  | invalidData
  /-- The input is a text, but not a source. -/
  | invalidInput
deriving DecidableEq, Repr

/-- The name of a category in a report. -/
def Category.name : Category → String
  | .invalidData => "InvalidData"
  | .invalidInput => "InvalidInput"

/-- The category with the given name. -/
def Category.ofName? : String → Option Category
  | "InvalidData" => some .invalidData
  | "InvalidInput" => some .invalidInput
  | _ => none

theorem Category.ofName?_name (category : Category) : ofName? category.name = some category := by
  cases category <;> rfl

/-- A fault as it is handed on to a caller that knows nothing of sources. -/
structure Report where
  category : Category
  message : String
deriving DecidableEq, Repr

/-- The report of a fault. The category already says that the input could not be read, so such a
fault hands on its bare reason. -/
def Fault.report (fault : Fault) : Report :=
  match fault with
  | .unreadable reason => ⟨.invalidData, reason⟩
  | .unrecognized _ => ⟨.invalidInput, fault.message⟩

/-- The fault that a report hands on. -/
def Fault.ofReport? : Report → Option Fault
  | ⟨.invalidData, reason⟩ => some (.unreadable reason)
  | ⟨.invalidInput, message⟩ => ofMessage? message.toList

theorem Fault.ofReport?_report (fault : Fault) : ofReport? fault.report = some fault := by
  cases fault with
  | unreadable reason => rfl
  | unrecognized stray => exact ofMessage?_message (.unrecognized stray)

/-- The written form of a report, on one line. -/
def Report.render (r : Report) : String :=
  "Error: Custom \x7b kind: " ++ r.category.name ++ ", error: " ++ Text.quote r.message ++ " \x7d"

/-- Reads the written form of a report that makes up the whole line. -/
def Report.parse? (line : List Char) : Option Report := do
  let (name, rest) ← Text.readUntil? ',' (← Text.readText? "Error: Custom \x7b kind: " line)
  let (message, rest) ← Text.unquote? (← Text.readText? " error: " rest)
  if rest = " \x7d".toList then some ⟨← Category.ofName? (String.ofList name), message⟩ else none

/-- A report is read back from its written form, whatever its message. -/
theorem Report.parse?_render (r : Report) : parse? r.render.toList = some r := by
  have hname : ',' ∉ r.category.name.toList := by cases r.category <;> decide
  have hline : r.render.toList = "Error: Custom \x7b kind: ".toList ++ (r.category.name.toList ++
      (", error: ".toList ++ ((Text.quote r.message).toList ++ " \x7d".toList))) := by
    change (_ ++ _ ++ _ ++ _ ++ _ : String).toList = _
    simp only [String.toList_append, List.append_assoc]
  have huntil (rest : List Char) : Text.readUntil? ','
      (r.category.name.toList ++ (", error: ".toList ++ rest)) =
        some (r.category.name.toList, " error: ".toList ++ rest) :=
    Text.readUntil?_append hname (" error: ".toList ++ rest)
  rw [parse?, hline]
  simp only [Text.readText?_append, huntil, Text.unquote?_quote_append, String.ofList_toList,
    Category.ofName?_name, Option.bind_eq_bind, Option.bind_some]
  rfl

/-- The fault that the line of a report tells of. -/
def Fault.ofLine? (line : List Char) : Option Fault := (Report.parse? line).bind ofReport?

theorem Fault.ofLine?_render_report (fault : Fault) :
    ofLine? fault.report.render.toList = some fault := by
  rw [ofLine?, Report.parse?_render, Option.bind_some, ofReport?_report]

end Lexing
