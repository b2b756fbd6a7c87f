import Lexing.Token
import Lexing.Vocabulary

/-!
# Rules

Four rules recognize the runs of a source: words, numbers, operators and quoted strings. Each one
accepts a whole run or nothing, and no run is accepted by two of them, so the order in which they
are asked does not matter. It is fixed all the same, since the log names the rule that answered.
-/

namespace Lexing

/-- A rule that recognizes runs. -/
inductive Rule where
  /-- Names and reserved words. -/
  | word
  | number
  | operator
  | string
deriving DecidableEq, Repr

namespace Rule

/-- The name of a rule in the log. -/
def name : Rule → String
  | .word => "word"
  | .number => "number"
  | .operator => "operator"
  | .string => "string"

/-- The rule with the given name. -/
def ofName? : String → Option Rule
  | "word" => some .word
  | "number" => some .number
  | "operator" => some .operator
  | "string" => some .string
  | _ => none

theorem ofName?_name (rule : Rule) : ofName? rule.name = some rule := by
  cases rule <;> rfl

/-- A letter of ASCII or an underscore. -/
def startsWord (c : Char) : Bool := c.isAlpha || c == '_'

/-- A letter or digit of ASCII or an underscore. -/
def continuesWord (c : Char) : Bool := c.isAlphanum || c == '_'

/-- Letters, digits and underscores of ASCII, and no digit in front. -/
def isWord : List Char → Bool
  | [] => false
  | c :: rest => startsWord c && rest.all continuesWord

/-- The whole part of a number: a zero, or digits of which the first is not zero. -/
def isWholePart : List Char → Bool
  | [] => false
  | ['0'] => true
  | digits => digits.head? != some '0' && digits.all Char.isDigit

/-- The fraction of a number: nothing, or a point and at least one digit. -/
def isFraction : List Char → Bool
  | [] => true
  | c :: digits => c == '.' && !digits.isEmpty && digits.all Char.isDigit

/-- A whole part and a fraction; neither a sign nor an exponent. -/
def isNumber (text : List Char) : Bool :=
  isWholePart (text.takeWhile Char.isDigit) && isFraction (text.dropWhile Char.isDigit)

/-- At least two characters, with a quotation mark at each end. -/
def isString (text : List Char) : Bool :=
  2 ≤ text.length && text.head? == some '"' && text.getLast? == some '"'

/-- The kind that a rule gives to a run, if it accepts the run. -/
def kind? (rule : Rule) (text : String) : Option Kind :=
  match rule with
  | .word =>
    if isWord text.toList then some (if text ∈ keywords then .keyword else .identifier) else none
  | .number => if isNumber text.toList then some .literal else none
  | .operator => if text ∈ operators then some .operator else none
  | .string => if isString text.toList then some .literal else none

/-- The rules in the order in which they are asked. -/
def all : List Rule := [.word, .number, .operator, .string]

/-- The first of the given rules that accepts the run, and the kind that it gives. -/
def firstOf (rules : List Rule) (text : String) : Option (Rule × Kind) :=
  rules.findSome? fun rule => (rule.kind? text).map (rule, ·)

/-- The rule that recognizes the run, and the kind that it gives. -/
def recognize (text : String) : Option (Rule × Kind) := firstOf all text

example : recognize "0.50" = some (.number, .literal) := by decide
example : recognize "007" = none := by decide

end Rule

end Lexing
