import Lexing.Binary64
import Lexing.Token

/-!
# The values of literals

A literal in quotation marks stands for the text between them, taken as it is: nothing is escaped.
Any other literal stands for a number if it reads as a numeral.
-/

namespace Lexing

/-- What a literal stands for. -/
inductive Value where
  | number (value : Binary64)
  | string (contents : String)
deriving DecidableEq, Repr

/-- The text between the quotation marks at both ends, if there is one at both. -/
def unwrapQuotes? : List Char → Option (List Char)
  | '"' :: rest => if rest.getLast? = some '"' then some rest.dropLast else none
  | _ => none

/-- The value of a token. Only a literal has one, and not every literal does: a caller may build
one from any text. -/
def Token.value? (t : Token) : Option Value :=
  if t.kind = .literal then
    match unwrapQuotes? t.text.toList with
    | some contents => some (.string (String.ofList contents))
    | none => (Numeral.parse? t.text.toList).map fun n => .number (.ofNumeral n)
  else
    none

end Lexing
