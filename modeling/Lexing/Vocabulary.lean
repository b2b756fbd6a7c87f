/-!
# The vocabulary of the language

The fixed words and marks of the language, each list in the order in which it is shown to callers.
-/

namespace Lexing

/-- The words that the language reserves. -/
def keywords : List String :=
  ["if", "else", "elseif", "func", "return", "true", "false"]

/-- The operators. One is recognized only where it makes up a whole run of characters. -/
def operators : List String :=
  ["+", "-", "*", "/", "=", "==", "!", "!=", "||", "&&", ">", ">=", "<", "<="]

/-- The marks that are tokens by themselves, whatever stands beside them. -/
def separators : List Char :=
  ['(', ')', '{', '}', ';', ',']

/-- The mark that begins a comment, which goes on to the end of its line. -/
def commentMark : Char := '#'

end Lexing
