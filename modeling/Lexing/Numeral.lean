/-!
# Numerals

A numeral is a number in decimal notation: a sign, digits with at most one point among them, and a
power of ten, or else one of the words for infinity and for a value that is no number. Reading one
keeps its value exactly: the digits become one natural number and the point moves into the exponent.
-/

namespace Lexing

/-- The number that a numeral stands for. -/
inductive Numeral where
  /-- The number `digits * 10 ^ exponent`, or its opposite. -/
  | finite (negative : Bool) (digits : Nat) (exponent : Int)
  /-- Infinity or its opposite. -/
  | infinity (negative : Bool)
  /-- The value that is no number, with the sign that was written. -/
  | nan (negative : Bool)
deriving DecidableEq, Repr

namespace Numeral

/-- Takes a sign off the front. The flag tells whether it was a minus. -/
def splitSign : List Char → Bool × List Char
  | '-' :: rest => (true, rest)
  | '+' :: rest => (false, rest)
  | rest => (false, rest)

/-- The exponent that the end of a numeral writes: none at all, which counts as zero, or the letter
`e` in either case, a sign that may be missing, and at least one digit. -/
def exponent? : List Char → Option Int
  | [] => some 0
  | mark :: rest =>
    let (negative, digits) := splitSign rest
    if (mark = 'e' ∨ mark = 'E') ∧ digits ≠ [] ∧ digits.all Char.isDigit then
      let size : Int := Nat.ofDigitChars 10 digits 0
      some (if negative then -size else size)
    else
      none

/-- Digits with at most one point before, among or after them, and an exponent: the digits as one
number, and the power of ten that belongs to the last of them. -/
def magnitude? (text : List Char) : Option (Nat × Int) :=
  let whole := text.takeWhile Char.isDigit
  let rest := text.dropWhile Char.isDigit
  let (fraction, rest) :=
    match rest with
    | '.' :: rest => (rest.takeWhile Char.isDigit, rest.dropWhile Char.isDigit)
    | rest => ([], rest)
  if whole = [] ∧ fraction = [] then
    none
  else
    (exponent? rest).map fun exponent =>
      (Nat.ofDigitChars 10 (whole ++ fraction) 0, exponent - fraction.length)

/-- Reads a numeral that makes up the whole text. The words may be written in either case. -/
def parse? (text : List Char) : Option Numeral :=
  let (negative, rest) := splitSign text
  let word := rest.map Char.toLower
  if word = "inf".toList ∨ word = "infinity".toList then
    some (.infinity negative)
  else if word = "nan".toList then
    some (.nan negative)
  else
    (magnitude? rest).map fun (digits, exponent) => .finite negative digits exponent

example : parse? "-3.25e1".toList = some (.finite true 325 (-1)) := by decide

end Numeral

end Lexing
