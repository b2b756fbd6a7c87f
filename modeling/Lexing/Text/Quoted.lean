import Lexing.Text.Shapeless

/-!
# Quoted text

Messages show a text between quotation marks with its troublesome characters escaped, so that it
always fits on one line and its end can be told: a quotation mark inside the text never appears
bare. Each character is written on its own, whatever stands beside it, which is what makes the
quoted form readable from left to right.

`unquote?` is that reading, kept beside `quote` so that what a message shows can be taken back.
-/

namespace Lexing.Text

/-- The written form of one character inside quotation marks. -/
def escape (c : Char) : List Char :=
  match c with
  | '\x00' => ['\\', '0']
  | '\t' => ['\\', 't']
  | '\n' => ['\\', 'n']
  | '\r' => ['\\', 'r']
  | '"' => ['\\', '"']
  | '\\' => ['\\', '\\']
  | c => if isShapeless c then ['\\', 'u', '\x7b'] ++ Nat.toDigits 16 c.toNat ++ ['\x7d'] else [c]

/-- The text between quotation marks, each of its characters escaped where it has to be. -/
def quote (text : String) : String :=
  String.ofList ('"' :: text.toList.flatMap escape ++ ['"'])

/-- The character that a short escape stands for, by the letter after the backslash. -/
def ofShortEscape? : Char → Option Char
  | '0' => some '\x00'
  | 't' => some '\t'
  | 'n' => some '\n'
  | 'r' => some '\r'
  | '"' => some '"'
  | '\\' => some '\\'
  | _ => none

/-- The value of a hexadecimal digit; letters have to be small. -/
def hexValue? (c : Char) : Option Nat :=
  if c.isDigit then some (c.toNat - '0'.toNat)
  else if 'a' ≤ c ∧ c ≤ 'f' then some (c.toNat - 'a'.toNat + 10)
  else none

/-- How far the reading of an escape has got. -/
inductive Escape where
  /-- No escape has begun. -/
  | none
  /-- The backslash has been read. -/
  | begun
  /-- The letter that announces a code point has been read. -/
  | announced
  /-- The opening brace and some digits have been read, with the given value. -/
  | number (code : Nat)
deriving DecidableEq, Repr

/-- Reads up to the closing quotation mark: the characters before it, and what follows it. -/
def readQuoted : Escape → List Char → Option (List Char × List Char)
  | _, [] => Option.none
  | .none, c :: rest =>
    if c = '"' then some ([], rest)
    else if c = '\\' then readQuoted .begun rest
    else add c (readQuoted .none rest)
  | .begun, c :: rest =>
    if c = 'u' then readQuoted .announced rest
    else (ofShortEscape? c).bind fun d => add d (readQuoted .none rest)
  | .announced, c :: rest => if c = '\x7b' then readQuoted (.number 0) rest else Option.none
  | .number code, c :: rest =>
    if c = '\x7d' then add (Char.ofNat code) (readQuoted .none rest)
    else (hexValue? c).bind fun digit => readQuoted (.number (code * 16 + digit)) rest
where
  /-- Puts a character in front of what is read after it. -/
  add (c : Char) (read : Option (List Char × List Char)) : Option (List Char × List Char) :=
    read.map fun (chars, rest) => (c :: chars, rest)

/-- Reads a quoted text from the front: the text, and the characters after it. -/
def unquote? : List Char → Option (String × List Char)
  | '"' :: rest => (readQuoted .none rest).map fun (chars, rest) => (String.ofList chars, rest)
  | _ => none

/-! ## Code points -/

theorem hexValue?_digitChar {d : Nat} (h : d < 16) : hexValue? d.digitChar = some d := by
  revert d
  decide

theorem digitChar_ne_brace {d : Nat} (h : d < 16) : d.digitChar ≠ '\x7d' := by
  revert d
  decide

theorem readQuoted_digitChar {d : Nat} (h : d < 16) (code : Nat) (rest : List Char) :
    readQuoted (.number code) (d.digitChar :: rest) =
      readQuoted (.number (code * 16 + d)) rest := by
  rw [readQuoted, if_neg (digitChar_ne_brace h), hexValue?_digitChar h, Option.bind_some]

/-- The digits of a number are read as that number. -/
theorem readQuoted_toDigits (n : Nat) (rest : List Char) :
    readQuoted (.number 0) (Nat.toDigits 16 n ++ rest) = readQuoted (.number n) rest := by
  induction n using Nat.strongRecOn generalizing rest with
  | ind n ih =>
    by_cases h : n < 16
    · rw [Nat.toDigits_of_lt_base h, List.singleton_append, readQuoted_digitChar h, Nat.zero_mul,
        Nat.zero_add]
    · have hr : n % 16 < 16 := Nat.mod_lt n (by decide)
      rw [Nat.toDigits_of_base_le (by decide) (by omega), List.append_assoc, ih (n / 16) (by omega),
        List.singleton_append, readQuoted_digitChar hr, Nat.div_add_mod']

/-! ## Reading back what was quoted -/

/-- The written form of a character is read as that character, whatever follows. -/
theorem readQuoted_escape (c : Char) (rest : List Char) :
    readQuoted .none (escape c ++ rest) = readQuoted.add c (readQuoted .none rest) := by
  unfold escape
  split
  iterate 6 rfl
  · split
    · have hread := readQuoted_toDigits c.toNat ('\x7d' :: rest)
      rw [readQuoted, if_pos rfl, Char.ofNat_toNat] at hread
      simp [readQuoted, hread]
    · rename_i hquote hbackslash _
      rw [List.singleton_append, readQuoted, if_neg hquote, if_neg hbackslash]

/-- A quoted text is read back, and what follows it is left. -/
theorem unquote?_quote_append (text : String) (rest : List Char) :
    unquote? ((quote text).toList ++ rest) = some (text, rest) := by
  have hread : ∀ chars : List Char,
      readQuoted .none (chars.flatMap escape ++ '"' :: rest) = some (chars, rest) := by
    intro chars
    induction chars with
    | nil => rfl
    | cons c chars ih =>
      rw [List.flatMap_cons, List.append_assoc, readQuoted_escape, ih]
      rfl
  simp [quote, unquote?, hread]

example : quote "say \"hi\"\t\u00a0é" = "\"say \\\"hi\\\"\\t\\u\x7ba0\x7dé\"" := by decide +kernel

example : unquote? "\"a\\n\\u\x7b301\x7d\" at".toList = some ("a\n\u0301", " at".toList) := by
  decide

end Lexing.Text
