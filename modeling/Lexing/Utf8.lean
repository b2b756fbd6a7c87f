/-!
# UTF-8

A source arrives as bytes. Decoding either gives the characters that the bytes encode or says
exactly where and how they fail to encode any: at which byte the first bad sequence begins, and how
many bytes of it could still have been the beginning of a character.

The lead byte of a sequence settles everything about it: how many bytes follow, and which values the
second byte may take. The narrower ranges for the second byte keep out the sequences that are longer
than they need to be, the surrogates, and the code points beyond the last.
-/

namespace Lexing.Utf8

/-- What a lead byte announces. -/
structure Lead where
  /-- The bits of the code point that the lead byte itself holds. -/
  code : Nat
  /-- How many bytes follow. -/
  following : Nat
  /-- The least value of the second byte. -/
  low : Nat
  /-- The greatest value of the second byte. -/
  high : Nat
deriving DecidableEq, Repr

/-- What the given byte announces, if it can lead a sequence. -/
def Lead.of? (byte : UInt8) : Option Lead :=
  let b := byte.toNat
  if b < 0x80 then some ⟨b, 0, 0x80, 0xbf⟩
  else if b < 0xc2 then none
  else if b < 0xe0 then some ⟨b - 0xc0, 1, 0x80, 0xbf⟩
  else if b < 0xf0 then
    some ⟨b - 0xe0, 2, if b = 0xe0 then 0xa0 else 0x80, if b = 0xed then 0x9f else 0xbf⟩
  else if b < 0xf5 then
    some ⟨b - 0xf0, 3, if b = 0xf0 then 0x90 else 0x80, if b = 0xf4 then 0x8f else 0xbf⟩
  else none

/-- What stands at the front of a sequence of bytes. -/
inductive Front where
  /-- A character, and the bytes after it. -/
  | scalar (c : Char) (rest : List UInt8)
  /-- The beginning of a character, cut off by the end of the bytes. -/
  | truncated
  /-- No character. The given number of bytes could have begun one, or it is one if none could. -/
  | malformed (length : Nat)
deriving DecidableEq, Repr

/-- Reads the bytes that are still owed to a sequence. The next one has to lie between `low` and
`high`; `code` and `length` tell of the bytes read before it. -/
def readOwed (low high code length : Nat) : Nat → List UInt8 → Front
  | 0, rest => .scalar (Char.ofNat code) rest
  | _ + 1, [] => .truncated
  | owed + 1, byte :: rest =>
    if low ≤ byte.toNat ∧ byte.toNat ≤ high then
      readOwed 0x80 0xbf (code * 64 + (byte.toNat - 0x80)) (length + 1) owed rest
    else
      .malformed length

/-- Reads the sequence that the given byte begins. -/
def readFront (byte : UInt8) (rest : List UInt8) : Front :=
  match Lead.of? byte with
  | some lead => readOwed lead.low lead.high lead.code 1 lead.following rest
  | none => .malformed 1

theorem length_of_readOwed {low high code length owed : Nat} {bytes rest : List UInt8} {c : Char}
    (h : readOwed low high code length owed bytes = .scalar c rest) :
    rest.length ≤ bytes.length := by
  induction owed generalizing low high code length bytes with
  | zero => cases h; exact Nat.le_refl _
  | succ owed ih =>
    cases bytes with
    | nil => cases h
    | cons byte bytes =>
      rw [readOwed] at h
      split at h
      · exact Nat.le_succ_of_le (ih h)
      · cases h

/-- A character takes at least its lead byte. -/
theorem length_of_readFront {byte : UInt8} {bytes rest : List UInt8} {c : Char}
    (h : readFront byte bytes = .scalar c rest) : rest.length ≤ bytes.length := by
  unfold readFront at h
  split at h
  · exact length_of_readOwed h
  · cases h

/-- Why bytes are not the UTF-8 form of a text. -/
inductive Fault where
  /-- The bytes end inside the character that begins at the index. -/
  | truncated (index : Nat)
  /-- At the index stand as many bytes as given that begin no character. -/
  | malformed (length index : Nat)
deriving DecidableEq, Repr

/-- The message for a fault. -/
def Fault.message : Fault → String
  | .truncated index => "incomplete utf-8 byte sequence from index " ++ index.repr
  | .malformed length index =>
    "invalid utf-8 sequence of " ++ length.repr ++ " bytes from index " ++ index.repr

/-- Decodes the bytes from the given index on and adds their characters to those that are done. -/
def decodeFrom (index : Nat) (done : Array Char) (bytes : List UInt8) :
    Except Fault (Array Char) :=
  match bytes with
  | [] => .ok done
  | byte :: rest =>
    match _h : readFront byte rest with
    | .scalar c after => decodeFrom (index + c.utf8Size) (done.push c) after
    | .truncated => .error (.truncated index)
    | .malformed length => .error (.malformed length index)
termination_by bytes.length
decreasing_by exact Nat.lt_succ_of_le (length_of_readFront _h)

/-- The text that the bytes encode, or why they encode none. -/
def decode (bytes : List UInt8) : Except Fault String :=
  (decodeFrom 0 #[] bytes).map fun chars => String.ofList chars.toList

/-- The UTF-8 form of a text. -/
def encode (text : String) : List UInt8 := text.toList.flatMap String.utf8EncodeChar

end Lexing.Utf8
