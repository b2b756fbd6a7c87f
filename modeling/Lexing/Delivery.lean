import Lexing.Lexed
import Lexing.Utf8

/-!
# Sources that arrive as bytes

Bytes are lexed by decoding them first; a source that is no UTF-8 is refused before any of it is
lexed. Bytes that arrive in portions are gathered before they are decoded, so it does not matter
where one portion ends and the next begins, and a reader that fails is reported even if what it
delivered before is no UTF-8 either.
-/

namespace Lexing

/-- The source that is given as the bytes of its UTF-8 form. -/
def sourceOfBytes (bytes : List UInt8) : Except Fault String :=
  match Utf8.decode bytes with
  | .ok source => .ok source
  | .error fault => .error (.unreadable ("input is not UTF-8: " ++ fault.message))

/-- The tokens of a source given in UTF-8, or the first fault. -/
def lexBytes (bytes : List UInt8) : Except Fault (List Token) := do
  lexStrict (← sourceOfBytes bytes)

/-- What a reader answers when it is asked for more bytes. -/
inductive Delivery where
  /-- Some bytes; no bytes at all mean that the input is at its end. -/
  | portion (bytes : List UInt8)
  /-- Nothing, but asking again may help. -/
  | interruption
  /-- Nothing, and asking again is no use. -/
  | failure (reason : String)
deriving DecidableEq, Repr

/-- All bytes up to the end of the input, or the fault if the reader fails before. -/
def gather : List Delivery → Except Fault (List UInt8)
  | [] => .ok []
  | .portion [] :: _ => .ok []
  | .portion bytes :: rest => (gather rest).map (bytes ++ ·)
  | .interruption :: rest => gather rest
  | .failure reason :: _ => .error (.unreadable reason)

/-- The source that a reader delivers. Its bytes are decoded when the last of them is there. -/
def sourceOfDeliveries (deliveries : List Delivery) : Except Fault String := do
  let bytes ← gather deliveries
  (Utf8.decode bytes).mapError fun fault =>
    .unreadable ("input is not UTF-8: " ++ fault.message)

/-- The tokens of a source that a reader delivers, or the first fault. -/
def lexDeliveries (deliveries : List Delivery) : Except Fault (List Token) := do
  lexStrict (← sourceOfDeliveries deliveries)

end Lexing
