import Lexing.CommandLine

/-!
# The program

Reads a source from standard input and prints the listing of its tokens.
-/

namespace Lexing

/-- Asks the stream for bytes until it is at its end or fails. -/
partial def deliveries (input : IO.FS.Stream) (done : Array Delivery) : IO (Array Delivery) := do
  match (← (input.read 65536).toBaseIO) with
  | .error fault => return done.push (.failure (toString fault))
  | .ok bytes =>
    if bytes.isEmpty then return done
    deliveries input (done.push (.portion bytes.toList))

end Lexing

def main : IO UInt32 := do
  let outcome := Lexing.respond (← Lexing.deliveries (← IO.getStdin) #[]).toList
  (← IO.getStdout).putStr outcome.output
  (← IO.getStderr).putStr outcome.errors
  return outcome.exitCode.toUInt32
