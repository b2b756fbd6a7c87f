import Lexing.Delivery
import Lexing.Listing

/-!
# The command line

The program reads a source from its standard input and prints the listing of its tokens, or else
reports the fault that it found. It prints no part of a listing if there is a fault.
-/

namespace Lexing

/-- What a run of the program leaves behind. -/
structure Outcome where
  exitCode : Nat
  output : String
  errors : String
deriving DecidableEq, Repr

/-- The outcome of a run whose standard input answers with the given deliveries. Two things are left
out. The program can be told by its environment to write its log to its standard error as well; here
it is told nothing, and then it writes none. And what it prints may not all be taken; here the
listing is printed whole. -/
def respond (deliveries : List Delivery) : Outcome :=
  match lexDeliveries deliveries with
  | .ok tokens => ⟨0, listing tokens, ""⟩
  | .error fault => ⟨1, "", fault.report.render ++ "\n"⟩

end Lexing
