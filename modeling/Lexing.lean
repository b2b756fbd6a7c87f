import Lexing.Event
import Lexing.Layout
import Lexing.Machine
import Lexing.Main
import Lexing.Piece.Agreement
import Lexing.Proofs.Account
import Lexing.Proofs.Arrival
import Lexing.Proofs.Concatenation
import Lexing.Proofs.Coverage
import Lexing.Proofs.Dropping
import Lexing.Proofs.Extension
import Lexing.Proofs.Grammar
import Lexing.Proofs.Location
import Lexing.Proofs.Moves
import Lexing.Proofs.Nearest
import Lexing.Proofs.Notation
import Lexing.Proofs.Output
import Lexing.Proofs.Positions
import Lexing.Proofs.Refusal
import Lexing.Proofs.Reports
import Lexing.Proofs.RoundTrip
import Lexing.Proofs.Rounding
import Lexing.Proofs.Runs
import Lexing.Proofs.Safety
import Lexing.Proofs.Segmentation
import Lexing.Proofs.Sequences
import Lexing.Proofs.Trivia
import Lexing.Proofs.Unreadable
import Lexing.Token.Value
import Lexing.Utf8.Encoding
import Lexing.Proofs.Literals
