import Unlambda.Main
import Unlambda.Machine.Log
import Unlambda.Playground
import Unlambda.Value.Sameness
import Unlambda.Proofs.Machine.Extension
import Unlambda.Proofs.Machine.Capture
import Unlambda.Proofs.Natural.Machine
import Unlambda.Proofs.Machine.Limit
import Unlambda.Proofs.Machine.Similarity
import Unlambda.Proofs.Machine.Unseen
import Unlambda.Proofs.Machine.Reproduction
import Unlambda.Proofs.Machine.Transparency
import Unlambda.Proofs.Machine.Combinators
import Unlambda.Proofs.Machine.Credit
import Unlambda.Proofs.Machine.Printing
import Unlambda.Proofs.Natural.Numerals
import Unlambda.Proofs.Expression.RoundTrip
import Unlambda.Proofs.Expression.ValidPrefix
import Unlambda.Proofs.Expression.Truncation
import Unlambda.Proofs.Expression.Descent
import Unlambda.Proofs.Expression.Balance
import Unlambda.Proofs.Source.Bookkeeping
import Unlambda.Proofs.Machine.Journal
import Unlambda.Proofs.CommandLine.Agreement
import Unlambda.Proofs.Worklist
import Unlambda.Proofs.Expression.Sameness
import Unlambda.Proofs.Value.Sameness
import Unlambda.Proofs.Text.Lines
import Unlambda.Proofs.CommandLine.Session
