import Sentential.Main
import Sentential.Formula.Substitution
import Sentential.Reading.Walk
import Sentential.Proofs.Reading.Written
import Sentential.Proofs.Table.Decision
import Sentential.Proofs.Table.Outcome
import Sentential.Proofs.Reading.Breach
import Sentential.Proofs.Reading.Walk
import Sentential.Proofs.Reading.Unfinished
import Sentential.Proofs.Reading.Session
import Sentential.Proofs.Table.Agreement
import Sentential.Proofs.Table.Equivalence
import Sentential.Fault
import Sentential.Reading.Descent
import Sentential.Proofs.Reading.Descent
import Sentential.Proofs.Reading.Course
import Sentential.Proofs.Reading.CallDepth
import Sentential.Proofs.Reading.Depth
import Sentential.Proofs.Reading.Resume
import Sentential.Proofs.Reading.Extension
import Sentential.Proofs.Table.Checked
import Sentential.Proofs.Assignment.Bindings
import Sentential.Proofs.Table.Enumeration
import Sentential.Proofs.Table.Analysis
import Sentential.Proofs.Token.Canonical
import Sentential.Proofs.Token.Alphabet
import Sentential.Proofs.Table.Invariance
import Sentential.Proofs.Table.Renaming
import Sentential.Proofs.Token.Rendering
import Sentential.Proofs.Reading.Replacement
import Sentential.Proofs.Reading.Splitting
import Sentential.Proofs.Table.Packing
import Sentential.Proofs.Table.Bitwise
import Sentential.Proofs.Assignment.Index
import Sentential.Proofs.Formula.Asking
import Sentential.Proofs.Formula.Collected
import Sentential.Proofs.Formula.Readability
import Sentential.Proofs.Reading.Consumed
import Sentential.Proofs.Table.Printed
import Sentential.Proofs.Table.Told
import Sentential.Proofs.CommandLine.Verdict
import Sentential.Proofs.Rejection.Wording
import Sentential.Proofs.Assignment.Collecting
