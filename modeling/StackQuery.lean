import StackQuery.CommandLine
import StackQuery.Main
import StackQuery.Proofs.Number.Order
import StackQuery.SharedList
import StackQuery.Proofs.Value.Order
import StackQuery.Proofs.Solutions.Alike
import StackQuery.Proofs.Solutions.Sequence
import StackQuery.Proofs.Operator.DepthFirst
import StackQuery.Proofs.Evaluation.Locality
import StackQuery.Proofs.Reading.Termination
import StackQuery.Proofs.Reading.StoredLists
import StackQuery.Proofs.CommandQueue.Stopping
import StackQuery.Proofs.Command.OneByOne
import StackQuery.Proofs.Library.Agreement
import StackQuery.Proofs.Session.Layers
import StackQuery.Proofs.Session.DefinedNames
import StackQuery.Proofs.Line.Endings
import StackQuery.Proofs.Line.WrittenForms
import StackQuery.Proofs.Library.Additions
import StackQuery.Proofs.Session.Uncovering
import StackQuery.Proofs.Command.Leftovers
import StackQuery.Proofs.Sink.Accounting
import StackQuery.Proofs.Evaluation.Substitution
import StackQuery.Proofs.Evaluation.StoreFailures
import StackQuery.Proofs.Streams.Places
import StackQuery.Proofs.Solutions.Laziness
import StackQuery.Proofs.Operator.Application
import StackQuery.Proofs.Solutions.Distinct
import StackQuery.Proofs.Operator.Undoing
import StackQuery.Proofs.Command.Abort
import StackQuery.Proofs.Library.Atomicity
import StackQuery.Proofs.Operator.Inversion
import StackQuery.Proofs.CommandQueue.Failures
import StackQuery.Proofs.Reading.Coercions
import StackQuery.Proofs.Library.Conversions
import StackQuery.Proofs.Number.ExactValue
import StackQuery.Proofs.Number.Arithmetic
import StackQuery.Proofs.Library.Truncation
import StackQuery.Proofs.Value.IntegerLiterals
import StackQuery.Proofs.CommandQueue.Vigil
import StackQuery.Proofs.Solutions.Ranks
