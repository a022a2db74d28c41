import FlatScheme.Main
import FlatScheme.Shell.Completion
import FlatScheme.Proofs.Eval.Agreement
import FlatScheme.Proofs.Eval.Depth
import FlatScheme.Proofs.Eval.Frame
import FlatScheme.Proofs.Eval.Reference
import FlatScheme.Proofs.Eval.WellFormed
import FlatScheme.Proofs.Reader.RoundTrip
import FlatScheme.Proofs.Reader.Incomplete
import FlatScheme.Proofs.Shell.LineByLine
import FlatScheme.Proofs.Eval.Simulation
import FlatScheme.Proofs.Eval.Standard
import FlatScheme.Proofs.Eval.Closures
import FlatScheme.Proofs.Eval.Renaming
import FlatScheme.Proofs.Eval.Scope
import FlatScheme.Proofs.Eval.Repetition
import FlatScheme.Proofs.Eval.Termination
import FlatScheme.Proofs.Eval.Printable
import FlatScheme.Proofs.Reader.EndOfInput
import FlatScheme.Proofs.Reader.Grammar
import FlatScheme.Proofs.Reader.Between
import FlatScheme.Proofs.Reader.DatumComment
import FlatScheme.Proofs.Shell.Concatenation
import FlatScheme.Proofs.Reader.Delivery
import FlatScheme.Proofs.Shell.LineAndBatch
import FlatScheme.Proofs.Reader.StreamFailure
import FlatScheme.Proofs.Eval.Counter
import FlatScheme.Proofs.Eval.Unmentioned
import FlatScheme.Proofs.Number.Order
import FlatScheme.Proofs.Value.Equality
import FlatScheme.Proofs.Primitive.Division
import FlatScheme.Proofs.Primitive.Refusal
import FlatScheme.Proofs.Primitive.Comparison
import FlatScheme.Proofs.Primitive.Congruence
import FlatScheme.Proofs.Primitive.IntegerForm
import FlatScheme.Proofs.Reader.StringLiteral
import FlatScheme.Proofs.Text.Utf8
import FlatScheme.Proofs.Reader.Separators
import FlatScheme.Value.Output
import FlatScheme.Proofs.Value.FailingOutput
import FlatScheme.Proofs.Primitive.EmptyLists
import FlatScheme.Proofs.Text.ByteOrder
import FlatScheme.Proofs.Store.History
import FlatScheme.Proofs.Reader.LookAhead
import FlatScheme.Proofs.Reader.Progress
