import Columnar.Expr.Text
import Columnar.Expr.WellFormed
import Columnar.Json.Decode
import Columnar.Json.Encode
import Columnar.Proofs.Batch.Representation
import Columnar.Proofs.Node.RowParts
import Columnar.Proofs.Reduction.Composition
import Columnar.Proofs.Reduction.Concurrency
import Columnar.Proofs.Reduction.FirstFailure
import Columnar.Proofs.Reduction.View
import Columnar.Proofs.Expr.Compilation
import Columnar.Proofs.Reduction.Aliases
import Columnar.Proofs.Batch.RoundTrip
import Columnar.Proofs.Batch.Cursor
import Columnar.Proofs.Text.Words
import Columnar.Proofs.Node.Keys
import Columnar.Proofs.Expr.Keys
import Columnar.Proofs.Reduction.Errors
import Columnar.Proofs.Reduction.RowOrder
import Columnar.Proofs.Reduction.Idempotence
import Columnar.Proofs.FloatingPoint.Conversion
import Columnar.Proofs.Value.Equality
import Columnar.Proofs.Value.Comparison
import Columnar.Proofs.Accumulator.Extreme
import Columnar.Proofs.Accumulator.Types
import Columnar.Proofs.Integers
import Columnar.Proofs.Node.Sums
import Columnar.Proofs.Node.FailedRows
import Columnar.Proofs.FloatingPoint.ShortestDecimal
import Columnar.Proofs.Text.Numerals
import Columnar.Proofs.Json.Reader
import Columnar.Proofs.Json.Values
import Columnar.Proofs.Json.Plans
import Columnar.Proofs.Failures.History
import Columnar.Proofs.Batch.Writing
import Columnar.Proofs.Reduction.PassThrough
import Columnar.Proofs.Reduction.Constants
