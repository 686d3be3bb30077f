import Abacus.Formula
import Abacus.Inspection
import Abacus.Proofs.Reading.Run
import Abacus.Proofs.Reading.Statements
import Abacus.Proofs.Reading.Memory
import Abacus.Proofs.Reading.Entries
import Abacus.Proofs.Reading.Grammar
import Abacus.Proofs.Reading.Overflow
import Abacus.Proofs.Chain
import Abacus.Proofs.Reading.Grouping
import Abacus.Proofs.Reading.Nesting
import Abacus.Proofs.Decimal.Written
import Abacus.Proofs.Reading.Lexemes
import Abacus.Proofs.Decimal.Value
import Abacus.Proofs.Decimal.Read
import Abacus.Proofs.Decimal.Literal
import Abacus.Proofs.Expr.Alike
import Abacus.Proofs.Reading.RoundTrip
import Abacus.Proofs.Decimal.Arithmetic
import Abacus.Proofs.Decimal.Rounding
import Abacus.Proofs.Decimal.Division
import Abacus.Proofs.Decimal.Whole
import Abacus.Proofs.Decimal.Congruence
import Abacus.Proofs.Evaluation.Steady
import Abacus.Proofs.Evaluation.Follows
import Abacus.Proofs.Evaluation.InfixValue
import Abacus.Proofs.Decimal.TrailingZeros
import Abacus.Proofs.Decimal.ScaleRange
import Abacus.Proofs.Decimal.NormalForm
import Abacus.Proofs.Decimal.Interchange
import Abacus.Proofs.Decimal.ExactQuotient
import Abacus.Proofs.Decimal.RoundingModes
import Abacus.Proofs.Decimal.Quotients
import Abacus.Proofs.Decimal.WholePower
import Abacus.Proofs.Decimal.SquareRoot
import Abacus.Proofs.Expr.Uses
import Abacus.Proofs.Value.Order
import Abacus.Proofs.Evaluation.Session
import Abacus.Proofs.Evaluation.Change
import Abacus.Proofs.Reading.Order
import Abacus.Proofs.Evaluation.Substitution
import Abacus.Proofs.Evaluation.Supply
import Abacus.Proofs.Reading.Viable
import Abacus.Proofs.Reading.Stuck
import Abacus.Proofs.Reading.Offence
import Abacus.Proofs.Reading.Appended
import Abacus.Proofs.Reading.Composition
import Abacus.Proofs.Evaluation.Composition
import Abacus.Proofs.Scope.Reachable
import Abacus.Proofs.Reading.Parentheses
import Abacus.Proofs.Formula.Operands
import Abacus.Proofs.Reading.LongestLexeme
import Abacus.Proofs.Reading.Tiling
import Abacus.Proofs.Reading.Literals
import Abacus.Proofs.Reading.Polish
import Abacus.Proofs.Reading.Spans
import Abacus.Proofs.Evaluation.Naming
import Abacus.Proofs.Decimal.RoundingOrder
import Abacus.Proofs.Decimal.Sums
import Abacus.Proofs.Value.Text
import Abacus.Proofs.Reading.Layout
import Abacus.Proofs.Decimal.Integers
import Abacus.Proofs.Value.Relations
import Abacus.Proofs.Decimal.ScaleWords
import Abacus.Proofs.Reading.Once
import Abacus.Proofs.Reading.Speculation
import Abacus.Proofs.Decimal.Stripping
