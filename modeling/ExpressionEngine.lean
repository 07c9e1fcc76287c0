import ExpressionEngine.Builder
import ExpressionEngine.Expression.Dump
import ExpressionEngine.Expression.Inline
import ExpressionEngine.Expression.Inspect
import ExpressionEngine.Expression.Reader
import ExpressionEngine.Fault.Report
import ExpressionEngine.Infix.InPlace
import ExpressionEngine.Infix.Numbering
import ExpressionEngine.Machine.Moment
import ExpressionEngine.Scalar.Behaviour
import ExpressionEngine.Stack.InPlace
import ExpressionEngine.Text.Pieces
import ExpressionEngine.Proofs.Compatibility
import ExpressionEngine.Proofs.Compiled
import ExpressionEngine.Proofs.Description
import ExpressionEngine.Proofs.Dump
import ExpressionEngine.Proofs.Infix.Compilation
import ExpressionEngine.Proofs.Infix.Conservation
import ExpressionEngine.Proofs.Infix.Delimiters
import ExpressionEngine.Proofs.Infix.Groups
import ExpressionEngine.Proofs.Infix.Likeness
import ExpressionEngine.Proofs.Infix.Placement
import ExpressionEngine.Proofs.Infix.Reading
import ExpressionEngine.Proofs.Infix.Refusal
import ExpressionEngine.Proofs.Infix.Sentence
import ExpressionEngine.Proofs.Infix.Splitting
import ExpressionEngine.Proofs.Infix.Typing
import ExpressionEngine.Proofs.Infix.Waiting
import ExpressionEngine.Proofs.Inlining.Execution
import ExpressionEngine.Proofs.Inlining.Typing
import ExpressionEngine.Proofs.Machine.Agreement
import ExpressionEngine.Proofs.Machine.Cancellation
import ExpressionEngine.Proofs.Machine.Counting
import ExpressionEngine.Proofs.Machine.Ensures
import ExpressionEngine.Proofs.Machine.Flow
import ExpressionEngine.Proofs.Machine.Frame
import ExpressionEngine.Proofs.Machine.Limit
import ExpressionEngine.Proofs.Machine.Need
import ExpressionEngine.Proofs.Machine.Order
import ExpressionEngine.Proofs.Machine.Parts
import ExpressionEngine.Proofs.Machine.Peak
import ExpressionEngine.Proofs.Machine.Soundness
import ExpressionEngine.Proofs.Recompilation
import ExpressionEngine.Proofs.Sequencing
import ExpressionEngine.Proofs.Stack
import ExpressionEngine.Proofs.Substitution
import ExpressionEngine.Proofs.Variance
import ExpressionEngine.Proofs.Verdict
