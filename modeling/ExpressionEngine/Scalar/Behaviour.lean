import ExpressionEngine.Expression.Element
import ExpressionEngine.Scalar.Basic

/-! Ready-made behaviours of elements over scalars. Whole numbers are kept to 64 bits: a result that
does not fit is an error, and so are arguments that a behaviour has no use for. -/

namespace ExpressionEngine

/-- The whole numbers of 64 bits, sign included. -/
def FitsWord (n : Int) : Prop := -9223372036854775808 ≤ n ∧ n ≤ 9223372036854775807

instance (n : Int) : Decidable (FitsWord n) := inferInstanceAs (Decidable (_ ∧ _))

inductive Behaviour where
  /-- gives back what it was called with, as text, in the given number of copies -/
  | call (copies : Nat)
  | const (values : List Scalar)
  | arguments
  | reversed
  | fail (message : String)
  | add | sub | mul | div | neg | less
  | and | or | not
  | duplicate
  | coalesce
  | cancelled | expired | done
  | cancel
  /-- gives the values, unless the work should stop -/
  | guard (values : List Scalar)
  /-- accepts no arguments at all -/
  | undefined

namespace Behaviour

/-- A name followed by the arguments in parentheses. -/
def callText (symbol : String) (args : List Scalar) : String :=
  symbol ++ "(" ++ ",".intercalate (args.map Scalar.describe) ++ ")"

/-- The text once, or numbered copies of it. -/
def copiesOf (text : String) : Nat → List Scalar
  | 1 => [.text text]
  | n => (List.range n).map fun i => .text (text ++ "#" ++ toString i)

def whole (symbol : String) (n : Int) : Outcome Scalar String :=
  if FitsWord n then .values [.int n] else .failure (symbol ++ ": overflow")

/-- What the behaviour does with its arguments, bottom-most first. -/
def execute (symbol : String) : Behaviour → Signal → List Scalar → Outcome Scalar String
  | .call copies, _, args => .values (copiesOf (callText symbol args) copies)
  | .const values, _, _ => .values values
  | .arguments, _, args => .values args
  | .reversed, _, args => .values args.reverse
  | .fail message, _, _ => .failure message
  | .add, _, [.int a, .int b] => whole symbol (a + b)
  | .sub, _, [.int a, .int b] => whole symbol (a - b)
  | .mul, _, [.int a, .int b] => whole symbol (a * b)
  | .div, _, [.int a, .int b] =>
    if b = 0 then .failure "division by zero" else whole symbol (a.tdiv b)
  | .neg, _, [.int a] => whole symbol (-a)
  | .less, _, [.int a, .int b] => .values [.bool (a < b)]
  | .and, _, [.bool a, .bool b] => .values [.bool (a && b)]
  | .or, _, [.bool a, .bool b] => .values [.bool (a || b)]
  | .not, _, [.bool a] => .values [.bool !a]
  | .duplicate, _, [a] => .values [a, a]
  | .coalesce, _, [a, b] => .values [if a = .nil then b else a]
  | .cancelled, s, _ => .values [.bool s.cancelled]
  | .expired, s, _ => .values [.bool s.expired]
  | .done, s, _ => .values [.bool s.done]
  | .cancel, _, args => (Outcome.values args).cancelling
  | .guard values, s, _ => if s.done then .failure "cancelled" else .values values
  | _, _, _ => .failure (symbol ++ ": bad arguments")

example : (execute "f" (.call 2) {} [.nil, .int (-1)]).result.toOption =
    some [.text "f(nil,-1)#0", .text "f(nil,-1)#1"] := by decide +kernel

example : (execute "/" .div {} [.int (-7), .int 2]).result.toOption = some [.int (-3)] := by
  decide +kernel

end Behaviour

end ExpressionEngine
