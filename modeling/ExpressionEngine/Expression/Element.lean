import ExpressionEngine.Types.TypeSet
import ExpressionEngine.Context.Signal
import ExpressionEngine.Fault.BuildError

/-! Elements: the tokens of an expression. Literals, operators and group delimiters are all
elements; what an element is for, how tightly it binds and which types it takes and gives is
declared, and what it computes is a function of the signal and its arguments. -/

namespace ExpressionEngine

variable {τ ν ε : Type}

/-- The part an element plays in infix order. -/
inductive ElementKind where
  | value | groupOpen | groupClose | operator
  deriving DecidableEq

namespace ElementKind

def code : ElementKind → UInt8
  | .value => 0
  | .groupOpen => 1
  | .groupClose => 2
  | .operator => 3

def ofCode (code : UInt8) : Except BuildError ElementKind :=
  match code.toNat with
  | 0 => .ok .value
  | 1 => .ok .groupOpen
  | 2 => .ok .groupClose
  | 3 => .ok .operator
  | _ => .error (.unknownKind code)

def display : ElementKind → String
  | .value => "value"
  | .groupOpen => "group-open"
  | .groupClose => "group-close"
  | .operator => "operator"

def debugText : ElementKind → String
  | .value => "Value"
  | .groupOpen => "GroupOpen"
  | .groupClose => "GroupClose"
  | .operator => "Operator"

theorem ofCode_code (k : ElementKind) : ofCode k.code = .ok k := by cases k <;> rfl

end ElementKind

/-- Which of two operators of equal precedence goes first. -/
inductive Associativity where
  | left | right
  deriving DecidableEq

namespace Associativity

instance : Inhabited Associativity := ⟨.left⟩

def debugText : Associativity → String
  | .left => "Left"
  | .right => "Right"

end Associativity

/-- What one execution of an element comes to: its values or its error, and whether it asked to
cancel the work. -/
structure Outcome (ν ε : Type) where
  result : Except ε (List ν)
  cancels : Bool := false

namespace Outcome

def values (vs : List ν) : Outcome ν ε := ⟨.ok vs, false⟩

def failure (e : ε) : Outcome ν ε := ⟨.error e, false⟩

/-- The same outcome, with a request to cancel. -/
def cancelling (o : Outcome ν ε) : Outcome ν ε := { o with cancels := true }

end Outcome

structure Element (τ ν ε : Type) where
  symbol : String
  kind : ElementKind := .value
  precedence : Int := 0
  associativity : Associativity := default
  /-- accepted types of every value taken, bottom-most first -/
  inputs : List (TypeSet τ) := []
  /-- possible types of every value given -/
  outputs : List (TypeSet τ) := []
  execute : Signal → List ν → Outcome ν ε

end ExpressionEngine
