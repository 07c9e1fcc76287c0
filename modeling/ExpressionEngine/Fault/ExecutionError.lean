import ExpressionEngine.Text.DebugForm

/-! What can stop a run: the engine's own limits, or an element that fails with an error of the
type `ε` of its own, which is passed on as it is. -/

namespace ExpressionEngine

open Text

variable {ε : Type}

inductive ExecutionError (ε : Type) where
  /-- fewer values on the stack than the node takes -/
  | stackUnderflow (element : String) (required available : Nat)
  /-- the program left another number of values than was asked for -/
  | wrongResultArity (expected found : Nat)
  /-- the stack would hold `size` values, beyond its limit `max` -/
  | stackOverflow (size max : Nat)
  | element (error : ε)
  deriving DecidableEq

namespace ExecutionError

/-- The message, given the words for an element's own error. -/
def message (words : ε → String) : ExecutionError ε → String
  | .stackUnderflow symbol required available =>
    quote symbol ++ " needs " ++ toString required ++ " values, only " ++ toString available ++
      " available"
  | .wrongResultArity expected found =>
    "expected " ++ toString expected ++ " result value(s), got " ++ toString found
  | .stackOverflow size max =>
    "value stack overflow: " ++ toString size ++ " values exceed the maximum of " ++ toString max
  | .element error => words error

/-- The element's own error, if it was an element that failed. -/
def elementError? : ExecutionError ε → Option ε
  | .element error => some error
  | _ => none

/-- The debug form, given that of an element's own error. -/
def debugForm (form : ε → DebugForm) : ExecutionError ε → DebugForm
  | .stackUnderflow symbol required available =>
    .record "StackUnderflow" [.field "element" (.quoted symbol), .field "required" (.nat required),
      .field "available" (.nat available)]
  | .wrongResultArity expected found =>
    .record "WrongResultArity" [.field "expected" (.nat expected), .field "found" (.nat found)]
  | .stackOverflow size max =>
    .record "StackOverflow" [.field "size" (.nat size), .field "max" (.nat max)]
  | .element error => .tuple "Element" [form error]

end ExecutionError

end ExpressionEngine
