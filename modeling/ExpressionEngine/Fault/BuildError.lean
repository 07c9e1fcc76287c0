import ExpressionEngine.Text.DebugForm

/-! What can be wrong with an expression while it is put together. Each cause has its message, its
diagnostic code and, for most, a line of help. -/

namespace ExpressionEngine

open Text

inductive BuildError where
  | unbalancedGroup (delimiter : String)
  | unknownKind (code : UInt8)
  | arityUnderflow (element : String) (required available : Nat)
  | typeMismatch (element required provided : String)
  deriving DecidableEq

namespace BuildError

def message : BuildError → String
  | .unbalancedGroup delimiter => "unbalanced group: " ++ quote delimiter ++ " has no matching delimiter"
  | .unknownKind code => "unknown element kind #" ++ toString code.toNat
  | .arityUnderflow element required available =>
    "inconsistent expression: " ++ quote element ++ " needs " ++ toString required ++
      " entries, only " ++ toString available ++ " available"
  | .typeMismatch element required provided =>
    "inconsistent expression: " ++ quote element ++ " needs " ++ required ++ ", got " ++ provided

def code : BuildError → String
  | .unbalancedGroup _ => "shuntyard::unbalanced_group"
  | .unknownKind _ => "shuntyard::unknown_kind"
  | .arityUnderflow .. => "shuntyard::arity_underflow"
  | .typeMismatch .. => "shuntyard::type_mismatch"

def help : BuildError → Option String
  | .unbalancedGroup _ =>
    some "every group-open element needs a later group-close element, and vice versa"
  | .unknownKind _ =>
    some "valid kinds are value (0), group-open (1), group-close (2) and operator (3)"
  | .arityUnderflow .. => none
  | .typeMismatch .. => some "every type the operand may produce must be accepted by the element"

def debugForm : BuildError → DebugForm
  | .unbalancedGroup delimiter => .record "UnbalancedGroup" [.field "delimiter" (.quoted delimiter)]
  | .unknownKind code => .record "UnknownKind" [.field "code" (.nat code.toNat)]
  | .arityUnderflow element required available =>
    .record "ArityUnderflow" [.field "element" (.quoted element), .field "required" (.nat required),
      .field "available" (.nat available)]
  | .typeMismatch element required provided =>
    .record "TypeMismatch" [.field "element" (.quoted element),
      .field "required" (.quoted required), .field "provided" (.quoted provided)]

end BuildError

end ExpressionEngine
