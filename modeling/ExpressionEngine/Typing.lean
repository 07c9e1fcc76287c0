import ExpressionEngine.Expression.Basic
import ExpressionEngine.Stack.Bounded
import ExpressionEngine.Types.Description

/-! The static check. A program is replayed over a stack that holds a set of types for every value;
what is left at the end are the types of the results. -/

namespace ExpressionEngine

variable {τ ν ε : Type} [Ty τ]

/-- The first slot that may hold something not accepted there, with what it was to accept. -/
def firstMismatch? (provided accepted : List (TypeSet τ)) : Option (TypeSet τ × TypeSet τ) :=
  (provided.zip accepted).find? fun slot => !slot.1.isCompatibleWith slot.2

/-- The slots after one node. Too few are reported before any that do not fit. -/
def Node.typeStep (n : Node τ ν ε) (slots : List (TypeSet τ)) :
    Except BuildError (List (TypeSet τ)) :=
  match splitTop? n.inputs.length slots with
  | none => .error (.arityUnderflow n.symbol n.inputs.length slots.length)
  | some (below, provided) =>
    match firstMismatch? provided n.inputs with
    | some (found, accepted) => .error (.typeMismatch n.symbol accepted.describe found.describe)
    | none => .ok (below ++ n.outputs)

/-- The slots after a program. -/
def typeCheck (slots : List (TypeSet τ)) :
    List (Node τ ν ε) → Except BuildError (List (TypeSet τ))
  | [] => .ok slots
  | n :: rest =>
    match n.typeStep slots with
    | .error e => .error e
    | .ok slots' => typeCheck slots' rest

@[simp] theorem typeCheck_nil (slots : List (TypeSet τ)) :
    typeCheck slots ([] : List (Node τ ν ε)) = .ok slots := rfl

theorem typeCheck_append (slots : List (TypeSet τ)) (p q : List (Node τ ν ε)) :
    typeCheck slots (p ++ q) = (typeCheck slots p).bind (typeCheck · q) := by
  induction p generalizing slots with
  | nil => rfl
  | cons n rest ih =>
    simp only [List.cons_append, typeCheck]
    cases n.typeStep slots with
    | error e => rfl
    | ok slots' => exact ih slots'

end ExpressionEngine
