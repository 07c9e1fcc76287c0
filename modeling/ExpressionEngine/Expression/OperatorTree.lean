import ExpressionEngine.Expression.Basic

/-! Operator trees: elements, each over the operands that it is applied to. A tree is written with the
operands first, from left to right, so that at every moment the results of the operands already done wait for
those still to come. What this takes of a stack depends on the order of the operands. -/

namespace ExpressionEngine

variable {τ ν ε : Type}

inductive OperatorTree (τ ν ε : Type) where
  | node (e : Element τ ν ε) (operands : List (OperatorTree τ ν ε))

namespace OperatorTree

mutual

/-- The program: every element after its operands. -/
def postorder : OperatorTree τ ν ε → List (Node τ ν ε)
  | .node e operands => postorderOf operands ++ [.element e]

def postorderOf : List (OperatorTree τ ν ε) → List (Node τ ν ε)
  | [] => []
  | t :: rest => t.postorder ++ postorderOf rest

end

mutual

/-- Every element takes as many values as it has operands. -/
def HasArities : OperatorTree τ ν ε → Prop
  | .node e operands => e.inputs.length = operands.length ∧ HaveArities operands

def HaveArities : List (OperatorTree τ ν ε) → Prop
  | [] => True
  | t :: rest => t.HasArities ∧ HaveArities rest

end

/-- The most of all needs, when each is met above the results that wait below it: `waiting` results for
the first, and one more for each of the others. -/
def highest (waiting : Nat) (needs : List Nat) : Nat :=
  ((needs.zipIdx waiting).map fun slot => slot.2 + slot.1).foldr max 0

mutual

/-- The room that is needed on a stack: for the result, and for each operand above the results of those
before it. -/
def need : OperatorTree τ ν ε → Nat
  | .node _ operands => max 1 (highest 0 (needs operands))

def needs : List (OperatorTree τ ν ε) → List Nat
  | [] => []
  | t :: rest => t.need :: needs rest

end

@[simp] theorem highest_nil (waiting : Nat) : highest waiting [] = 0 := rfl

@[simp] theorem highest_cons (waiting n : Nat) (rest : List Nat) :
    highest waiting (n :: rest) = max (waiting + n) (highest (waiting + 1) rest) := rfl

/-- On a stack that holds something already, everything is higher by that. -/
theorem add_max_highest (height waiting n : Nat) (needs : List Nat) :
    height + max n (highest waiting needs) =
      max (height + n) (highest (height + waiting) needs) := by
  induction needs generalizing waiting n with
  | nil => simp
  | cons m rest ih =>
    have h := ih (waiting + 1) (max n (waiting + m))
    rw [← Nat.add_assoc] at h
    rw [highest_cons, highest_cons, ← Nat.max_assoc, h, ← Nat.add_max_add_left, Nat.max_assoc,
      ← Nat.add_assoc]

end OperatorTree

end ExpressionEngine
