import ExpressionEngine.Machine.Execution

/-! Infix trees: what an infix sequence stands for. A tree is written by listing its tokens from left
to right, and its program lists every operator after its operands. Which operators a neighbour can
reach from the left or from the right are the tree's edges; a group shields what it holds. -/

namespace ExpressionEngine

variable {τ ν ε : Type}

inductive InfixTree (τ ν ε : Type) where
  | leaf (n : Node τ ν ε)
  | group (opener : Node τ ν ε) (inner : InfixTree τ ν ε) (closer : Node τ ν ε)
  | unary (o : Node τ ν ε) (operand : InfixTree τ ν ε)
  | binary (o : Node τ ν ε) (left right : InfixTree τ ν ε)

namespace InfixTree

/-- The tokens in infix order. -/
def tokens : InfixTree τ ν ε → List (Node τ ν ε)
  | .leaf n => [n]
  | .group opener inner closer => opener :: (inner.tokens ++ [closer])
  | .unary o operand => o :: operand.tokens
  | .binary o left right => left.tokens ++ o :: right.tokens

/-- The program: operands first, groups left out. -/
def postorder : InfixTree τ ν ε → List (Node τ ν ε)
  | .leaf n => [n]
  | .group _ inner _ => inner.postorder
  | .unary o operand => operand.postorder ++ [o]
  | .binary o left right => left.postorder ++ right.postorder ++ [o]

/-- The operators that stand open to the left. -/
def leftEdge : InfixTree τ ν ε → List (Node τ ν ε)
  | .leaf _ => []
  | .group _ _ _ => []
  | .unary o _ => [o]
  | .binary o left _ => o :: left.leftEdge

/-- The operators that stand open to the right. -/
def rightEdge : InfixTree τ ν ε → List (Node τ ν ε)
  | .leaf _ => []
  | .group _ _ _ => []
  | .unary o operand => o :: operand.rightEdge
  | .binary o _ right => o :: right.rightEdge

/-- Every node plays the part that its kind gives it. -/
def WellFormed : InfixTree τ ν ε → Prop
  | .leaf n => n.kind = .value
  | .group opener inner closer =>
    opener.kind = .groupOpen ∧ inner.WellFormed ∧ closer.kind = .groupClose
  | .unary o operand => o.kind = .operator ∧ operand.WellFormed
  | .binary o left right => o.kind = .operator ∧ left.WellFormed ∧ right.WellFormed

/-- Every operator has the operands that precedence and associativity give it: what stands open
towards it on the left is complete before it, and nothing on its right is complete after it. -/
def PrecedenceCorrect : InfixTree τ ν ε → Prop
  | .leaf _ => True
  | .group _ inner _ => inner.PrecedenceCorrect
  | .unary o operand => (∀ p ∈ operand.leftEdge, ¬ o.BindsBefore p) ∧ operand.PrecedenceCorrect
  | .binary o left right =>
    (∀ p ∈ left.rightEdge, p.BindsBefore o) ∧ (∀ p ∈ right.leftEdge, ¬ o.BindsBefore p) ∧
      left.PrecedenceCorrect ∧ right.PrecedenceCorrect

/-- The meaning of a tree, without a stack: operands are evaluated from left to right, and an operator is
applied to what they gave. -/
def eval : InfixTree τ ν ε → Signal → Run τ ν ε (List ν)
  | .leaf n, s => n.run {} s []
  | .group _ inner _, s => inner.eval s
  | .unary o operand, s => (operand.eval s).bind fun values s => o.run {} s values
  | .binary o left right, s =>
    (left.eval s).bind fun lefts s => (right.eval s).bind fun rights s => o.run {} s (lefts ++ rights)

end InfixTree

end ExpressionEngine
