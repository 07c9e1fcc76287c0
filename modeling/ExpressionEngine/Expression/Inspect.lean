import ExpressionEngine.Expression.Basic

/-! What is seen of an expression. Its debug form lists the nodes of its own program; its outline has the names
and symbols at every depth, nested as the programs are. -/

namespace ExpressionEngine

open Text

variable {τ ν ε : Type}

/-! ### Debug forms -/

def Node.debugForm : Node τ ν ε → DebugForm
  | .element e => .tuple "Element" [.quoted e.symbol]
  | .nested x => .tuple "Expression" [.quoted x.name]

def debugFormOfSlots [Ty τ] (slots : List (TypeSet τ)) : DebugForm :=
  .sequence (slots.map TypeSet.debugForm)

def Expression.debugForm [Ty τ] (x : Expression τ ν ε) : DebugForm :=
  .record "CompiledExpression" [
    .field "name" (.quoted x.name),
    .field "postfix" (.sequence (x.program.map Node.debugForm)),
    .field "input_types" (debugFormOfSlots x.inputs),
    .field "output_types" (debugFormOfSlots x.outputs)]

/-! ### Outlines -/

/-- What an expression looks like when only its names and symbols count. -/
inductive Outline where
  | leaf (symbol : String)
  | block (name : String) (items : List Outline)

mutual

def Node.outline : Node τ ν ε → Outline
  | .element e => .leaf e.symbol
  | .nested x => x.outline

def Expression.outline : Expression τ ν ε → Outline
  | ⟨name, program, _, _⟩ => .block name (outlineOf program)

def outlineOf : List (Node τ ν ε) → List Outline
  | [] => []
  | n :: rest => n.outline :: outlineOf rest

end

mutual

/-- Elements and expressions counted alike, at every depth. -/
def Outline.size : Outline → Nat
  | .leaf _ => 1
  | .block _ items => 1 + sizeOfItems items

def sizeOfItems : List Outline → Nat
  | [] => 0
  | o :: rest => o.size + sizeOfItems rest

end

/-! ### Nodes at every depth -/

mutual

/-- The node itself, and what is nested in it. -/
def Node.descent : Node τ ν ε → List (Node τ ν ε)
  | .element e => [.element e]
  | .nested x => .nested x :: x.nodes

def Expression.nodes : Expression τ ν ε → List (Node τ ν ε)
  | ⟨_, program, _, _⟩ => nodesOf program

def nodesOf : List (Node τ ν ε) → List (Node τ ν ε)
  | [] => []
  | n :: rest => n.descent ++ nodesOf rest

end

theorem mem_nodesOf {program : List (Node τ ν ε)} {m : Node τ ν ε} :
    m ∈ nodesOf program ↔ ∃ n ∈ program, m ∈ n.descent := by
  induction program with
  | nil => simp [nodesOf]
  | cons n rest ih => simp [nodesOf, ih]

theorem Expression.mem_nodes_of_descent {x : Expression τ ν ε} {n m : Node τ ν ε}
    (hn : n ∈ x.program) (hm : m ∈ n.descent) : m ∈ x.nodes := by
  cases x
  exact mem_nodesOf.2 ⟨n, hn, hm⟩

theorem Node.mem_descent_self (n : Node τ ν ε) : n ∈ n.descent := by
  cases n <;> simp [descent]

theorem outlineOf_eq_map (program : List (Node τ ν ε)) : outlineOf program = program.map Node.outline := by
  induction program with
  | nil => rfl
  | cons n rest ih => rw [outlineOf, ih, List.map_cons]

mutual

theorem Node.size_outline : ∀ n : Node τ ν ε, n.outline.size = n.descent.length
  | .element _ => rfl
  | .nested x => by
    rw [Node.outline, Node.descent, x.size_outline, List.length_cons, Nat.add_comm]

theorem Expression.size_outline : ∀ x : Expression τ ν ε, x.outline.size = 1 + x.nodes.length
  | ⟨_, program, _, _⟩ => by
    rw [Expression.outline, Outline.size, Expression.nodes, sizeOfItems_outlineOf program]

theorem sizeOfItems_outlineOf : ∀ program : List (Node τ ν ε),
    sizeOfItems (outlineOf program) = (nodesOf program).length
  | [] => rfl
  | n :: rest => by
    rw [outlineOf, sizeOfItems, nodesOf, List.length_append, n.size_outline,
      sizeOfItems_outlineOf rest]

end

end ExpressionEngine
