import ExpressionEngine.Expression.Basic

/-! Inlining: every nested expression is replaced in place by its own program, so that only
elements are left, in the order in which a run comes to them. -/

namespace ExpressionEngine

variable {τ ν ε : Type}

mutual

def Node.leaves : Node τ ν ε → List (Element τ ν ε)
  | .element e => [e]
  | .nested x => x.leaves

def Expression.leaves : Expression τ ν ε → List (Element τ ν ε)
  | ⟨_, program, _, _⟩ => leavesOf program

/-- The elements of a program, nested ones included. -/
def leavesOf : List (Node τ ν ε) → List (Element τ ν ε)
  | [] => []
  | n :: rest => n.leaves ++ leavesOf rest

end

theorem Expression.leaves_eq (x : Expression τ ν ε) : x.leaves = leavesOf x.program := by
  cases x; rfl

theorem leavesOf_append (p q : List (Node τ ν ε)) : leavesOf (p ++ q) = leavesOf p ++ leavesOf q := by
  induction p with
  | nil => rfl
  | cons n rest ih => simp [leavesOf, ih]

theorem leavesOf_singleton (n : Node τ ν ε) : leavesOf [n] = n.leaves := by simp [leavesOf]

theorem mem_leavesOf {program : List (Node τ ν ε)} {e : Element τ ν ε} :
    e ∈ leavesOf program ↔ ∃ n ∈ program, e ∈ n.leaves := by
  induction program with
  | nil => simp [leavesOf]
  | cons n rest ih => simp [leavesOf, ih]

theorem Expression.mem_leaves_of_element {x : Expression τ ν ε} {e : Element τ ν ε}
    (h : .element e ∈ x.program) : e ∈ x.leaves := by
  rw [leaves_eq, mem_leavesOf]
  exact ⟨.element e, h, by simp [Node.leaves]⟩

theorem Expression.mem_leaves_of_nested {x y : Expression τ ν ε} {e : Element τ ν ε}
    (h : .nested y ∈ x.program) (he : e ∈ y.leaves) : e ∈ x.leaves := by
  rw [leaves_eq, mem_leavesOf]
  exact ⟨.nested y, h, he⟩

/-- The program without nesting. -/
def inlined (program : List (Node τ ν ε)) : List (Node τ ν ε) := (leavesOf program).map .element

theorem inlined_append (p q : List (Node τ ν ε)) : inlined (p ++ q) = inlined p ++ inlined q := by
  simp [inlined, leavesOf_append]

theorem inlined_nested (x : Expression τ ν ε) : inlined [.nested x] = inlined x.program := by
  simp [inlined, leavesOf, Node.leaves, x.leaves_eq]

theorem inlined_eq_flatten (program : List (Node τ ν ε)) :
    inlined program = (program.map fun n => inlined [n]).flatten := by
  induction program with
  | nil => rfl
  | cons n rest ih =>
    rw [← List.singleton_append, inlined_append, ih]
    rfl

end ExpressionEngine
