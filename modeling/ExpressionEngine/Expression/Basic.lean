import ExpressionEngine.Expression.Element

/-! Expressions: named programs in postfix order. A node of a program is an element or a whole
expression, which then behaves like one element that gives the values it ends with. -/

namespace ExpressionEngine

variable {τ ν ε : Type}

mutual

inductive Node (τ ν ε : Type) where
  | element (e : Element τ ν ε)
  | nested (x : Expression τ ν ε)

structure Expression (τ ν ε : Type) where
  name : String
  program : List (Node τ ν ε)
  /-- types of the values the expression starts on, as declared -/
  inputs : List (TypeSet τ)
  /-- types of the values the expression ends with, as derived -/
  outputs : List (TypeSet τ)

end

namespace Node

def symbol : Node τ ν ε → String
  | .element e => e.symbol
  | .nested x => x.name

def kind : Node τ ν ε → ElementKind
  | .element e => e.kind
  | .nested _ => .value

def precedence : Node τ ν ε → Int
  | .element e => e.precedence
  | .nested _ => 0

def associativity : Node τ ν ε → Associativity
  | .element e => e.associativity
  | .nested _ => .left

def inputs : Node τ ν ε → List (TypeSet τ)
  | .element e => e.inputs
  | .nested x => x.inputs

def outputs : Node τ ν ε → List (TypeSet τ)
  | .element e => e.outputs
  | .nested x => x.outputs

/-- An operator waiting for its right operand is complete before `incoming` takes its place. -/
def BindsBefore (waiting incoming : Node τ ν ε) : Prop :=
  incoming.precedence < waiting.precedence ∨
    waiting.precedence = incoming.precedence ∧ waiting.associativity = .left

instance (waiting incoming : Node τ ν ε) : Decidable (waiting.BindsBefore incoming) :=
  inferInstanceAs (Decidable (_ ∨ _ ∧ _))

end Node

mutual

/-- What goes over from the expressions nested in a program to the expression itself holds of every
expression. -/
@[elab_as_elim]
theorem Expression.nestedInduction {motive : Expression τ ν ε → Prop}
    (step : ∀ x, (∀ y, .nested y ∈ x.program → motive y) → motive x) :
    ∀ x : Expression τ ν ε, motive x
  | ⟨name, program, inputs, outputs⟩ =>
    step ⟨name, program, inputs, outputs⟩ (nestedInduction_mem step program)

theorem nestedInduction_mem {motive : Expression τ ν ε → Prop}
    (step : ∀ x, (∀ y, .nested y ∈ x.program → motive y) → motive x) :
    ∀ program : List (Node τ ν ε), ∀ y, .nested y ∈ program → motive y
  | [], _, h => nomatch h
  | .element e :: rest, y, h =>
    nestedInduction_mem step rest y ((List.mem_cons.1 h).resolve_left fun he => nomatch he)
  | .nested x :: rest, y, h => by
    rcases List.mem_cons.1 h with h | h
    · cases h
      exact Expression.nestedInduction step x
    · exact nestedInduction_mem step rest y h

end

namespace Expression

def size (x : Expression τ ν ε) : Nat := x.program.length

def isEmpty (x : Expression τ ν ε) : Bool := x.program.isEmpty

end Expression

end ExpressionEngine
