import ExpressionEngine.Yard
import ExpressionEngine.Typing

/-! Builders put an expression together, node by node, in infix order or in postfix order. What a
builder took is named as it came; the finished expression is named after all of it, unless it was
given a name. -/

namespace ExpressionEngine

variable {τ ν ε : Type}

structure CompilationOptions where
  /-- stands between the symbols in a derived name -/
  nameSeparator : String := " "
  deriving DecidableEq

structure Builder (τ ν ε : Type) where
  inputs : List (TypeSet τ) := []
  options : CompilationOptions := {}
  name : Option String := none
  yard : Yard τ ν ε := {}
  /-- symbols of the nodes taken, in order -/
  fragments : List String := []

namespace Builder

def setName (b : Builder τ ν ε) (name : String) : Builder τ ν ε := { b with name := some name }

/-- Takes one node in infix order. -/
def append (b : Builder τ ν ε) (n : Node τ ν ε) : Except BuildError (Builder τ ν ε) :=
  match b.yard.append n with
  | .error e => .error e
  | .ok yard => .ok { b with yard, fragments := b.fragments ++ [n.symbol] }

/-- Takes one node in postfix order, whatever its kind. -/
def push (b : Builder τ ν ε) (n : Node τ ν ε) : Builder τ ν ε :=
  { b with yard := b.yard.push n, fragments := b.fragments ++ [n.symbol] }

/-- A sequence as far as it was taken: the builder, and every node refused, by its position. -/
structure Feed (τ ν ε : Type) where
  builder : Builder τ ν ε
  refused : List (Nat × BuildError) := []

def appendFrom (position : Nat) (b : Builder τ ν ε) : List (Node τ ν ε) → Feed τ ν ε
  | [] => ⟨b, []⟩
  | n :: rest =>
    match b.append n with
    | .ok b' => b'.appendFrom (position + 1) rest
    | .error e =>
      let feed := b.appendFrom (position + 1) rest
      { feed with refused := (position, e) :: feed.refused }

/-- Takes the nodes in infix order, going on after one that is refused. -/
def appendEach (b : Builder τ ν ε) (ns : List (Node τ ν ε)) : Feed τ ν ε := b.appendFrom 0 ns

/-- Takes the nodes in postfix order. -/
def pushEach (b : Builder τ ν ε) (ns : List (Node τ ν ε)) : Builder τ ν ε := ns.foldl push b

def derivedName (b : Builder τ ν ε) : String := b.options.nameSeparator.intercalate b.fragments

/-- Seals the expression. An open group is reported before anything the types would show. -/
def finalize [Ty τ] (b : Builder τ ν ε) : Except BuildError (Expression τ ν ε) :=
  match b.yard.drain with
  | .error e => .error e
  | .ok program =>
    match typeCheck b.inputs program with
    | .error e => .error e
    | .ok outputs => .ok ⟨b.name.getD b.derivedName, program, b.inputs, outputs⟩

theorem yard_appendFrom (position : Nat) (b : Builder τ ν ε) (ns : List (Node τ ν ε)) :
    (b.appendFrom position ns).builder.yard = b.yard.offerAll ns := by
  induction ns generalizing position b with
  | nil => rfl
  | cons n rest ih =>
    rw [Yard.offerAll, List.foldl_cons, ← Yard.offerAll, appendFrom]
    cases h : b.yard.append n with
    | error e => simpa only [append, h, Yard.offer_of_error h] using ih (position + 1) b
    | ok y =>
      simpa only [append, h, Yard.offer_of_ok h] using
        ih (position + 1) { b with yard := y, fragments := b.fragments ++ [n.symbol] }

theorem inputs_appendFrom (position : Nat) (b : Builder τ ν ε) (ns : List (Node τ ν ε)) :
    (b.appendFrom position ns).builder.inputs = b.inputs := by
  induction ns generalizing position b with
  | nil => rfl
  | cons n rest ih =>
    rw [appendFrom]
    cases h : b.yard.append n with
    | error e => simpa only [append, h] using ih (position + 1) b
    | ok y =>
      simpa only [append, h] using
        ih (position + 1) { b with yard := y, fragments := b.fragments ++ [n.symbol] }

theorem pushEach_eq (b : Builder τ ν ε) (ns : List (Node τ ν ε)) : b.pushEach ns =
    { b with yard := { b.yard with emitted := b.yard.emitted ++ ns },
             fragments := b.fragments ++ ns.map Node.symbol } := by
  induction ns generalizing b with
  | nil => simp [pushEach]
  | cons n rest ih => rw [pushEach, List.foldl_cons, ← pushEach, ih]; simp [push, Yard.push]

end Builder

end ExpressionEngine
