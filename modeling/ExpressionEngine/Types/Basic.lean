import ExpressionEngine.Text.DebugForm

/-! What the engine asks of the application's types and values. A type system has an equality and a
name for each type; a type that is shared behind a handle keeps both. A value knows its type and
can be described. -/

namespace ExpressionEngine

open Text

/-- A type system. Equality says when two types are the same; they may still differ in name. -/
class Ty (τ : Type) extends BEq τ where
  name : τ → String
  debugForm : τ → DebugForm

/-- Runtime values over the type system `τ`. -/
class Value (ν : Type) (τ : outParam Type) where
  typeOf : ν → τ
  describe : ν → String

/-- A shared handle to a type, compared through the type it leads to. -/
structure Interned (τ : Type) where
  target : τ

instance {τ : Type} [Ty τ] : Ty (Interned τ) where
  beq a b := a.target == b.target
  name a := Ty.name a.target
  debugForm a := Ty.debugForm a.target

theorem Interned.beq_eq {τ : Type} [Ty τ] (a b : Interned τ) : (a == b) = (a.target == b.target) :=
  rfl

end ExpressionEngine
