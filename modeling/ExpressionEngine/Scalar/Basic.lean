import ExpressionEngine.Types.Basic

/-! Scalars: a ready-made kind of values, with a type system in which a type is known by its
identifier and shown by its name. -/

namespace ExpressionEngine

open Text

/-- Types are the same if their identifiers are, whatever their names. -/
structure TypeTag where
  id : String
  name : String

namespace TypeTag

def named (id : String) : TypeTag := ⟨id, id⟩

instance : Ty TypeTag where
  beq a b := a.id == b.id
  name := TypeTag.name
  debugForm t := .atom ("<" ++ t.id ++ ">")

theorem beq_iff (a b : TypeTag) : (a == b) = true ↔ a.id = b.id :=
  (beq_iff_eq : (a.id == b.id) = true ↔ a.id = b.id)

instance : EquivBEq TypeTag where
  rfl {a} := (beq_iff a a).2 rfl
  symm {a b} h := (beq_iff b a).2 ((beq_iff a b).1 h).symm
  trans {a b c} h h' := (beq_iff a c).2 (((beq_iff a b).1 h).trans ((beq_iff b c).1 h'))

end TypeTag

inductive Scalar where
  | nil
  | bool (b : Bool)
  | int (n : Int)
  | text (s : String)
  deriving DecidableEq

namespace Scalar

def typeOf : Scalar → TypeTag
  | .nil => .named "nil"
  | .bool _ => .named "bool"
  | .int _ => .named "int"
  | .text _ => .named "text"

def describe : Scalar → String
  | .nil => "nil"
  | .bool true => "true"
  | .bool false => "false"
  | .int n => toString n
  | .text s => s

instance : Value Scalar TypeTag where
  typeOf := typeOf
  describe := describe

end Scalar

end ExpressionEngine
