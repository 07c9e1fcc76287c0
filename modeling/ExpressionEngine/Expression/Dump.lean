import ExpressionEngine.Expression.Inspect

/-! The dump of an expression: a heading with its name and an entry for every node, nested programs
one level further in. -/

namespace ExpressionEngine

variable {τ ν ε : Type}

/-- Stands before every entry at the given depth. -/
def margin (depth : Nat) : String := String.join (List.replicate depth "|   ")

def heading (name : String) : String := "[" ++ name ++ "]:"

mutual

def Outline.entries (depth : Nat) : Outline → List String
  | .leaf symbol => [margin depth ++ symbol]
  | .block name items => (margin depth ++ heading name) :: entriesOf (depth + 1) items

def entriesOf (depth : Nat) : List Outline → List String
  | [] => []
  | o :: rest => o.entries depth ++ entriesOf depth rest

end

def Outline.dump (o : Outline) : String := String.join ((o.entries 0).map (· ++ "\n"))

def Expression.dump (x : Expression τ ν ε) : String := x.outline.dump

mutual

theorem Outline.length_entries (depth : Nat) : ∀ o : Outline, (o.entries depth).length = o.size
  | .leaf _ => rfl
  | .block _ items => by
    rw [Outline.entries, Outline.size, List.length_cons, length_entriesOf (depth + 1) items, Nat.add_comm]

theorem length_entriesOf (depth : Nat) :
    ∀ items : List Outline, (entriesOf depth items).length = sizeOfItems items
  | [] => rfl
  | o :: rest => by
    rw [entriesOf, sizeOfItems, List.length_append, o.length_entries depth,
      length_entriesOf depth rest]

end

end ExpressionEngine
