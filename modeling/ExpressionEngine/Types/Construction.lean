import ExpressionEngine.Types.TypeSet

/-! The ways to build a set of types: from nothing, from types that are listed in some form, or by pushing
a further type. -/

namespace ExpressionEngine

variable {τ : Type}

namespace TypeSet

/-- Takes the types as they come, one by one. -/
def collect (types : List τ) : TypeSet τ := types.foldl push empty

theorem members_foldl_push (s : TypeSet τ) (types : List τ) :
    (types.foldl push s).members = s.members ++ types := by
  induction types generalizing s with
  | nil => exact (List.append_nil _).symm
  | cons t rest ih => rw [List.foldl_cons, ih, members_push, List.append_assoc, List.singleton_append]

@[simp] theorem members_collect (types : List τ) : (collect types).members = types :=
  members_foldl_push empty types

/-- Takes a copy of each type in a stretch of an array. -/
def ofSlice (types : Subarray τ) : TypeSet τ := collect types.toList

inductive Construction (τ : Type) where
  | empty
  | single (t : τ)
  | ofList (types : List τ)
  | ofArray (types : Array τ)
  | ofSlice (types : Subarray τ)
  | collect (types : List τ)
  | push (c : Construction τ) (t : τ)

namespace Construction

def build : Construction τ → TypeSet τ
  | .empty => TypeSet.empty
  | .single t => TypeSet.single t
  | .ofList types => TypeSet.ofList types
  | .ofArray types => TypeSet.ofArray types
  | .ofSlice types => TypeSet.ofSlice types
  | .collect types => TypeSet.collect types
  | .push c t => c.build.push t

/-- The types named on the way, in order. -/
def listed : Construction τ → List τ
  | .empty => []
  | .single t => [t]
  | .ofList types => types
  | .ofArray types => types.toList
  | .ofSlice types => types.toList
  | .collect types => types
  | .push c t => c.listed ++ [t]

theorem members_build (c : Construction τ) : c.build.members = c.listed := by
  induction c with
  | push c t ih => rw [build, members_push, ih, listed]
  | ofSlice types => exact members_collect types.toList
  | collect types => exact members_collect types
  | empty | single | ofList | ofArray => rfl

end Construction

end TypeSet

end ExpressionEngine
