/-! Changes that are made in place. A change is made step by step; one that is stopped midway leaves behind
what it has changed until then, and whoever goes on goes on with that. -/

namespace ExpressionEngine

variable {σ ε α β : Type}

/-- Changes a state of type `σ`, up to the point where an `ε` may stop it. -/
abbrev Change (σ ε α : Type) := EStateM ε σ α

namespace Change

/-- The state left behind, be the change stopped or not. -/
def leave (x : Change σ ε α) (s : σ) : σ :=
  match x s with
  | .ok _ s' => s'
  | .error _ s' => s'

variable {x : Change σ ε α} {f : α → Change σ ε β} {s s' : σ}

theorem bind_of_ok {a : α} (h : x s = .ok a s') : (x >>= f) s = f a s' := by
  simp only [bind, EStateM.bind, h]

theorem bind_of_error {e : ε} (h : x s = .error e s') : (x >>= f) s = .error e s' := by
  simp only [bind, EStateM.bind, h]

theorem leave_discard (x : Change σ ε α) (s : σ) : leave (discard x) s = x.leave s := by
  simp only [leave, discard, Functor.discard, Functor.mapConst, Function.comp, EStateM.map]
  cases x s <;> rfl

end Change

end ExpressionEngine
