import ExpressionEngine.Expression.Element
import ExpressionEngine.Fault.ExecutionError

/-! Runs. A run ends with a result or an error; it also shows the signal as it leaves it, every call
of an element in order, and the greatest height that any of its stacks reached. Runs are joined in
sequence, and an error ends the sequence. -/

namespace ExpressionEngine

variable {τ ν ε α β γ : Type}

/-- One execution of an element, with what it was given and what it came to. -/
structure Call (τ ν ε : Type) where
  element : Element τ ν ε
  signal : Signal
  arguments : List ν
  outcome : Outcome ν ε

structure Run (τ ν ε α : Type) where
  result : Except (ExecutionError ε) α
  signal : Signal
  calls : List (Call τ ν ε) := []
  peak : Nat := 0

namespace Run

/-- A run that calls nothing and ends with `a`. -/
def finished (s : Signal) (a : α) : Run τ ν ε α := { result := .ok a, signal := s }

/-- A run that calls nothing and ends with an error. -/
def failed (s : Signal) (e : ExecutionError ε) : Run τ ν ε α := { result := .error e, signal := s }

/-- One run after another; the second starts on the result and the signal of the first. -/
def bind (r : Run τ ν ε α) (next : α → Signal → Run τ ν ε β) : Run τ ν ε β :=
  match r.result with
  | .error e => ⟨.error e, r.signal, r.calls, r.peak⟩
  | .ok a =>
    let r' := next a r.signal
    ⟨r'.result, r'.signal, r.calls ++ r'.calls, max r.peak r'.peak⟩

def map (f : α → β) (r : Run τ ν ε α) : Run τ ν ε β := r.bind fun a s => finished s (f a)

@[simp] theorem finished_bind (s : Signal) (a : α) (next : α → Signal → Run τ ν ε β) :
    (finished s a).bind next = next a s := by
  simp [finished, bind]

@[simp] theorem failed_bind (s : Signal) (e : ExecutionError ε)
    (next : α → Signal → Run τ ν ε β) : (failed s e).bind next = failed s e := rfl

@[simp] theorem bind_finished (r : Run τ ν ε α) : (r.bind fun a s => finished s a) = r := by
  obtain ⟨result, signal, calls, peak⟩ := r
  cases result <;> simp [bind, finished]

@[simp] theorem peak_map (f : α → β) (r : Run τ ν ε α) : (r.map f).peak = r.peak := by
  obtain ⟨result, signal, calls, peak⟩ := r
  cases result <;> simp [map, bind, finished]

theorem bind_assoc (r : Run τ ν ε α) (f : α → Signal → Run τ ν ε β)
    (g : β → Signal → Run τ ν ε γ) : (r.bind f).bind g = r.bind fun a s => (f a s).bind g := by
  obtain ⟨result, signal, calls, peak⟩ := r
  cases result with
  | error e => rfl
  | ok a =>
    simp only [bind]
    cases (f a signal).result <;> simp [Nat.max_assoc]

theorem result_bind_eq_ok_iff {r : Run τ ν ε α} {next : α → Signal → Run τ ν ε β} {b : β} :
    (r.bind next).result = .ok b ↔
      ∃ a, r.result = .ok a ∧ (next a r.signal).result = .ok b := by
  obtain ⟨result, signal, calls, peak⟩ := r
  cases result <;> simp [bind]

/-- Only what is made of the result that there is matters. -/
theorem bind_congr {r : Run τ ν ε α} {f g : α → Signal → Run τ ν ε β}
    (h : ∀ a, r.result = .ok a → f a r.signal = g a r.signal) : r.bind f = r.bind g := by
  cases hr : r.result with
  | error e => simp [bind, hr]
  | ok a => simp [bind, hr, h a hr]

theorem bind_of_ok {r : Run τ ν ε α} {a : α} (h : r.result = .ok a)
    (next : α → Signal → Run τ ν ε β) : r.bind next =
      ⟨(next a r.signal).result, (next a r.signal).signal, r.calls ++ (next a r.signal).calls,
        max r.peak (next a r.signal).peak⟩ := by
  simp [bind, h]

theorem bind_of_error {r : Run τ ν ε α} {e : ExecutionError ε} (h : r.result = .error e)
    (next : α → Signal → Run τ ν ε β) :
    r.bind next = ⟨.error e, r.signal, r.calls, r.peak⟩ := by
  simp [bind, h]

end Run

end ExpressionEngine
