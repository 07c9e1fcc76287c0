import ExpressionEngine.Proofs.Machine.Ensures

/-! Agreement of two runs: the same calls in the same order, the same signal at the end and the same
error, or results that are related. How high the stacks grew does not matter. Agreement goes through
runs in sequence. -/

namespace ExpressionEngine

variable {τ ν ε α β γ δ : Type}

/-- The same error, or results that are related. -/
inductive ResultRel (rel : α → β → Prop) :
    Except (ExecutionError ε) α → Except (ExecutionError ε) β → Prop
  | ok {a : α} {b : β} (h : rel a b) : ResultRel rel (.ok a) (.ok b)
  | error (e : ExecutionError ε) : ResultRel rel (.error e) (.error e)

theorem ResultRel.eq {a b : Except (ExecutionError ε) α} (h : ResultRel (· = ·) a b) : a = b := by
  cases h with
  | ok h => rw [h]
  | error e => rfl

theorem ResultRel.eq_map {f : β → α} {a : Except (ExecutionError ε) α}
    {b : Except (ExecutionError ε) β} (h : ResultRel (fun a b => a = f b) a b) : a = b.map f := by
  cases h with
  | ok h => rw [h]; rfl
  | error e => rfl

namespace Run

/-- All that can be seen of the two runs is the same, up to a relation between the results. -/
structure Agrees (rel : α → β → Prop) (r : Run τ ν ε α) (u : Run τ ν ε β) : Prop where
  signal : r.signal = u.signal
  calls : r.calls = u.calls
  result : ResultRel rel r.result u.result

namespace Agrees

variable {rel : α → β → Prop} {rel' : γ → δ → Prop}

theorem finished {a : α} {b : β} (h : rel a b) (s : Signal) :
    (Run.finished s a : Run τ ν ε α).Agrees rel (Run.finished s b) :=
  ⟨rfl, rfl, .ok h⟩

/-- An agreement goes on from a run to one that is not told apart from it. -/
theorem of_eq {r r' : Run τ ν ε α} {u : Run τ ν ε β} (h' : r'.Agrees (· = ·) r)
    (h : r.Agrees rel u) : r'.Agrees rel u := by
  refine ⟨h'.signal.trans h.signal, h'.calls.trans h.calls, ?_⟩
  rw [h'.result.eq]
  exact h.result

/-- And from a run that is not told apart to any other. -/
theorem to_eq {r : Run τ ν ε α} {u u' : Run τ ν ε β} (h : r.Agrees rel u)
    (h' : u'.Agrees (· = ·) u) : r.Agrees rel u' := by
  refine ⟨h.signal.trans h'.signal.symm, h.calls.trans h'.calls.symm, ?_⟩
  rw [h'.result.eq]
  exact h.result

theorem refl (r : Run τ ν ε α) : r.Agrees (· = ·) r := by
  refine ⟨rfl, rfl, ?_⟩
  cases r.result with
  | error e => exact .error e
  | ok a => exact .ok rfl

/-- A run agrees with itself on whatever is known of its result. -/
theorem self {post : α → Prop} {r : Run τ ν ε α} (h : ∀ a, r.result = .ok a → post a) :
    r.Agrees (fun a b => a = b ∧ post a) r := by
  refine ⟨rfl, rfl, ?_⟩
  cases hr : r.result with
  | error e => exact .error e
  | ok a => exact .ok ⟨rfl, h a hr⟩

theorem mono {rel' : α → β → Prop} {r : Run τ ν ε α} {u : Run τ ν ε β} (h : r.Agrees rel u)
    (hr : ∀ a b, rel a b → rel' a b) : r.Agrees rel' u := by
  obtain ⟨hsignal, hcalls, hresult⟩ := h
  refine ⟨hsignal, hcalls, ?_⟩
  generalize r.result = a, u.result = b at hresult ⊢
  cases hresult with
  | ok hab => exact .ok (hr _ _ hab)
  | error e => exact .error e

theorem bind {r : Run τ ν ε α} {u : Run τ ν ε β} {f : α → Signal → Run τ ν ε γ}
    {g : β → Signal → Run τ ν ε δ} (h : r.Agrees rel u)
    (hn : ∀ a b s, rel a b → (f a s).Agrees rel' (g b s)) : (r.bind f).Agrees rel' (u.bind g) := by
  obtain ⟨result, signal, calls, peak⟩ := r
  obtain ⟨result', signal', calls', peak'⟩ := u
  obtain ⟨rfl, rfl, hresult⟩ := h
  cases hresult with
  | error e => exact ⟨rfl, rfl, .error e⟩
  | ok hab =>
    have hnext := hn _ _ signal hab
    exact ⟨hnext.signal, congrArg (calls ++ ·) hnext.calls, hnext.result⟩

end Agrees

end Run

end ExpressionEngine
