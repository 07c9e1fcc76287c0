import ExpressionEngine.Machine.Execution

/-! What a run ensures: of every call made, of the error that it ends with, or of its result. Runs in
sequence ensure what each of them does, given what the one before left. -/

namespace ExpressionEngine

variable {τ ν ε α β : Type}

/-! ### Laws of the stack -/

namespace Stack

/-- An extension that stops nowhere puts everything on top. -/
theorem eq_of_extend_eq_none {s s' : Stack α} {as : List α} (h : s.extend as = (s', none)) :
    s' = { s with items := s.items ++ as } := by
  induction as generalizing s with
  | nil =>
    cases h
    simp
  | cons a rest ih =>
    rw [extend] at h
    cases hp : s.push a with
    | error e =>
      rw [hp] at h
      cases h
    | ok t =>
      rw [hp] at h
      have ht : t = { s with items := s.items ++ [a] } := by
        unfold push at hp
        split at hp
        · cases hp; rfl
        · split at hp
          · cases hp
          · cases hp; rfl
      rw [ih h, ht]
      simp

/-- A stack that holds enough can be split. -/
theorem exists_top {n : Nat} {items : List α} (h : n ≤ items.length) :
    ∃ below top, items = below ++ top ∧ top.length = n := by
  refine ⟨items.take (items.length - n), items.drop (items.length - n), ?_, ?_⟩
  · exact (List.take_append_drop _ _).symm
  · rw [List.length_drop]
    omega

/-- There are too few items to take off, or they stand on top. -/
theorem lt_or_exists_top (n : Nat) (items : List α) :
    items.length < n ∨ ∃ below top, items = below ++ top ∧ top.length = n := by
  rcases Nat.lt_or_ge items.length n with h | h
  · exact .inl h
  · exact .inr (exists_top h)

end Stack

namespace Run

/-- Whatever stopped the run, it was an element that failed. -/
def FailsByElement (r : Run τ ν ε α) : Prop :=
  ∀ e, r.result = .error e → ∃ x, e = .element x

theorem failsByElement_iff {r : Run τ ν ε α} : r.FailsByElement ↔
    (∃ a, r.result = .ok a) ∨ ∃ x, r.result = .error (.element x) := by
  unfold FailsByElement
  cases r.result with
  | ok a => simp
  | error e => simp

/-- What holds of every call, of an error that ends the run, and of the result. -/
structure Ensures (r : Run τ ν ε α) (callOk : Call τ ν ε → Prop)
    (errorOk : ExecutionError ε → Prop) (post : α → Prop) : Prop where
  call : ∀ c ∈ r.calls, callOk c
  error : ∀ e, r.result = .error e → errorOk e
  value : ∀ a, r.result = .ok a → post a

namespace Ensures

variable {callOk : Call τ ν ε → Prop} {errorOk : ExecutionError ε → Prop}

theorem finished {post : α → Prop} {a : α} (h : post a) (s : Signal) :
    (Run.finished s a : Run τ ν ε α).Ensures callOk errorOk post where
  call := by simp [Run.finished]
  error := by simp [Run.finished]
  value := by simpa [Run.finished] using h

theorem failed {post : α → Prop} {e : ExecutionError ε} (h : errorOk e) (s : Signal) :
    (Run.failed s e : Run τ ν ε α).Ensures callOk errorOk post where
  call := by simp [Run.failed]
  error := by simpa [Run.failed] using h
  value := by simp [Run.failed]

theorem bind {r : Run τ ν ε α} {next : α → Signal → Run τ ν ε β} {mid : α → Prop} {post : β → Prop}
    (h : r.Ensures callOk errorOk mid)
    (hn : ∀ a s, mid a → (next a s).Ensures callOk errorOk post) :
    (r.bind next).Ensures callOk errorOk post := by
  cases hr : r.result with
  | error e =>
    rw [bind_of_error hr]
    refine ⟨h.call, fun e' he => ?_, fun b hb => nomatch hb⟩
    cases he
    exact h.error e hr
  | ok a =>
    have ha := hn a r.signal (h.value a hr)
    rw [bind_of_ok hr]
    refine ⟨fun c hc => ?_, ha.error, ha.value⟩
    rcases List.mem_append.1 hc with hc | hc
    · exact h.call c hc
    · exact ha.call c hc

theorem map {r : Run τ ν ε α} {f : α → β} {mid : α → Prop} {post : β → Prop}
    (h : r.Ensures callOk errorOk mid) (hf : ∀ a, mid a → post (f a)) :
    (r.map f).Ensures callOk errorOk post :=
  h.bind fun a s ha => .finished (hf a ha) s

end Ensures

end Run

/-- Putting values on a stack calls nothing; either they all stand on top, or there is no room. -/
theorem Stack.load_ensures {callOk : Call τ ν ε → Prop} {errorOk : ExecutionError ε → Prop}
    (ho : ∀ size max, errorOk (.stackOverflow size max)) (stack : Stack ν) (s : Signal)
    (values : List ν) : (stack.load s values).Ensures callOk errorOk
      fun stack' => stack' = { stack with items := stack.items ++ values } := by
  rw [load]
  split
  · next stack' h =>
    refine ⟨by simp, by simp, fun t ht => ?_⟩
    cases ht
    exact eq_of_extend_eq_none h
  · next stack' o h =>
    refine ⟨by simp, fun e he => ?_, by simp⟩
    cases he
    exact ho o.size o.max

end ExpressionEngine
