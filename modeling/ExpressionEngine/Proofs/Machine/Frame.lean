import ExpressionEngine.Machine.Supervised
import ExpressionEngine.Proofs.Machine.Limit
import ExpressionEngine.Scalar.Tracing

/-! What lies below is not touched. Values put below those that a run starts on are still there at its
end, and they make no difference to what it does, as long as it never looks for a value that it lacks.
The stack of the run itself is higher by as many values; those of nested expressions are not, for they
start on their arguments alone. So a limit has to be raised by as much for the one, and what that adds
for the others does no harm. -/

namespace ExpressionEngine

variable {τ ν ε α β γ δ : Type}

/-! ### Runs on higher stacks -/

namespace Run

/-- Unless it is the stack that stops the run `u`, the run `r` agrees with it, and its stacks grow higher
by `surplus` at most. -/
def Lifts (surplus : Nat) (rel : α → β → Prop) (r : Run τ ν ε α) (u : Run τ ν ε β) : Prop :=
  u.FailsByElement → r.Agrees rel u ∧ r.peak ≤ u.peak + surplus

namespace Lifts

variable {surplus : Nat} {rel : α → β → Prop} {rel' : γ → δ → Prop}

theorem finished {a : α} {b : β} (h : rel a b) (s : Signal) :
    (Run.finished s a : Run τ ν ε α).Lifts surplus rel (.finished s b) :=
  fun _ => ⟨.finished h s, Nat.zero_le _⟩

theorem refl (surplus : Nat) (r : Run τ ν ε α) : r.Lifts surplus (· = ·) r :=
  fun _ => ⟨.refl r, Nat.le_add_right _ _⟩

theorem bind {r : Run τ ν ε α} {u : Run τ ν ε β} {f : α → Signal → Run τ ν ε γ}
    {g : β → Signal → Run τ ν ε δ} (h : r.Lifts surplus rel u)
    (hn : ∀ a b s, rel a b → (f a s).Lifts surplus rel' (g b s)) :
    (r.bind f).Lifts surplus rel' (u.bind g) := by
  intro hfails
  have hu : u.FailsByElement := by
    intro e he
    apply hfails e
    rw [bind_of_error he]
  obtain ⟨⟨hsignal, hcalls, hresult⟩, hpeak⟩ := h hu
  obtain ⟨result, signal, calls, peak⟩ := r
  obtain ⟨result', signal', calls', peak'⟩ := u
  obtain rfl : signal = signal' := hsignal
  obtain rfl : calls = calls' := hcalls
  cases hresult with
  | error e => exact ⟨⟨rfl, rfl, .error e⟩, hpeak⟩
  | @ok a b hab =>
    obtain ⟨hnext, hpeak'⟩ := hn a b signal hab hfails
    refine ⟨⟨hnext.signal, congrArg (calls ++ ·) hnext.calls, hnext.result⟩, ?_⟩
    show max peak (f a signal).peak ≤ max peak' (g b signal).peak + surplus
    simp only at hpeak
    omega

end Lifts

end Run

/-- What counts is how the values stand on the stacks in the end. -/
theorem Stack.load_lifts {extra items items' values values' : List ν}
    (h : items ++ values = extra ++ (items' ++ values')) (s : Signal) :
    ((⟨none, items⟩ : Stack ν).load s values : Run τ ν ε (Stack ν)).Lifts extra.length
      (fun stack stack' => stack = ⟨none, extra ++ (items' ++ values')⟩ ∧
        stack' = ⟨none, items' ++ values'⟩)
      ((⟨none, items'⟩ : Stack ν).load s values') := by
  intro _
  have hlength := congrArg List.length h
  simp only [List.length_append] at hlength
  rw [load_of_unlimited, load_of_unlimited, h]
  refine ⟨⟨rfl, rfl, .ok ⟨rfl, rfl⟩⟩, ?_⟩
  dsimp only
  omega

/-- A node takes its arguments from above all that is not its own, so that it runs as it would
without. -/
theorem runProgram_lifts (extra : List ν) (program : List (Node τ ν ε)) (items : List ν) (s : Signal) :
    (runProgram {} program ⟨none, extra ++ items⟩ s).Lifts extra.length
      (fun stack stack' => stack.items = extra ++ stack'.items)
      (runProgram {} program ⟨none, items⟩ s) := by
  induction program generalizing items s with
  | nil =>
    rw [runProgram_nil, runProgram_nil]
    apply Run.Lifts.finished
    rfl
  | cons n rest ih =>
    rcases Stack.lt_or_exists_top n.inputs.length items with h | ⟨below, arguments, rfl, ha⟩
    · intro hfails
      rw [runProgram_cons_of_lt h] at hfails
      obtain ⟨x, hx⟩ := hfails _ rfl
      cases hx
    · rw [← List.append_assoc, runProgram_cons_append ha, runProgram_cons_append ha]
      apply (Run.Lifts.refl extra.length (n.run {} s arguments)).bind
      intro produced _ s hproduced
      subst hproduced
      apply (Stack.load_lifts (List.append_assoc extra below produced) s).bind
      intro stack stack' s hloaded
      obtain ⟨rfl, rfl⟩ := hloaded
      exact ih (below ++ produced) s

theorem Expression.run_lifts (x : Expression τ ν ε) (s : Signal) (inputs extra : List ν) :
    (x.run {} s (extra ++ inputs)).Lifts extra.length (fun vs' vs => vs' = extra ++ vs)
      (x.run {} s inputs) := by
  rw [run_eq, run_eq]
  apply (Stack.load_lifts (List.nil_append (extra ++ inputs)) s).bind
  intro stack stack' s hloaded
  obtain ⟨rfl, rfl⟩ := hloaded
  apply (runProgram_lifts extra x.program inputs s).bind
  intro stack stack' s hitems
  apply Run.Lifts.finished
  exact hitems

/-! ### Limits -/

/-- The limit is raised by as much as lies below. -/
theorem Expression.run_raised {x : Expression τ ν ε} {limit : Option Nat} {s : Signal}
    {inputs : List ν} (hfails : (x.run ⟨limit⟩ s inputs).FailsByElement) (extra : List ν) :
    (x.run ⟨limit.map (· + extra.length)⟩ s (extra ++ inputs)).Agrees
      (fun vs' vs => vs' = extra ++ vs) (x.run ⟨limit⟩ s inputs) := by
  cases limit with
  | none => exact (x.run_lifts s inputs extra hfails).1
  | some max =>
    have hlimits := x.run_limits max s inputs
    have hpeak := hlimits.peak_le hfails.not_overflows
    have hsame := hlimits.within hpeak
    have hunlimited : (x.run {} s inputs).FailsByElement := by
      intro e he
      apply hfails e
      rw [hsame.result.eq, he]
    obtain ⟨hagrees, hraised⟩ := x.run_lifts s inputs extra hunlimited
    have hwithin : (x.run {} s (extra ++ inputs)).peak ≤ max + extra.length := by omega
    have hsame' := (x.run_limits (max + extra.length) s (extra ++ inputs)).within hwithin
    exact .of_eq hsame' (hagrees.to_eq hsame)

/-- Execution never touches what lies below its operands. A run under any context that ends with values, or
with an element's own error, ends with the same above any values whatever, or with the same error: the
calls it makes are the same, and it leaves the contexts alike. A limit, if there is one, is to be raised by
as much as lies below. -/
theorem Contexts.run_above (cs : Contexts) (c : Context) (limit : Option Nat) (x : Expression τ ν ε)
    (inputs extra : List ν) :
    let shorter := cs.run c ⟨limit⟩ x inputs
    let longer := cs.run c ⟨limit.map (· + extra.length)⟩ x (extra ++ inputs)
    (∀ vs, shorter.1 = .ok vs → longer.1 = .ok (extra ++ vs)) ∧
      (∀ e, shorter.1 = .error (.element e) → longer.1 = .error (.element e)) ∧
      ((∃ vs, shorter.1 = .ok vs) ∨ (∃ e, shorter.1 = .error (.element e)) →
        (x.run ⟨limit.map (· + extra.length)⟩ (cs.signal c) (extra ++ inputs)).calls =
            (x.run ⟨limit⟩ (cs.signal c) inputs).calls ∧
          longer.2 = shorter.2) := by
  intro shorter longer
  have hagrees : (∃ vs, shorter.1 = .ok vs) ∨ (∃ e, shorter.1 = .error (.element e)) →
      (x.run ⟨limit.map (· + extra.length)⟩ (cs.signal c) (extra ++ inputs)).Agrees
        (fun vs' vs => vs' = extra ++ vs) (x.run ⟨limit⟩ (cs.signal c) inputs) :=
    fun h => Expression.run_raised (Run.failsByElement_iff.2 h) extra
  refine ⟨fun vs hvs => ?_, fun e he => ?_, fun h => ?_⟩
  · exact (hagrees (.inl ⟨vs, hvs⟩)).result.eq_map.trans (congrArg (Except.map (extra ++ ·)) hvs)
  · exact (hagrees (.inr ⟨e, he⟩)).result.eq_map.trans (congrArg (Except.map (extra ++ ·)) he)
  · exact ⟨(hagrees h).calls, congrArg (cs.settle c) (hagrees h).signal⟩

/-- Two values below the one that the product takes: its own stack needs room for two more, and with less
it overflows, though no nested stack is any higher. Above the same two values an element fails as it does
without them, after a call that asked to cancel. -/
theorem Contexts.run_above_product :
    let cs : Contexts := {}
    let c : Context := ⟨0, none⟩
    let extra : List Scalar := [.nil, .text "w"]
    let ending : Element TypeTag Scalar String :=
      { Tracing.element "!" .operator 1 0 .right with execute := Behaviour.execute "!" .cancel }
    let broken : Element TypeTag Scalar String :=
      { Tracing.element "?" .operator 1 0 .right with execute := Behaviour.execute "?" (.guard []) }
    let x : Expression TypeTag Scalar String :=
      ⟨"x", [.nested ⟨"y", [.element ending, .element broken], [Tracing.text], [Tracing.text]⟩],
        [Tracing.text], [Tracing.text]⟩
    (cs.run c ⟨some 2⟩ Tracing.product [.text "v"]).1 = .ok [.text "*(v,-(a(),e()))"] ∧
      (cs.run c ⟨some 4⟩ Tracing.product (extra ++ [.text "v"])).1 =
        .ok (extra ++ [.text "*(v,-(a(),e()))"]) ∧
      (cs.run c ⟨some 3⟩ Tracing.product (extra ++ [.text "v"])).1 = .error (.stackOverflow 4 3) ∧
      (cs.run c {} x [.text "v"]).1 = .error (.element "cancelled") ∧
      (cs.run c {} x (extra ++ [.text "v"])).1 = .error (.element "cancelled") ∧
      (cs.run c {} x (extra ++ [.text "v"])).2 = cs.cancel c := by
  intro cs c extra ending broken x
  obtain ⟨hvalues, -, -⟩ := Contexts.run_above cs c (some 2) Tracing.product [.text "v"] extra
  obtain ⟨-, herror, hsame⟩ := Contexts.run_above cs c none x [.text "v"] extra
  have hfails : (cs.run c {} x [.text "v"]).1 = .error (.element "cancelled") := rfl
  refine ⟨rfl, hvalues _ rfl, rfl, hfails, herror _ hfails, ?_⟩
  exact (hsame (.inr ⟨_, hfails⟩)).2

end ExpressionEngine
