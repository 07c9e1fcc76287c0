import ExpressionEngine.Proofs.Machine.Order

/-! Signals in a run. The engine hands the signal from call to call without a look at it. What a run
leaves of it is what its elements have asked for, and where no element reads the signal a run comes to
the same result under any. -/

namespace ExpressionEngine

variable {τ ν ε α β : Type}

/-! ### What a run does to the signal -/

theorem Chained.signal_eq {s s' : Signal} {calls : List (Call τ ν ε)} (h : Chained s calls s') :
    s' = s.cancelIf (calls.any fun c => c.outcome.cancels) := by
  induction h with
  | nil s => simp
  | cons _ _ _ ih => rw [ih, Signal.cancelIf_cancelIf, List.any_cons]

theorem Expression.signal_run (options : ExecutionOptions) (x : Expression τ ν ε) (s : Signal)
    (inputs : List ν) : (x.run options s inputs).signal =
      s.cancelIf ((x.run options s inputs).calls.any fun c => c.outcome.cancels) :=
  (x.run_traverses options s inputs).chained.signal_eq

theorem Expression.signal_runSingle (options : ExecutionOptions) (x : Expression τ ν ε) (s : Signal)
    (inputs : List ν) :
    (x.runSingle options s inputs).signal = (x.run options s inputs).signal := by
  rw [runSingle]
  cases hr : (x.run options s inputs).result with
  | error e => rw [Run.bind_of_error hr]
  | ok vs =>
    rw [Run.bind_of_ok hr]
    rcases vs with - | ⟨v, - | ⟨w, rest⟩⟩ <;> rfl

namespace Contexts

/-- What is taken over from a run is what its elements asked for. -/
theorem settle_signal_cancelIf (cs : Contexts) (c : Context) (asked : Bool) :
    cs.settle c ((cs.signal c).cancelIf asked) = if asked then cs.cancel c else cs := by
  cases hc : cs.isCancelled c with
  | true => simp [settle, signal, Signal.cancelIf, hc, cancel_of_isCancelled hc]
  | false => simp [settle, signal, Signal.cancelIf, hc]

theorem families_run (cs : Contexts) (c : Context) (options : ExecutionOptions)
    (x : Expression τ ν ε) (inputs : List ν) : (cs.run c options x inputs).2 =
      if (x.run options (cs.signal c) inputs).calls.any fun call => call.outcome.cancels
      then cs.cancel c else cs := by
  show cs.settle c (x.run options (cs.signal c) inputs).signal = _
  rw [x.signal_run, settle_signal_cancelIf]

theorem isCancelled_ite_cancel (cs : Contexts) (c d : Context) (asked : Bool) :
    (if asked then cs.cancel c else cs).isCancelled d = true ↔
      cs.isCancelled d = true ∨ asked = true ∧ d.family = c.family := by
  cases asked with
  | false => simp
  | true => simp [isCancelled_cancel, or_comm]

end Contexts

/-! ### A signal that is not read -/

/-- Whatever the signal shows, the element comes to the same. It may still ask to cancel. -/
def Element.IgnoresSignal (e : Element τ ν ε) : Prop :=
  ∀ s s' arguments, (e.execute s arguments).result = (e.execute s' arguments).result

namespace Run

/-- The same elements are called on the same arguments, and the results are the same. -/
structure Parallels (r u : Run τ ν ε α) : Prop where
  result : r.result = u.result
  calls : r.calls.map (fun c => (c.element, c.arguments)) =
    u.calls.map fun c => (c.element, c.arguments)

theorem Parallels.bind {r u : Run τ ν ε α} {f g : α → Signal → Run τ ν ε β} (h : r.Parallels u)
    (hn : ∀ a s s', (f a s).Parallels (g a s')) : (r.bind f).Parallels (u.bind g) := by
  obtain ⟨hresult, hcalls⟩ := h
  cases hr : r.result with
  | error e =>
    rw [bind_of_error hr, bind_of_error (hresult ▸ hr)]
    exact ⟨rfl, hcalls⟩
  | ok a =>
    have hnext := hn a r.signal u.signal
    rw [bind_of_ok hr, bind_of_ok (hresult ▸ hr)]
    refine ⟨hnext.result, ?_⟩
    simp only [List.map_append, hcalls, hnext.calls]

end Run

theorem Stack.load_parallels (stack : Stack ν) (s s' : Signal) (values : List ν) :
    (stack.load s values : Run τ ν ε (Stack ν)).Parallels (stack.load s' values) := by
  unfold load
  split <;> exact ⟨rfl, rfl⟩

theorem Tracing.ignoresSignal (symbol : String) (kind : ElementKind) (arity : Nat) (precedence : Int)
    (associativity : Associativity) :
    (Tracing.element symbol kind arity precedence associativity).IgnoresSignal := fun _ _ _ => rfl

theorem Element.IgnoresSignal.run_parallels {e : Element τ ν ε} (he : e.IgnoresSignal)
    (s s' : Signal) (arguments : List ν) : (e.run s arguments).Parallels (e.run s' arguments) where
  result := congrArg (Except.mapError ExecutionError.element) (he s s' arguments)
  calls := rfl

theorem runProgram_parallels {options : ExecutionOptions} {program : List (Node τ ν ε)}
    (hn : ∀ n ∈ program, ∀ s s' (arguments : List ν),
      (n.run options s arguments).Parallels (n.run options s' arguments))
    (stack : Stack ν) (s s' : Signal) :
    (runProgram options program stack s).Parallels (runProgram options program stack s') := by
  induction program generalizing stack s s' with
  | nil => exact ⟨rfl, rfl⟩
  | cons n rest ih =>
    obtain ⟨limit, items⟩ := stack
    rcases Stack.lt_or_exists_top n.inputs.length items with h | ⟨below, arguments, rfl, ha⟩
    · rw [runProgram_cons_of_lt h, runProgram_cons_of_lt h]
      exact ⟨rfl, rfl⟩
    · rw [runProgram_cons_append ha, runProgram_cons_append ha]
      refine (hn n List.mem_cons_self s s' arguments).bind fun produced s s' => ?_
      refine (Stack.load_parallels _ s s' produced).bind fun stack s s' => ?_
      exact ih (fun m hm => hn m (List.mem_cons_of_mem n hm)) stack s s'

theorem Expression.run_parallels {x : Expression τ ν ε} (hx : ∀ e ∈ x.leaves, e.IgnoresSignal)
    (options : ExecutionOptions) (s s' : Signal) (inputs : List ν) :
    (x.run options s inputs).Parallels (x.run options s' inputs) := by
  induction x using Expression.nestedInduction generalizing s s' inputs with
  | step x ih =>
    have hn : ∀ n ∈ x.program, ∀ s s' (arguments : List ν),
        (n.run options s arguments).Parallels (n.run options s' arguments) := by
      intro n hmem s s' arguments
      cases n with
      | element e => exact (hx e (mem_leaves_of_element hmem)).run_parallels s s' arguments
      | nested y => exact ih y hmem (fun e he => hx e (mem_leaves_of_nested hmem he)) s s' arguments
    rw [run_eq, run_eq]
    refine (Stack.load_parallels _ s s' inputs).bind fun stack s s' => ?_
    refine (runProgram_parallels hn stack s s').bind fun stack s s' => ?_
    exact ⟨rfl, rfl⟩

theorem Expression.runSingle_parallels {x : Expression τ ν ε}
    (hx : ∀ e ∈ x.leaves, e.IgnoresSignal) (options : ExecutionOptions) (s s' : Signal)
    (inputs : List ν) : (x.runSingle options s inputs).Parallels (x.runSingle options s' inputs) := by
  refine (run_parallels hx options s s' inputs).bind fun vs s s' => ?_
  rcases vs with - | ⟨v, - | ⟨w, rest⟩⟩ <;> exact ⟨rfl, rfl⟩

end ExpressionEngine
