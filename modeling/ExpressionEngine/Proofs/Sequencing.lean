import ExpressionEngine.Proofs.Machine.Peak
import ExpressionEngine.Proofs.Machine.Signals
import ExpressionEngine.Proofs.Recompilation
import ExpressionEngine.Proofs.Substitution

/-! Programs in sequence. All that one part of a program hands on to the next is what its stack holds: the
check goes on from the types that the first part ends with, and the machine from its values. They may as
well be put on a fresh stack under the same limit, since they were within it. So a program in two parts
is checked, and runs, as two expressions one after the other. -/

namespace ExpressionEngine

variable {τ ν ε : Type}

/-! ### Runs in sequence -/

/-- Inputs within the limit are put on the stack without further ado. -/
theorem runFrom_of_within {options : ExecutionOptions} {inputs : List ν}
    (h : WithinLimit options.maxStackSize inputs) (program : List (Node τ ν ε)) (s : Signal) :
    runFrom options program s inputs =
      { (runProgram options program ⟨options.maxStackSize, inputs⟩ s).map Stack.items with
        peak := max inputs.length
          (runProgram options program ⟨options.maxStackSize, inputs⟩ s).peak } := by
  rw [runFrom, Stack.empty, Stack.load_eq_of_within h, Run.bind_of_ok rfl]
  simp

namespace Expression

variable {options : ExecutionOptions} {x y z : Expression τ ν ε}

/-- What a run leaves is within the limit it was run under. -/
theorem within_of_run {s : Signal} {inputs vs : List ν}
    (h : (x.run options s inputs).result = .ok vs) : WithinLimit options.maxStackSize vs := by
  intro max hmax
  obtain rfl : options = ⟨some max⟩ := by
    cases options
    exact congrArg ExecutionOptions.mk hmax
  have hlimits := x.run_limits max s inputs
  have hends : (x.run ⟨some max⟩ s inputs).FailsByElement := Run.failsByElement_iff.2 (.inl ⟨vs, h⟩)
  have hpeak := hlimits.peak_le hends.not_overflows
  have hunlimited := (hlimits.within hpeak).result.eq
  rw [h, run_eq] at hunlimited
  rw [run_eq] at hpeak
  exact Nat.le_trans (runFrom_height_le hunlimited.symm) hpeak

/-- The whole of the run, calls and peak included. -/
theorem run_sequence (hz : z.program = x.program ++ y.program) (options : ExecutionOptions)
    (s : Signal) (inputs : List ν) : z.run options s inputs =
      (x.run options s inputs).bind fun vs s => y.run options s vs := by
  rw [run_eq options z, hz, runFrom_append, ← run_eq options x]
  cases hr : (x.run options s inputs).result with
  | error e => rw [Run.bind_of_error hr, Run.bind_of_error hr]
  | ok vs =>
    rw [Run.bind_of_ok hr, Run.bind_of_ok hr, run_eq options y, runFrom_of_within (within_of_run hr)]
    -- to put the values on a fresh stack takes no more than they had taken before
    have hheight : vs.length ≤ (x.run options s inputs).peak := by
      rw [run_eq] at hr ⊢
      exact runFrom_height_le hr
    simp only [Run.peak_map]
    congr 1
    omega

theorem runSingle_sequence (hz : z.program = x.program ++ y.program) (options : ExecutionOptions)
    (s : Signal) (inputs : List ν) : z.runSingle options s inputs =
      (x.run options s inputs).bind fun vs s => y.runSingle options s vs := by
  rw [runSingle, run_sequence hz, Run.bind_assoc]
  rfl

end Expression

/-! ### Contexts -/

namespace Contexts

theorem settle_settle {s s' : Signal} (h : s.cancelled = true → s'.cancelled = true) (cs : Contexts)
    (c : Context) : (cs.settle c s).settle c s' = cs.settle c s' := by
  unfold settle
  by_cases hs : s.cancelled = true
  · have hc : (cs.cancel c).isCancelled c = true := by simp [isCancelled_cancel]
    simp [hs, h hs, cancel_of_isCancelled hc]
  · simp [hs]

/-- The next run under the context is handed what the last one has left. -/
theorem signal_settle_run (cs : Contexts) (c : Context) (options : ExecutionOptions)
    (x : Expression τ ν ε) (inputs : List ν) :
    (cs.settle c (x.run options (cs.signal c) inputs).signal).signal c =
      (x.run options (cs.signal c) inputs).signal := by
  rw [x.signal_run, settle_signal_cancelIf, signal_ite_cancel]

theorem run_sequence {x y z : Expression τ ν ε} (hz : z.program = x.program ++ y.program)
    (cs : Contexts) (c : Context) (options : ExecutionOptions) (inputs : List ν) :
    cs.run c options z inputs =
      match cs.run c options x inputs with
      | (.ok vs, cs') => cs'.run c options y vs
      | (.error e, cs') => (.error e, cs') := by
  unfold run
  rw [Expression.run_sequence hz]
  dsimp only
  cases hr : (x.run options (cs.signal c) inputs).result with
  | error e => rw [Run.bind_of_error hr]
  | ok vs =>
    rw [Run.bind_of_ok hr]
    dsimp only
    rw [signal_settle_run, settle_settle]
    intro hcancelled
    rw [y.signal_run, Signal.cancelled_cancelIf, hcancelled, Bool.true_or]

end Contexts

/-! ### Builders -/

namespace Builder

variable [Ty τ] {b b' b'' : Builder τ ν ε}

/-- Sequential composition. When `p` is accepted over some inputs, `p` and then `q` is accepted over them
just if `q` alone is over the types that `p` ends with, with the same error or the same outputs. Run under
any context and options, the two together do what they do one after the other: the calls, the result, the
signal and the peak are the same, and so are the contexts that are left. -/
theorem finalize_sequence (hb : b.Fresh) (hb' : b'.Fresh) (hb'' : b''.Fresh)
    {p q : List (Node τ ν ε)} {x : Expression τ ν ε} (hx : (b.pushEach p).finalize = .ok x)
    (hi : b'.inputs = b.inputs) (ho : b''.inputs = x.outputs) :
    (b'.pushEach (p ++ q)).finalize.map Expression.outputs =
        (b''.pushEach q).finalize.map Expression.outputs ∧
      ∀ z y, (b'.pushEach (p ++ q)).finalize = .ok z → (b''.pushEach q).finalize = .ok y →
        (∀ options s inputs, z.run options s inputs =
            (x.run options s inputs).bind fun vs s => y.run options s vs) ∧
          (∀ options s inputs, z.runSingle options s inputs =
            (x.run options s inputs).bind fun vs s => y.runSingle options s vs) ∧
          ∀ (cs : Contexts) c options inputs, cs.run c options z inputs =
            match cs.run c options x inputs with
            | (.ok vs, cs') => cs'.run c options y vs
            | (.error e, cs') => (.error e, cs') := by
  constructor
  · have hcheck := outputs_finalize_pushEach hb p
    rw [hx] at hcheck
    rw [outputs_finalize_pushEach hb', outputs_finalize_pushEach hb'', hi, ho,
      typeCheck_append_of_ok hcheck.symm]
  · intro z y hz hy
    have hprogram : z.program = x.program ++ y.program := by
      rw [program_of_finalize_pushEach hb' hz, program_of_finalize_pushEach hb hx,
        program_of_finalize_pushEach hb'' hy]
    exact ⟨Expression.run_sequence hprogram, Expression.runSingle_sequence hprogram,
      Contexts.run_sequence hprogram⟩

/-- Two values are left to the second part, and it takes room for a third; a limit of two is exceeded there,
and not before. Another second part is short of an operand, and so is the whole. -/
theorem finalize_sequence_overflow :
    let whole : Builder TypeTag Scalar String := { inputs := [Tracing.text] }
    let rest : Builder TypeTag Scalar String :=
      { inputs := [Tracing.text, Tracing.text], options := ⟨", "⟩, name := some "rest" }
    let times := Tracing.binary "*" 2 .left
    let p := [.nested Tracing.difference, Tracing.value "a"]
    let q := [times, Tracing.value "b", Tracing.value "c"]
    ∃ x y z, (whole.pushEach p).finalize = .ok x ∧ (rest.pushEach q).finalize = .ok y ∧
      (whole.pushEach (p ++ q)).finalize = .ok z ∧
      (x.run ⟨some 2⟩ {} [.text "v"]).result = .ok [.text "-(v,e())", .text "a()"] ∧
      (z.run ⟨some 2⟩ {} [.text "v"]).result = .error (.stackOverflow 3 2) ∧
      ((x.run ⟨some 3⟩ {} [.text "v"]).bind fun vs s => y.run ⟨some 3⟩ s vs).result =
        .ok [.text "*(-(v,e()),a())", .text "b()", .text "c()"] ∧
      (whole.pushEach (p ++ [times, times])).finalize.map Expression.outputs =
        .error (.arityUnderflow "*" 2 1) := by
  intro whole rest times p q
  have hwhole : whole.Fresh := ⟨rfl, rfl⟩
  have hrest : rest.Fresh := ⟨rfl, rfl⟩
  obtain ⟨x, hx, houtputs, hrun⟩ : ∃ x, (whole.pushEach p).finalize = .ok x ∧
      rest.inputs = x.outputs ∧
      (x.run ⟨some 2⟩ {} [.text "v"]).result = .ok [.text "-(v,e())", .text "a()"] :=
    ⟨_, rfl, rfl, rfl⟩
  obtain ⟨y, hy⟩ : ∃ y, (rest.pushEach q).finalize = .ok y := ⟨_, rfl⟩
  obtain ⟨z, hz, hoverflow, hvalues⟩ : ∃ z, (whole.pushEach (p ++ q)).finalize = .ok z ∧
      (z.run ⟨some 2⟩ {} [.text "v"]).result = .error (.stackOverflow 3 2) ∧
      (z.run ⟨some 3⟩ {} [.text "v"]).result =
        .ok [.text "*(-(v,e()),a())", .text "b()", .text "c()"] := ⟨_, rfl, rfl, rfl⟩
  obtain ⟨-, hsequence⟩ := finalize_sequence hwhole hwhole hrest (q := q) hx rfl houtputs
  obtain ⟨herror, -⟩ :=
    finalize_sequence hwhole hwhole hrest (q := [times, times]) hx rfl houtputs
  refine ⟨x, y, z, hx, hy, hz, hrun, hoverflow, ?_, herror⟩
  rw [← (hsequence z y hz hy).1, hvalues]

end Builder

end ExpressionEngine
