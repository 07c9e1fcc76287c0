import ExpressionEngine.Proofs.Machine.Soundness
import Mathlib.Logic.Relation

/-! Recompilation. All that sealing depends on, but for the name, is the program that a builder drains
to and the inputs that were declared; it does not matter by which way the program came about. So what
was put together in infix order may as well be pushed, and the program of an expression that was
obtained, or of any one nested in it, can be pushed again and gives the same types and the same
runs. -/

namespace ExpressionEngine

variable {τ ν ε : Type}

namespace Expression

/-- The same but for the name, in all that can be asked and in every run. -/
structure Alike (x y : Expression τ ν ε) : Prop where
  program : x.program = y.program
  inputs : x.inputs = y.inputs
  outputs : x.outputs = y.outputs
  run : ∀ options s arguments, x.run options s arguments = y.run options s arguments
  runSingle : ∀ options s arguments,
    x.runSingle options s arguments = y.runSingle options s arguments

/-- What is run is the program, whatever the name and the types. -/
theorem Alike.of_program {x y : Expression τ ν ε} (hp : x.program = y.program)
    (hi : x.inputs = y.inputs) (ho : x.outputs = y.outputs) : x.Alike y := by
  have hrun : ∀ options s arguments, x.run options s arguments = y.run options s arguments := by
    intro options s arguments
    rw [run_eq, run_eq, hp]
  refine ⟨hp, hi, ho, hrun, fun options s arguments => ?_⟩
  rw [Expression.runSingle, Expression.runSingle, hrun]

/-- The expression itself, and those nested in its program at any depth. -/
def Encloses : Expression τ ν ε → Expression τ ν ε → Prop :=
  Relation.ReflTransGen fun x y => .nested y ∈ x.program

end Expression

/-- The same error of the static check, or expressions that are alike. -/
inductive SameVerdict :
    Except BuildError (Expression τ ν ε) → Except BuildError (Expression τ ν ε) → Prop
  | underflow (element : String) (required available : Nat) :
    SameVerdict (.error (.arityUnderflow element required available))
      (.error (.arityUnderflow element required available))
  | mismatch (element required provided : String) :
    SameVerdict (.error (.typeMismatch element required provided))
      (.error (.typeMismatch element required provided))
  | ok {x y : Expression τ ν ε} (alike : x.Alike y) : SameVerdict (.ok x) (.ok y)

variable [Ty τ]

theorem Checked.of_encloses {x y : Expression τ ν ε} (hx : Checked x) (h : x.Encloses y) :
    Checked y := by
  induction h with
  | refl => exact hx
  | tail _ hnested ih => exact ih.nested hnested

namespace Builder

/-- Two builders that drain to one program from the same inputs come to the same. -/
theorem sameVerdict_of_drain {b b' : Builder τ ν ε} {program : List (Node τ ν ε)}
    (hd : b.yard.drain = .ok program) (hd' : b'.yard.drain = .ok program)
    (hi : b.inputs = b'.inputs) : SameVerdict b.finalize b'.finalize := by
  rw [finalize_of_drain hd, finalize_of_drain hd', hi]
  cases h : typeCheck b'.inputs program with
  | error e =>
    rcases typeCheck_error_cases h with ⟨_, _, _, rfl⟩ | ⟨_, _, _, rfl⟩
    · exact .underflow _ _ _
    · exact .mismatch _ _ _
  | ok outputs => exact .ok (.of_program rfl rfl rfl)

omit [Ty τ] in
theorem inputs_pushEach (b : Builder τ ν ε) (ns : List (Node τ ν ε)) :
    (b.pushEach ns).inputs = b.inputs := by
  rw [pushEach_eq]

/-- What the static check has passed it passes again. -/
theorem finalize_pushEach_of_checked {b : Builder τ ν ε} (hb : b.Fresh) {x : Expression τ ν ε}
    (hx : Checked x) (hi : b.inputs = x.inputs) :
    ∃ z, (b.pushEach x.program).finalize = .ok z ∧ z.Alike x := by
  have hsealed := finalize_of_drain (drain_pushEach hb x.program)
  rw [inputs_pushEach, hi, hx.check] at hsealed
  exact ⟨_, hsealed, .of_program rfl rfl rfl⟩

/-- Infix order and postfix order agree, and what was obtained is stable. A builder that was fed in
infix order and has no group open comes to the same as a fresh one with the same inputs to which its
program is pushed: the same error of the static check, or expressions that are alike. And if the
program of an expression that was obtained, or of any one nested in it at whatever depth, is pushed
into a fresh builder with its inputs, then it is accepted and the outcome is alike. -/
theorem finalize_recompiled {b : Builder τ ν ε} (hb : b.Fresh) :
    (∀ (b' : Builder τ ν ε) ns,
        (∀ m ∈ (b'.appendEach ns).builder.yard.pending, Yard.isOpener m = false) →
        b.inputs = b'.inputs →
        SameVerdict (b'.appendEach ns).builder.finalize
          (b.pushEach ((b'.appendEach ns).builder.yard.emitted ++
            (b'.appendEach ns).builder.yard.pending)).finalize) ∧
      ∀ x y, Compiled x → x.Encloses y → b.inputs = y.inputs →
        ∃ z, (b.pushEach y.program).finalize = .ok z ∧ z.Alike y := by
  constructor
  · intro b' ns hopen hi
    have hd := Yard.drain_eq_ok_iff.2 ⟨hopen, rfl⟩
    have hd' := drain_pushEach hb (b'.appendEach ns).builder.yard.nodes
    apply sameVerdict_of_drain hd hd'
    rw [appendEach, inputs_appendFrom, inputs_pushEach, hi]
  · intro x y hx hxy hi
    exact finalize_pushEach_of_checked hb (hx.checked.of_encloses hxy) hi

/-- In infix order a nested expression that takes the declared input, once with all its operands and
once below an operator that lacks one; and an expression two levels down in another, pushed again. All
is pushed under other names. -/
theorem finalize_recompiled_product :
    let infixed : Builder TypeTag Scalar String := { inputs := [Tracing.text] }
    let pushed : Builder TypeTag Scalar String :=
      { inputs := [Tracing.text], options := ⟨", "⟩, name := some "again" }
    let again : Builder TypeTag Scalar String := { name := some "once more" }
    let d := Node.nested Tracing.difference
    let minus := Tracing.binary "-" 1 .left
    let times := Tracing.binary "*" 2 .left
    let a := Tracing.value "a"
    let ns := [d, minus, a, times, Tracing.opener, a, Tracing.closer]
    SameVerdict (infixed.appendEach ns).builder.finalize
        (pushed.pushEach [d, a, a, times, minus]).finalize ∧
      SameVerdict (infixed.appendEach [times, d]).builder.finalize
        (pushed.pushEach [d, times]).finalize ∧
      (infixed.appendEach [times, d]).builder.finalize = .error (.arityUnderflow "*" 2 1) ∧
      Compiled Tracing.product ∧ Tracing.product.Encloses Tracing.constant ∧
      ∃ z, (again.pushEach Tracing.constant.program).finalize = .ok z ∧
        z.Alike Tracing.constant := by
  intro infixed pushed again d minus times a ns
  have henclosed : Tracing.product.Encloses Tracing.constant := by
    apply Relation.ReflTransGen.tail (b := Tracing.difference)
    · apply Relation.ReflTransGen.single
      simp [Tracing.product]
    · simp [Tracing.difference]
  obtain ⟨hfed, -⟩ := finalize_recompiled (b := pushed) ⟨rfl, rfl⟩
  obtain ⟨-, hagain⟩ := finalize_recompiled (b := again) ⟨rfl, rfl⟩
  refine ⟨?_, ?_, rfl, Tracing.compiled_product, henclosed, ?_⟩
  · exact hfed infixed ns (by decide) rfl
  · exact hfed infixed [times, d] (by decide) rfl
  · exact hagain Tracing.product Tracing.constant Tracing.compiled_product henclosed rfl

end Builder

end ExpressionEngine
