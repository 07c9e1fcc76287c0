import ExpressionEngine.Proofs.Machine.Soundness
import ExpressionEngine.Proofs.Variance

/-! Inlining keeps an expression well typed. Inside a nested expression the declared types are assumed;
in its place there are the types that are really provided, and these may be fewer. By variance the
elements accept them all the same and give no type that was not derived before. -/

namespace ExpressionEngine

variable {τ ν ε : Type} [Ty τ]

theorem typeCheck_inlined [PartialEquivBEq τ] {program : List (Node τ ν ε)}
    (hn : ∀ n ∈ program, Implements (inlined [n]) n) {slots slots' outputs : List (TypeSet τ)}
    (hs : List.Forall₂ TypeSet.Narrows slots' slots) (hc : typeCheck slots program = .ok outputs) :
    ∃ outputs', typeCheck slots' (inlined program) = .ok outputs' ∧
      List.Forall₂ TypeSet.Narrows outputs' outputs := by
  rw [inlined_eq_flatten]
  refine typeCheck_implements ?_ hs hc
  rw [List.forall₂_map_left_iff]
  exact List.forall₂_same.2 hn

/-- The declared inputs are what the check of a nested expression started on; what fits there is
narrower. -/
theorem Checked.implements_inlined [PartialEquivBEq τ] {y : Expression τ ν ε} (hy : Checked y)
    (hn : ∀ n ∈ y.program, Implements (inlined [n]) n) :
    Implements (inlined [Node.nested y]) (.nested y) := by
  intro provided hf
  rw [inlined_nested]
  exact typeCheck_inlined hn hf.narrows hy.check

theorem Checked.node_implements [EquivBEq τ] {x : Expression τ ν ε} (hx : Checked x) :
    ∀ n ∈ x.program, Implements (inlined [n]) n := by
  induction hx with
  | @intro x _ nested ih =>
    intro n hmem
    cases n with
    | element e => exact (Node.element e).implements_self
    | nested y => exact (nested y hmem).implements_inlined (ih y hmem)

/-- With every nested expression replaced in place by its own program, an expression is accepted as
before; it ends with as many values, and each of them has no more types than were derived for it. -/
theorem Compiled.finalize_inlined [EquivBEq τ] {x : Expression τ ν ε} (hx : Compiled x)
    {b : Builder τ ν ε} (hb : b.Fresh) (hi : b.inputs = x.inputs) :
    ∃ y, (b.pushEach (inlined x.program)).finalize = .ok y ∧
      y.outputs.length = x.outputs.length ∧
      List.Forall₂ TypeSet.Narrows y.outputs x.outputs := by
  have hself : List.Forall₂ TypeSet.Narrows x.inputs x.inputs :=
    List.forall₂_same.2 fun s _ => .refl s
  obtain ⟨outputs, hc, hn⟩ := typeCheck_inlined hx.checked.node_implements hself hx.checked.check
  have hinputs : (b.pushEach (inlined x.program)).inputs = x.inputs := by
    rw [Builder.pushEach_eq, hi]
  rw [Builder.finalize_of_drain (Builder.drain_pushEach hb _), hinputs, hc]
  exact ⟨_, rfl, hn.length_eq, hn⟩

/-- What the relays declare is lost in their place: a text is known to be one again. -/
theorem Compiled.finalize_inlined_relayed :
    let b : Builder TypeTag Scalar String := { inputs := [Tracing.text] }
    Compiled Tracing.relayed ∧ b.Fresh ∧
      ∃ y, (b.pushEach (inlined Tracing.relayed.program)).finalize = .ok y ∧
        y.outputs = [Tracing.text, Tracing.text] ∧
        Tracing.relayed.outputs = [Tracing.text, Tracing.optional] ∧
        List.Forall₂ TypeSet.Narrows y.outputs Tracing.relayed.outputs ∧
        ¬ List.Forall₂ TypeSet.Narrows Tracing.relayed.outputs y.outputs := by
  intro b
  have hb : b.Fresh := ⟨rfl, rfl⟩
  obtain ⟨y, hy, -, hn⟩ := Compiled.finalize_inlined Tracing.compiled_relayed hb rfl
  have hmap : (b.pushEach (inlined Tracing.relayed.program)).finalize.map Expression.outputs =
      .ok [Tracing.text, Tracing.text] := rfl
  have hy' : y.outputs = [Tracing.text, Tracing.text] := by
    rw [hy] at hmap
    exact Except.ok.inj hmap
  refine ⟨Tracing.compiled_relayed, hb, y, hy, hy', rfl, hn, ?_⟩
  rw [hy']
  decide

end ExpressionEngine
