import ExpressionEngine.Infix.Tree
import ExpressionEngine.Proofs.Typing

/-! Typing infix trees without a stack. If every node takes as many values as its place in the tree
gives it, the static check of the postorder never runs out of slots: it leaves the root's outputs on
top of what was there, or it finds an operator whose operands do not fit. -/

namespace ExpressionEngine

variable {τ ν ε : Type}

namespace InfixTree

/-- A leaf takes nothing, a prefix operator one value and a binary operator two; each gives one. -/
def HasArities : InfixTree τ ν ε → Prop
  | .leaf n => n.inputs.length = 0 ∧ n.outputs.length = 1
  | .group _ inner _ => inner.HasArities
  | .unary o operand => (o.inputs.length = 1 ∧ o.outputs.length = 1) ∧ operand.HasArities
  | .binary o left right =>
    (o.inputs.length = 2 ∧ o.outputs.length = 1) ∧ left.HasArities ∧ right.HasArities

instance decidableHasArities : (t : InfixTree τ ν ε) → Decidable t.HasArities
  | .leaf n => inferInstanceAs (Decidable (n.inputs.length = 0 ∧ n.outputs.length = 1))
  | .group _ inner _ => inner.decidableHasArities
  | .unary o operand =>
    have := operand.decidableHasArities
    inferInstanceAs (Decidable
      ((o.inputs.length = 1 ∧ o.outputs.length = 1) ∧ operand.HasArities))
  | .binary o left right =>
    have := left.decidableHasArities
    have := right.decidableHasArities
    inferInstanceAs (Decidable
      ((o.inputs.length = 2 ∧ o.outputs.length = 1) ∧ left.HasArities ∧ right.HasArities))

/-- What the root declares to give; a group gives what it holds. -/
def outputs : InfixTree τ ν ε → List (TypeSet τ)
  | .leaf n => n.outputs
  | .group _ inner _ => inner.outputs
  | .unary o _ => o.outputs
  | .binary o _ _ => o.outputs

theorem length_outputs {t : InfixTree τ ν ε} (ha : t.HasArities) : t.outputs.length = 1 := by
  induction t with
  | leaf n => exact ha.2
  | group opener inner closer ih => exact ih ha
  | unary o operand _ => exact ha.1.2
  | binary o left right _ _ => exact ha.1.2

variable [Ty τ]

/-- Every operator accepts whatever its operands may give. -/
def WellTyped : InfixTree τ ν ε → Prop
  | .leaf _ => True
  | .group _ inner _ => inner.WellTyped
  | .unary o operand => operand.WellTyped ∧ Fits operand.outputs o.inputs
  | .binary o left right =>
    left.WellTyped ∧ right.WellTyped ∧ Fits (left.outputs ++ right.outputs) o.inputs

instance decidableWellTyped : (t : InfixTree τ ν ε) → Decidable t.WellTyped
  | .leaf _ => inferInstanceAs (Decidable True)
  | .group _ inner _ => inner.decidableWellTyped
  | .unary o operand =>
    have := operand.decidableWellTyped
    inferInstanceAs (Decidable (operand.WellTyped ∧ Fits operand.outputs o.inputs))
  | .binary o left right =>
    have := left.decidableWellTyped
    have := right.decidableWellTyped
    inferInstanceAs (Decidable
      (left.WellTyped ∧ right.WellTyped ∧ Fits (left.outputs ++ right.outputs) o.inputs))

theorem typeCheck_postorder_of_wellTyped {t : InfixTree τ ν ε} (ha : t.HasArities)
    (ht : t.WellTyped) (slots : List (TypeSet τ)) :
    typeCheck slots t.postorder = .ok (slots ++ t.outputs) := by
  induction t generalizing slots with
  | leaf n =>
    have hf : Fits [] n.inputs := by
      rw [List.eq_nil_of_length_eq_zero ha.1]
      exact .nil
    have h := n.typeStep_of_fits slots hf
    rw [List.append_nil] at h
    rw [postorder, typeCheck_singleton, h, outputs]
  | group opener inner closer ih => exact ih ha ht slots
  | unary o operand ih =>
    rw [postorder, typeCheck_append_of_ok (ih ha.2 ht.1 slots), typeCheck_singleton,
      o.typeStep_of_fits slots ht.2, outputs]
  | binary o left right ihl ihr =>
    obtain ⟨-, hal, har⟩ := ha
    obtain ⟨htl, htr, hf⟩ := ht
    rw [postorder, List.append_assoc, typeCheck_append_of_ok (ihl hal htl slots),
      typeCheck_append_of_ok (ihr har htr _), List.append_assoc, typeCheck_singleton,
      o.typeStep_of_fits slots hf, outputs]

theorem typeCheck_postorder_of_not_wellTyped {t : InfixTree τ ν ε} (ha : t.HasArities)
    (ht : ¬ t.WellTyped) (slots : List (TypeSet τ)) :
    ∃ element required provided,
      typeCheck slots t.postorder = .error (.typeMismatch element required provided) := by
  induction t generalizing slots with
  | leaf n => exact absurd trivial ht
  | group opener inner closer ih => exact ih ha ht slots
  | unary o operand ih =>
    by_cases hto : operand.WellTyped
    · have hl : operand.outputs.length = o.inputs.length := by
        rw [length_outputs ha.2, ha.1.1]
      obtain ⟨required, found, he⟩ :=
        o.typeStep_of_not_fits slots hl fun hf => ht ⟨hto, hf⟩
      refine ⟨o.symbol, required, found, ?_⟩
      rw [postorder, typeCheck_append_of_ok (typeCheck_postorder_of_wellTyped ha.2 hto slots),
        typeCheck_singleton, he]
    · obtain ⟨element, required, provided, he⟩ := ih ha.2 hto slots
      exact ⟨element, required, provided, typeCheck_append_of_error he [o]⟩
  | binary o left right ihl ihr =>
    obtain ⟨ho, hal, har⟩ := ha
    by_cases htl : left.WellTyped
    · have hleft := typeCheck_postorder_of_wellTyped hal htl slots
      by_cases htr : right.WellTyped
      · have hl : (left.outputs ++ right.outputs).length = o.inputs.length := by
          rw [List.length_append, length_outputs hal, length_outputs har, ho.1]
        obtain ⟨required, found, he⟩ :=
          o.typeStep_of_not_fits slots hl fun hf => ht ⟨htl, htr, hf⟩
        refine ⟨o.symbol, required, found, ?_⟩
        rw [postorder, List.append_assoc, typeCheck_append_of_ok hleft,
          typeCheck_append_of_ok (typeCheck_postorder_of_wellTyped har htr _), List.append_assoc,
          typeCheck_singleton, he]
      · obtain ⟨element, required, provided, he⟩ := ihr har htr (slots ++ left.outputs)
        refine ⟨element, required, provided, ?_⟩
        rw [postorder, List.append_assoc, typeCheck_append_of_ok hleft,
          typeCheck_append_of_error he]
    · obtain ⟨element, required, provided, he⟩ := ihl hal htl slots
      refine ⟨element, required, provided, ?_⟩
      rw [postorder, List.append_assoc, typeCheck_append_of_error he]

end InfixTree

end ExpressionEngine
