import ExpressionEngine.Infix.Tree

/-! Which of two operators goes first, and what follows for the edges of a precedence-correct tree.
To wait for another operator is transitive, whatever the associativities: an operator that waits for
everything on the left edge of its operand waits for everything on the right edge, too, and what the
root of a tree goes before is preceded by the whole right edge. -/

namespace ExpressionEngine

variable {τ ν ε : Type}

namespace Node

theorem bindsBefore_iff {a b : Node τ ν ε} : a.BindsBefore b ↔
    b.precedence < a.precedence ∨ a.precedence = b.precedence ∧ a.associativity = .left := Iff.rfl

/-- An operator that waits for `b`, while `b` waits for `c`, waits for `c`. At equal precedence it is
its own associativity that counts, and that is right associativity from the first step on. -/
theorem not_bindsBefore_trans {a b c : Node τ ν ε} (hab : ¬ a.BindsBefore b)
    (hbc : ¬ b.BindsBefore c) : ¬ a.BindsBefore c := by
  rw [bindsBefore_iff, not_or, not_and] at hab hbc ⊢
  obtain ⟨hab, hab'⟩ := hab
  obtain ⟨hbc, -⟩ := hbc
  constructor
  · omega
  · intro hac
    exact hab' (by omega)

theorem BindsBefore.of_not {a b c : Node τ ν ε} (hac : a.BindsBefore c)
    (hab : ¬ a.BindsBefore b) : b.BindsBefore c :=
  Decidable.byContradiction fun hbc => not_bindsBefore_trans hab hbc hac

end Node

namespace InfixTree

instance decidableWellFormed : (t : InfixTree τ ν ε) → Decidable t.WellFormed
  | .leaf n => inferInstanceAs (Decidable (n.kind = .value))
  | .group opener inner closer =>
    have := inner.decidableWellFormed
    inferInstanceAs (Decidable
      (opener.kind = .groupOpen ∧ inner.WellFormed ∧ closer.kind = .groupClose))
  | .unary o operand =>
    have := operand.decidableWellFormed
    inferInstanceAs (Decidable (o.kind = .operator ∧ operand.WellFormed))
  | .binary o left right =>
    have := left.decidableWellFormed
    have := right.decidableWellFormed
    inferInstanceAs (Decidable (o.kind = .operator ∧ left.WellFormed ∧ right.WellFormed))

instance decidablePrecedenceCorrect : (t : InfixTree τ ν ε) → Decidable t.PrecedenceCorrect
  | .leaf _ => inferInstanceAs (Decidable True)
  | .group _ inner _ => inner.decidablePrecedenceCorrect
  | .unary o operand =>
    have := operand.decidablePrecedenceCorrect
    inferInstanceAs (Decidable
      ((∀ p ∈ operand.leftEdge, ¬ o.BindsBefore p) ∧ operand.PrecedenceCorrect))
  | .binary o left right =>
    have := left.decidablePrecedenceCorrect
    have := right.decidablePrecedenceCorrect
    inferInstanceAs (Decidable
      ((∀ p ∈ left.rightEdge, p.BindsBefore o) ∧ (∀ p ∈ right.leftEdge, ¬ o.BindsBefore p) ∧
        left.PrecedenceCorrect ∧ right.PrecedenceCorrect))

theorem kind_of_mem_rightEdge {t : InfixTree τ ν ε} (hw : t.WellFormed) {n : Node τ ν ε}
    (hn : n ∈ t.rightEdge) : n.kind = .operator := by
  induction t with
  | leaf m => cases hn
  | group opener inner closer _ => cases hn
  | unary o operand ih =>
    rcases List.mem_cons.1 hn with rfl | hn
    · exact hw.1
    · exact ih hw.2 hn
  | binary o left right _ ihr =>
    rcases List.mem_cons.1 hn with rfl | hn
    · exact hw.1
    · exact ihr hw.2.2 hn

/-- The right edge as a yard holds it, the latest operator first. -/
theorem kind_of_mem_reverse_rightEdge {t : InfixTree τ ν ε} (hw : t.WellFormed) :
    ∀ m ∈ t.rightEdge.reverse, m.kind = .operator := by
  intro m hm
  exact kind_of_mem_rightEdge hw (List.mem_reverse.1 hm)

/-- What an operator releases on its arrival behind its left operand. -/
theorem releases_rightEdge {t : InfixTree τ ν ε} (hw : t.WellFormed) {o : Node τ ν ε}
    (hb : ∀ p ∈ t.rightEdge, p.BindsBefore o) :
    ∀ m ∈ t.rightEdge.reverse, m.kind = .operator ∧ m.BindsBefore o := by
  intro m hm
  exact ⟨kind_of_mem_reverse_rightEdge hw m hm, hb m (List.mem_reverse.1 hm)⟩

/-- The right edge begins on the left edge, and from there on every operator waits for the next. -/
theorem not_bindsBefore_rightEdge {w : Node τ ν ε} {t : InfixTree τ ν ε}
    (hp : t.PrecedenceCorrect) (hl : ∀ p ∈ t.leftEdge, ¬ w.BindsBefore p) :
    ∀ p ∈ t.rightEdge, ¬ w.BindsBefore p := by
  induction t with
  | leaf m => exact hl
  | group opener inner closer _ => exact hl
  | unary o operand ih =>
    have ho : ¬ w.BindsBefore o := hl o List.mem_cons_self
    intro p hmem
    rcases List.mem_cons.1 hmem with rfl | hmem
    · exact ho
    · exact ih hp.2 (fun q hq => Node.not_bindsBefore_trans ho (hp.1 q hq)) p hmem
  | binary o left right _ ihr =>
    have ho : ¬ w.BindsBefore o := hl o List.mem_cons_self
    obtain ⟨-, hright, -, hpr⟩ := hp
    intro p hmem
    rcases List.mem_cons.1 hmem with rfl | hmem
    · exact ho
    · exact ihr hpr (fun q hq => Node.not_bindsBefore_trans ho (hright q hq)) p hmem

/-- If the root of a binary tree goes before `n`, so does its whole right edge. -/
theorem bindsBefore_of_mem_rightEdge {o n : Node τ ν ε} {left right : InfixTree τ ν ε}
    (hp : (binary o left right).PrecedenceCorrect) (hn : o.BindsBefore n) :
    ∀ p ∈ (binary o left right).rightEdge, p.BindsBefore n := by
  obtain ⟨-, hright, -, hpr⟩ := hp
  intro p hmem
  rcases List.mem_cons.1 hmem with rfl | hmem
  · exact hn
  · exact hn.of_not (not_bindsBefore_rightEdge hpr hright p hmem)

end InfixTree

end ExpressionEngine
