import Mathlib.Data.List.Chain
import ExpressionEngine.Proofs.Infix.Placement

/-! The order of what waits. In place are values and operators, and what waits are operators and open
groups. Up to the next open group no operator goes before one that waits on top of it, so the
precedences never fall on the way up and an equal one is found only above a right associative
operator. That neighbours are in order is kept by every node, since whatever leaves the line leaves it
from the top; that all of a group is in order follows, because to wait for another operator is
transitive. -/

namespace ExpressionEngine

variable {τ ν ε : Type}

theorem Node.not_bindsBefore_iff {a b : Node τ ν ε} : ¬ a.BindsBefore b ↔
    a.precedence < b.precedence ∨ a.precedence = b.precedence ∧ a.associativity = .right := by
  have hside : ¬ a.associativity = .left ↔ a.associativity = .right := by
    cases a.associativity <;> simp
  rw [bindsBefore_iff, not_or, not_and, hside]
  constructor
  · rintro ⟨hle, hright⟩
    rcases Int.lt_or_eq_of_le (Int.not_lt.1 hle) with hlt | heq
    · exact .inl hlt
    · exact .inr ⟨heq, hright heq⟩
  · rintro (hlt | ⟨heq, hright⟩)
    · exact ⟨by omega, by omega⟩
    · exact ⟨by omega, fun _ => hright⟩

namespace Yard

/-- Neighbours in the line are in order if the upper one opens a group or the lower one does not yield
to it. -/
def InOrder (above below : Node τ ν ε) : Prop := isOpener above = true ∨ yieldsTo above below = false

/-- Every node is where its kind belongs, and the line is in order. -/
structure Orderly (y : Yard τ ν ε) : Prop where
  emitted : ∀ m ∈ y.emitted, m.kind = .value ∨ m.kind = .operator
  pending : ∀ m ∈ y.pending, m.kind = .groupOpen ∨ m.kind = .operator
  line : y.pending.IsChain InOrder

theorem Orderly.empty : Orderly ({} : Yard τ ν ε) where
  emitted := by simp
  pending := by simp
  line := .nil

/-- What waits without being an opener is an operator. -/
theorem Orderly.operator_of_mem {y : Yard τ ν ε} (hy : y.Orderly) {m : Node τ ν ε}
    (hm : m ∈ y.pending) (ho : isOpener m = false) : m.kind = .operator := by
  refine (hy.pending m hm).resolve_left fun hk => ?_
  simp [isOpener, hk] at ho

theorem isOpener_of_yieldsTo {n m : Node τ ν ε} (h : yieldsTo n m = true) : isOpener m = false := by
  simp only [yieldsTo, Bool.and_eq_true, Bool.not_eq_true'] at h
  exact h.1

theorem Orderly.append {y z : Yard τ ν ε} {n : Node τ ν ε} (hy : y.Orderly)
    (h : y.append n = .ok z) : z.Orderly := by
  cases hk : n.kind with
  | value =>
    rw [append_value y hk] at h
    cases h
    refine ⟨fun m hm => ?_, hy.pending, hy.line⟩
    rcases List.mem_append.1 hm with hm | hm
    · exact hy.emitted m hm
    · exact .inl (List.mem_singleton.1 hm ▸ hk)
  | groupOpen =>
    rw [append_groupOpen y hk] at h
    cases h
    refine ⟨hy.emitted, List.forall_mem_cons.2 ⟨.inl hk, hy.pending⟩, List.isChain_cons.2 ⟨?_, hy.line⟩⟩
    intro w _
    exact .inl (by simp [isOpener, hk])
  | groupClose =>
    obtain ⟨inner, o, outer, hp, -, hi, rfl⟩ := (append_groupClose_eq_ok_iff hk).1 h
    have hinner : inner ⊆ y.pending := hp ▸ List.subset_append_left inner _
    have houter : outer <:+ y.pending :=
      hp ▸ (List.suffix_cons o outer).trans (List.suffix_append inner _)
    refine ⟨fun m hm => ?_, fun m hm => hy.pending m (houter.subset hm), hy.line.suffix houter⟩
    rcases List.mem_append.1 hm with hm | hm
    · exact hy.emitted m hm
    · exact .inr (hy.operator_of_mem (hinner hm) (hi m hm))
  | operator =>
    rw [append_operator y hk] at h
    cases h
    have hreleased := (List.takeWhile_prefix (l := y.pending) (yieldsTo n)).subset
    have hleft := List.dropWhile_suffix (l := y.pending) (yieldsTo n)
    refine ⟨fun m hm => ?_,
      List.forall_mem_cons.2 ⟨.inr hk, fun m hm => hy.pending m (hleft.subset hm)⟩,
      List.isChain_cons.2 ⟨fun w hw => ?_, hy.line.suffix hleft⟩⟩
    · rcases List.mem_append.1 hm with hm | hm
      · exact hy.emitted m hm
      · exact .inr (hy.operator_of_mem (hreleased hm) (isOpener_of_yieldsTo (eq_true_of_mem_takeWhile hm)))
    · exact .inr (eq_false_of_mem_head?_dropWhile hw)

theorem Orderly.offerAll {y : Yard τ ν ε} (hy : y.Orderly) (ns : List (Node τ ν ε)) :
    (y.offerAll ns).Orderly := by
  induction ns generalizing y with
  | nil => exact hy
  | cons n rest ih =>
    rw [Yard.offerAll, List.foldl_cons, ← Yard.offerAll]
    cases h : y.append n with
    | error e =>
      rw [offer_of_error h]
      exact ih hy
    | ok z =>
      rw [offer_of_ok h]
      exact ih (hy.append h)

/-- The upper of two operators is complete before the lower one. -/
def RestsOn (above below : Node τ ν ε) : Prop := ¬ below.BindsBefore above

instance : Trans (@RestsOn τ ν ε) RestsOn RestsOn where
  trans hab hbc := Node.not_bindsBefore_trans hbc hab

/-- Where no group begins, neighbours in order are operators that rest on each other, and so does any
of them on any below it. -/
theorem pairwise_of_isChain_inOrder {ms : List (Node τ ν ε)} (h : ms.IsChain InOrder)
    (ho : ∀ m ∈ ms, isOpener m = false) : ms.Pairwise RestsOn := by
  refine (h.imp_of_mem_imp fun above below ha hb hab => ?_).pairwise
  have hyield := hab.resolve_left (by simp [ho above ha])
  simpa [RestsOn, yieldsTo, ho below hb] using hyield

/-- An operator waits for every later one in its group, with however many others in between. -/
theorem Orderly.not_bindsBefore {y : Yard τ ν ε} (hy : y.Orderly)
    {later between earlier : List (Node τ ν ε)} {above below : Node τ ν ε}
    (hp : y.pending = later ++ above :: (between ++ below :: earlier))
    (ha : above.kind = .operator) (hb : below.kind = .operator)
    (hm : ∀ m ∈ between, isOpener m = false) : ¬ below.BindsBefore above := by
  have hsegment : above :: between ++ [below] <:+: y.pending := ⟨later, earlier, by simp [hp]⟩
  have hno : ∀ m ∈ above :: between ++ [below], isOpener m = false := by
    intro m hmem
    rcases List.mem_append.1 hmem with hmem | hmem
    · rcases List.mem_cons.1 hmem with rfl | hmem
      · exact isOpener_of_operator ha
      · exact hm m hmem
    · rw [List.mem_singleton.1 hmem]
      exact isOpener_of_operator hb
  have hchain := List.IsChain.infix hy.line hsegment
  have hpairs := pairwise_of_isChain_inOrder hchain hno
  rw [List.cons_append, List.pairwise_cons] at hpairs
  exact hpairs.1 below (by simp)

end Yard

namespace Builder

theorem orderly_appendEach {b : Builder τ ν ε} (hb : b.Fresh) (ns : List (Node τ ν ε)) :
    (b.appendEach ns).builder.yard.Orderly := by
  rw [appendEach, yard_appendFrom, hb.1]
  exact Yard.Orderly.empty.offerAll ns

/-- Whatever a fresh builder was fed, and whatever of it was refused: what waits are open groups and
operators, what is in place are values and operators, and of any two operators that wait with no open
group between them the lower one does not go before the upper one. -/
theorem appendEach_orderly {b : Builder τ ν ε} (hb : b.Fresh) (ns : List (Node τ ν ε)) :
    (∀ m ∈ (b.appendEach ns).builder.yard.pending, m.kind = .groupOpen ∨ m.kind = .operator) ∧
      (∀ m ∈ (b.appendEach ns).builder.yard.emitted, m.kind = .value ∨ m.kind = .operator) ∧
      ∀ later above between below earlier,
        (b.appendEach ns).builder.yard.pending =
          later ++ above :: (between ++ below :: earlier) →
        above.kind = .operator → below.kind = .operator →
        (∀ m ∈ between, m.kind ≠ .groupOpen) →
        ¬ below.BindsBefore above ∧
          (below.precedence < above.precedence ∨
            below.precedence = above.precedence ∧ below.associativity = .right) := by
  have hy := orderly_appendEach hb ns
  refine ⟨hy.pending, hy.emitted, fun later above between below earlier hp ha hbelow hm => ?_⟩
  have hwaits := hy.not_bindsBefore hp ha hbelow fun m hmem => by simp [Yard.isOpener, hm m hmem]
  exact ⟨hwaits, Node.not_bindsBefore_iff.1 hwaits⟩

/-- Two right associative operators of one precedence and a tighter one that is left associative, below
an open group; the group in it was closed, and the first closer of all found none. -/
theorem appendEach_orderly_mixed :
    let tilde := Tracing.binary "~" 1 .right
    let times := Tracing.binary "*" 2 .left
    let minus := Tracing.binary "-" 1 .left
    let ns := [Tracing.value "a", tilde, Tracing.closer, Tracing.value "b", times, Tracing.value "c",
      tilde, Tracing.value "d", times, Tracing.opener, Tracing.value "e", minus, Tracing.opener, times,
      Tracing.closer]
    let y := (appendEach {} ns).builder.yard
    y.pending = [minus, Tracing.opener] ++ times :: ([tilde] ++ tilde :: []) ∧
      (∀ m ∈ y.emitted, m.kind = .value ∨ m.kind = .operator) ∧
      ¬ tilde.BindsBefore times ∧ tilde.precedence < times.precedence := by
  intro tilde times minus ns y
  have hp : y.pending = [minus, Tracing.opener] ++ times :: ([tilde] ++ tilde :: []) := rfl
  have hm : ∀ m ∈ [tilde], m.kind ≠ .groupOpen := by
    intro m hm
    rw [List.mem_singleton.1 hm]
    decide
  obtain ⟨-, hemitted, hpairs⟩ := appendEach_orderly (b := {}) ⟨rfl, rfl⟩ ns
  obtain ⟨hwaits, -⟩ := hpairs _ times [tilde] tilde [] hp rfl rfl hm
  exact ⟨hp, hemitted, hwaits, by decide⟩

end Builder

end ExpressionEngine
