import ExpressionEngine.Proofs.Compiled
import ExpressionEngine.Proofs.Infix.Edges
import ExpressionEngine.Scalar.Tracing

/-! Reading an infix tree. While its tokens are taken, a precedence-correct tree disturbs nothing that
waits below it: at its end exactly its right edge is left waiting, and all else is in place. So the
whole program is the tree's postorder, whatever precedences and associativities its operators have. -/

namespace ExpressionEngine

variable {τ ν ε : Type}

namespace Yard

/-- What waits stays where it is when any of `incoming` arrives. -/
def Shields (pending incoming : List (Node τ ν ε)) : Prop :=
  ∀ w ∈ pending.head?, ∀ n ∈ incoming, yieldsTo n w = false

theorem shields_nil (incoming : List (Node τ ν ε)) : Shields [] incoming := by
  intro w hw
  cases hw

theorem shields_cons {pending rest : List (Node τ ν ε)} {n : Node τ ν ε} :
    Shields pending (n :: rest) ↔ Shields pending [n] ∧ Shields pending rest := by
  constructor
  · intro h
    refine ⟨fun w hw m hm => ?_, fun w hw m hm => h w hw m (List.mem_cons_of_mem n hm)⟩
    rw [List.mem_singleton.1 hm]
    exact h w hw n List.mem_cons_self
  · rintro ⟨hn, hrest⟩ w hw m hm
    rcases List.mem_cons.1 hm with rfl | hm
    · exact hn w hw m List.mem_cons_self
    · exact hrest w hw m hm

theorem yieldsTo_groupOpen {o : Node τ ν ε} (ho : o.kind = .groupOpen) (n : Node τ ν ε) :
    yieldsTo n o = false := by
  simp [yieldsTo, isOpener, ho]

theorem shields_groupOpen {o : Node τ ν ε} (ho : o.kind = .groupOpen)
    (pending incoming : List (Node τ ν ε)) : Shields (o :: pending) incoming := by
  intro w hw n _
  cases hw
  exact yieldsTo_groupOpen ho n

theorem shields_operator {o : Node τ ν ε} {incoming : List (Node τ ν ε)}
    (ho : ∀ n ∈ incoming, ¬ o.BindsBefore n) (pending : List (Node τ ν ε)) :
    Shields (o :: pending) incoming := by
  intro w hw n hn
  cases hw
  simp [yieldsTo, ho n hn]

theorem isOpener_of_operator {n : Node τ ν ε} (h : n.kind = .operator) : isOpener n = false := by
  simp [isOpener, h]

/-- An arriving operator parts what waits where everything above goes before it and the rest stays. -/
theorem span_yieldsTo {inner outer : List (Node τ ν ε)} {n : Node τ ν ε}
    (hi : ∀ m ∈ inner, m.kind = .operator ∧ m.BindsBefore n) (ho : Shields outer [n]) :
    (inner ++ outer).takeWhile (yieldsTo n) = inner ∧
      (inner ++ outer).dropWhile (yieldsTo n) = outer := by
  have hinner : ∀ m ∈ inner, yieldsTo n m = true := by
    intro m hm
    simp [yieldsTo, isOpener_of_operator (hi m hm).1, (hi m hm).2]
  have houter : ∀ w ∈ outer.head?, yieldsTo n w = false := fun w hw => ho w hw n List.mem_cons_self
  exact span_of_split hinner houter

/-- A closing node parts what waits at the group that was opened last. -/
theorem span_not_opener {inner : List (Node τ ν ε)} {o : Node τ ν ε}
    (hi : ∀ m ∈ inner, m.kind = .operator) (ho : o.kind = .groupOpen) (outer : List (Node τ ν ε)) :
    (inner ++ o :: outer).takeWhile (!isOpener ·) = inner ∧
      (inner ++ o :: outer).dropWhile (!isOpener ·) = o :: outer := by
  have hinner : ∀ m ∈ inner, (!isOpener m) = true := by
    intro m hm
    simp [isOpener_of_operator (hi m hm)]
  have houter : ∀ w ∈ (o :: outer).head?, (!isOpener w) = false := by simp [isOpener, ho]
  exact span_of_split hinner houter

/-- An operator releases `inner`, which goes before it, and waits on what stays. -/
theorem append_operator_of_shields {emitted inner outer : List (Node τ ν ε)} {n : Node τ ν ε}
    (h : n.kind = .operator) (hi : ∀ m ∈ inner, m.kind = .operator ∧ m.BindsBefore n)
    (ho : Shields outer [n]) :
    append ⟨emitted, inner ++ outer⟩ n = .ok ⟨emitted ++ inner, n :: outer⟩ := by
  obtain ⟨ht, hd⟩ := span_yieldsTo hi ho
  rw [append_operator _ h, ht, hd]

@[simp] theorem appendAll_nil (y : Yard τ ν ε) : y.appendAll [] = .ok y := rfl

theorem appendAll_cons_of_ok {y z : Yard τ ν ε} {n : Node τ ν ε} (h : y.append n = .ok z)
    (ns : List (Node τ ν ε)) : y.appendAll (n :: ns) = z.appendAll ns := by
  rw [appendAll, List.foldlM_cons, h]
  rfl

theorem appendAll_append_of_ok {y z : Yard τ ν ε} {ns : List (Node τ ν ε)}
    (h : y.appendAll ns = .ok z) (ms : List (Node τ ν ε)) :
    y.appendAll (ns ++ ms) = z.appendAll ms := by
  rw [appendAll, List.foldlM_append, ← appendAll, h]
  rfl

end Yard

namespace InfixTree

open Yard

/-- What is in place once all tokens are taken: everything but the right edge. -/
def settled : InfixTree τ ν ε → List (Node τ ν ε)
  | .leaf n => [n]
  | .group _ inner _ => inner.postorder
  | .unary _ operand => operand.settled
  | .binary _ left right => left.postorder ++ right.settled

theorem settled_append_rightEdge (t : InfixTree τ ν ε) :
    t.settled ++ t.rightEdge.reverse = t.postorder := by
  induction t with
  | leaf n => rfl
  | group opener inner closer _ => simp [settled, rightEdge, postorder]
  | unary o operand ih => simp [settled, rightEdge, postorder, ← ih]
  | binary o left right _ ihr => simp [settled, rightEdge, postorder, ← ihr]

/-- The tokens of a tree, taken on top of anything that does not yield to its left edge. -/
theorem appendAll_tokens {t : InfixTree τ ν ε} (hw : t.WellFormed) (hp : t.PrecedenceCorrect)
    {emitted pending : List (Node τ ν ε)} (hs : Shields pending t.leftEdge) :
    appendAll ⟨emitted, pending⟩ t.tokens =
      .ok ⟨emitted ++ t.settled, t.rightEdge.reverse ++ pending⟩ := by
  induction t generalizing emitted pending with
  | leaf n => exact appendAll_cons_of_ok (append_value _ hw) []
  | group opener inner closer ih =>
    obtain ⟨ho, hwi, hc⟩ := hw
    have hedge : ∀ m ∈ inner.rightEdge.reverse, isOpener m = false := fun m hm =>
      isOpener_of_operator (kind_of_mem_reverse_rightEdge hwi m hm)
    rw [tokens, appendAll_cons_of_ok (append_groupOpen _ ho),
      appendAll_append_of_ok (ih hwi hp (shields_groupOpen ho pending _)),
      appendAll_cons_of_ok (append_groupClose hc (by simp [isOpener, ho]) hedge), appendAll_nil,
      List.append_assoc, settled_append_rightEdge]
    rfl
  | unary o operand ih =>
    have hstep : append ⟨emitted, [] ++ pending⟩ o = .ok ⟨emitted ++ [], o :: pending⟩ :=
      append_operator_of_shields hw.1 (by simp) hs
    rw [List.nil_append, List.append_nil] at hstep
    rw [tokens, appendAll_cons_of_ok hstep, ih hw.2 hp.2 (shields_operator hp.1 pending)]
    simp [settled, rightEdge]
  | binary o left right ihl ihr =>
    obtain ⟨hk, hwl, hwr⟩ := hw
    obtain ⟨hleft, hright, hpl, hpr⟩ := hp
    obtain ⟨hso, hsl⟩ := shields_cons.1 hs
    -- the left operand's right edge is all that `o` releases
    have hedge := releases_rightEdge hwl hleft
    rw [tokens, appendAll_append_of_ok (ihl hwl hpl hsl),
      appendAll_cons_of_ok (append_operator_of_shields hk hedge hso),
      ihr hwr hpr (shields_operator hright pending), List.append_assoc emitted,
      settled_append_rightEdge]
    simp [settled, rightEdge]

/-- From an empty yard the program is the postorder, and no group is left open. -/
theorem appendAll_tokens_empty {t : InfixTree τ ν ε} (hw : t.WellFormed)
    (hp : t.PrecedenceCorrect) :
    appendAll {} t.tokens = .ok ⟨t.settled, t.rightEdge.reverse⟩ := by
  have h : appendAll ⟨[], []⟩ t.tokens = .ok ⟨[] ++ t.settled, t.rightEdge.reverse ++ []⟩ :=
    appendAll_tokens hw hp (shields_nil t.leftEdge)
  rwa [List.nil_append, List.append_nil] at h

theorem drain_settled {t : InfixTree τ ν ε} (hw : t.WellFormed) :
    drain ⟨t.settled, t.rightEdge.reverse⟩ = .ok t.postorder := by
  refine drain_eq_ok_iff.2 ⟨fun m hm => ?_, t.settled_append_rightEdge⟩
  exact isOpener_of_operator (kind_of_mem_reverse_rightEdge hw m hm)

end InfixTree

namespace Builder

/-- A sequence that the yard takes is taken without a refusal. -/
theorem appendEach_of_appendAll {b : Builder τ ν ε} {ns : List (Node τ ν ε)} {y : Yard τ ν ε}
    (h : b.yard.appendAll ns = .ok y) : b.appendEach ns =
      ⟨{ b with yard := y, fragments := b.fragments ++ ns.map Node.symbol }, []⟩ := by
  suffices ∀ position, b.appendFrom position ns =
      ⟨{ b with yard := y, fragments := b.fragments ++ ns.map Node.symbol }, []⟩ from this 0
  induction ns generalizing b with
  | nil =>
    intro position
    cases h
    simp [appendFrom]
  | cons n rest ih =>
    intro position
    cases hn : b.yard.append n with
    | error e =>
      rw [Yard.appendAll, List.foldlM_cons, hn] at h
      cases h
    | ok z =>
      rw [Yard.appendAll_cons_of_ok hn] at h
      have hb : b.append n = .ok { b with yard := z, fragments := b.fragments ++ [n.symbol] } := by
        simp [append, hn]
      rw [appendFrom, hb]
      simpa using ih (b := { b with yard := z, fragments := b.fragments ++ [n.symbol] }) h
        (position + 1)

theorem appendEach_tokens {b : Builder τ ν ε} (hb : b.Fresh) {t : InfixTree τ ν ε}
    (hw : t.WellFormed) (hp : t.PrecedenceCorrect) : b.appendEach t.tokens =
      ⟨{ b with yard := ⟨t.settled, t.rightEdge.reverse⟩, fragments := t.tokens.map Node.symbol },
        []⟩ := by
  obtain ⟨hyard, hfragments⟩ := hb
  have hy : b.yard.appendAll t.tokens = .ok ⟨t.settled, t.rightEdge.reverse⟩ := by
    rw [hyard]
    exact InfixTree.appendAll_tokens_empty hw hp
  rw [appendEach_of_appendAll hy, hfragments, List.nil_append]

theorem drain_appendEach_tokens {b : Builder τ ν ε} (hb : b.Fresh) {t : InfixTree τ ν ε}
    (hw : t.WellFormed) (hp : t.PrecedenceCorrect) :
    (b.appendEach t.tokens).builder.yard.drain = .ok t.postorder := by
  rw [appendEach_tokens hb hw hp]
  exact InfixTree.drain_settled hw

variable [Ty τ]

theorem finalize_tokens {b : Builder τ ν ε} (hb : b.Fresh) {t : InfixTree τ ν ε}
    (hw : t.WellFormed) (hp : t.PrecedenceCorrect) :
    (b.appendEach t.tokens).builder.finalize = (typeCheck b.inputs t.postorder).map fun outputs =>
      ⟨b.name.getD (b.options.nameSeparator.intercalate (t.tokens.map Node.symbol)), t.postorder,
        b.inputs, outputs⟩ := by
  rw [finalize_of_drain (drain_appendEach_tokens hb hw hp), appendEach_tokens hb hw hp]
  rfl

/-- Infix order is undone: the tokens of a precedence-correct tree are all taken, no group is left
open, and what goes on to the static check is the tree's postorder. -/
theorem finalize_appendEach_tokens {b : Builder τ ν ε} (hb : b.Fresh) {t : InfixTree τ ν ε}
    (hw : t.WellFormed) (hp : t.PrecedenceCorrect) :
    (b.appendEach t.tokens).refused = [] ∧
      (∀ m ∈ (b.appendEach t.tokens).builder.yard.pending, Yard.isOpener m = false) ∧
      (b.appendEach t.tokens).builder.yard.emitted ++ (b.appendEach t.tokens).builder.yard.pending =
        t.postorder ∧
      (b.appendEach t.tokens).builder.finalize =
        (typeCheck b.inputs t.postorder).map fun outputs =>
          ⟨b.name.getD (b.options.nameSeparator.intercalate (t.tokens.map Node.symbol)),
            t.postorder, b.inputs, outputs⟩ := by
  obtain ⟨hopen, hnodes⟩ := Yard.drain_eq_ok_iff.1 (drain_appendEach_tokens hb hw hp)
  refine ⟨?_, hopen, hnodes, finalize_tokens hb hw hp⟩
  rw [appendEach_tokens hb hw hp]

theorem finalize_appendEach_mixed :
    Tracing.mixed.WellFormed ∧ Tracing.mixed.PrecedenceCorrect ∧
      (appendEach {} Tracing.mixed.tokens).refused = [] ∧
      ((appendEach {} Tracing.mixed.tokens).builder.yard.emitted ++
          (appendEach {} Tracing.mixed.tokens).builder.yard.pending).map Node.symbol =
        ["a", "b", "!", "-", "c", "d", "*", "k", "-", "~", "not"] := by
  have hw : Tracing.mixed.WellFormed := by decide
  have hp : Tracing.mixed.PrecedenceCorrect := by decide
  obtain ⟨hrefused, -, hnodes, -⟩ := finalize_appendEach_tokens (b := {}) ⟨rfl, rfl⟩ hw hp
  refine ⟨hw, hp, hrefused, ?_⟩
  rw [hnodes]
  rfl

end Builder

end ExpressionEngine
