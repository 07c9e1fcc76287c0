import ExpressionEngine.Typing.Position
import ExpressionEngine.Proofs.Compiled
import ExpressionEngine.Proofs.Typing
import ExpressionEngine.Scalar.Tracing

/-! The verdict of the static check, read off a program without a stack. Up to the first node that is
faulty the slots are as many as the depth says, and each is what was written there last; so the first
faulty node is the one that is reported, with what is missing or does not fit, and the slots that are
left in the end are known as well. -/

namespace ExpressionEngine

variable {τ ν ε : Type}

/-- These are the slots before node `k`. -/
structure SlotsBefore (inputs : List (TypeSet τ)) (program : List (Node τ ν ε)) (k : Nat)
    (slots : List (TypeSet τ)) : Prop where
  length : (slots.length : Int) = depthBefore inputs program k
  slot : ∀ p < slots.length, slots[p]? = setBefore inputs program k p

variable {inputs slots slots' : List (TypeSet τ)} {program : List (Node τ ν ε)} {k : Nat}
  {n : Node τ ν ε}

theorem slotsBefore_zero : SlotsBefore inputs program 0 inputs where
  length := depthBefore_zero.symm
  slot p _ := by rw [setBefore_zero, itemAt?_natCast]

variable [Ty τ]

namespace SlotsBefore

/-- A node that is fed leaves what lies below its operands, and writes its outputs above that. -/
theorem step (h : SlotsBefore inputs program k slots) (hn : program[k]? = some n)
    (hs : n.typeStep slots = .ok slots') : SlotsBefore inputs program (k + 1) slots' := by
  obtain ⟨below, provided, rfl, hf, rfl⟩ := Node.typeStep_eq_ok_iff.1 hs
  have hlength := h.length
  rw [List.length_append, hf.length_eq] at hlength
  have hwritten : ∀ p, writtenAt inputs program k p = itemAt? n.outputs (p - below.length) := by
    intro p
    rw [writtenAt, hn, Option.bind_some]
    congr 1
    omega
  constructor
  · rw [depthBefore_succ hn, List.length_append]
    omega
  · intro p hp
    rw [List.length_append] at hp
    rw [setBefore_succ, hwritten]
    by_cases hlow : p < below.length
    · rw [itemAt?_of_neg _ (by omega), Option.none_or, ← h.slot p (by simp; omega),
        List.getElem?_append_left hlow, List.getElem?_append_left hlow]
    · have hoffset : (p : Int) - below.length = (p - below.length : Nat) := by omega
      have hlt : p - below.length < n.outputs.length := by omega
      rw [hoffset, itemAt?_natCast, List.getElem?_append_right (by omega),
        List.getElem?_eq_getElem hlt, Option.some_or]

theorem misfit?_eq_some_iff (h : SlotsBefore inputs program k slots)
    (hle : n.inputs.length ≤ slots.length) {j : Nat} {found wanted : TypeSet τ} :
    misfit? inputs program k n j = some (found, wanted) ↔
      slots[slots.length - n.inputs.length + j]? = some found ∧ n.inputs[j]? = some wanted ∧
        found.isCompatibleWith wanted = false := by
  rw [ExpressionEngine.misfit?_eq_some_iff]
  refine and_congr_left fun ⟨hwanted, _⟩ => ?_
  have hj := (List.getElem?_eq_some_iff.1 hwanted).1
  have hposition : depthBefore inputs program k - n.inputs.length + j =
      (slots.length - n.inputs.length + j : Nat) := by
    have := h.length
    omega
  rw [hposition, h.slot _ (by omega)]

/-- What is to be reported of the node is what its step reports. -/
theorem blames_iff (h : SlotsBefore inputs program k slots) (hn : program[k]? = some n)
    {e : BuildError} : Blames inputs program k e ↔ n.typeStep slots = .error e := by
  have hlength := h.length
  rw [Node.typeStep_eq_error_iff]
  constructor
  · intro hb
    cases hb with
    | @underflow m available node depth lacks =>
      obtain rfl : n = m := Option.some.inj (hn.symm.trans node)
      obtain rfl : slots.length = available := by omega
      exact .inl ⟨lacks, rfl⟩
    | @mismatch m j found wanted node enough misfit lowest =>
      obtain rfl : n = m := Option.some.inj (hn.symm.trans node)
      have hle : n.inputs.length ≤ slots.length := by omega
      obtain ⟨hfound, hwanted, hmis⟩ := (h.misfit?_eq_some_iff hle).1 misfit
      refine .inr ⟨hle, j, found, wanted, hfound, hwanted, hmis, fun i hi p a hp ha => ?_, rfl⟩
      by_contra hc
      have hlower := (h.misfit?_eq_some_iff hle).2 ⟨hp, ha, by simpa using hc⟩
      rw [lowest i hi] at hlower
      cases hlower
  · rintro (⟨hlt, rfl⟩ | ⟨hle, j, found, wanted, hfound, hwanted, hmis, hlower, rfl⟩)
    · exact .underflow hn hlength.symm hlt
    · refine .mismatch hn (by omega) ((h.misfit?_eq_some_iff hle).2 ⟨hfound, hwanted, hmis⟩) ?_
      intro i hi
      rw [Option.eq_none_iff_forall_ne_some]
      rintro ⟨p, a⟩ hmisfit
      obtain ⟨hp, ha, hne⟩ := (h.misfit?_eq_some_iff hle).1 hmisfit
      rw [hlower i hi p a hp ha] at hne
      cases hne

theorem exists_step (h : SlotsBefore inputs program k slots) (hn : program[k]? = some n)
    (hk : ¬ Faulty inputs program k) :
    ∃ slots', n.typeStep slots = .ok slots' ∧ SlotsBefore inputs program (k + 1) slots' := by
  cases hs : n.typeStep slots with
  | error e =>
    have hfaulty := (faulty_iff_exists_blames h.length.symm).2 ⟨e, (h.blames_iff hn).2 hs⟩
    exact absurd hfaulty hk
  | ok slots' => exact ⟨slots', rfl, h.step hn hs⟩

end SlotsBefore

/-- The check goes on up to the first faulty node, over the slots that were foreseen. -/
theorem exists_slotsBefore (hk : k ≤ program.length)
    (h : ∀ i < k, ¬ Faulty inputs program i) :
    ∃ slots, typeCheck inputs (program.take k) = .ok slots ∧ SlotsBefore inputs program k slots := by
  induction k with
  | zero => exact ⟨inputs, rfl, slotsBefore_zero⟩
  | succ k ih =>
    obtain ⟨slots, hcheck, hslots⟩ := ih (by omega) fun i hi => h i (by omega)
    have hn : program[k]? = some program[k] := List.getElem?_eq_getElem hk
    obtain ⟨slots', hs, hslots'⟩ := hslots.exists_step hn (h k (Nat.lt_succ_self k))
    refine ⟨slots', ?_, hslots'⟩
    rw [List.take_add_one, hn, Option.toList_some, typeCheck_append_of_ok hcheck,
      typeCheck_singleton, hs]

/-- What is reported of the first faulty node is reported of the program. -/
theorem typeCheck_of_blames (h : ∀ i < k, ¬ Faulty inputs program i) {e : BuildError}
    (hb : Blames inputs program k e) : typeCheck inputs program = .error e := by
  have hk : k < program.length := by
    cases hb with
    | underflow node => exact (List.getElem?_eq_some_iff.1 node).1
    | mismatch node => exact (List.getElem?_eq_some_iff.1 node).1
  obtain ⟨slots, hcheck, hslots⟩ := exists_slotsBefore (Nat.le_of_lt hk) h
  have hstep := (hslots.blames_iff (List.getElem?_eq_getElem hk)).1 hb
  rw [← List.take_append_drop k program, typeCheck_append_of_ok hcheck,
    List.drop_eq_getElem_cons hk, typeCheck, hstep]

theorem exists_first_faulty (h : ∃ k, Faulty inputs program k) :
    ∃ k e, Faulty inputs program k ∧ (∀ i < k, ¬ Faulty inputs program i) ∧
      Blames inputs program k e := by
  have hfirst : ∀ i < Nat.find h, ¬ Faulty inputs program i := fun i hi => Nat.find_min h hi
  obtain ⟨n, hn, -⟩ := Nat.find_spec h
  have hk := (List.getElem?_eq_some_iff.1 hn).1
  obtain ⟨slots, -, hslots⟩ := exists_slotsBefore (Nat.le_of_lt hk) hfirst
  obtain ⟨e, he⟩ := (faulty_iff_exists_blames hslots.length.symm).1 (Nat.find_spec h)
  exact ⟨Nat.find h, e, Nat.find_spec h, hfirst, he⟩

theorem typeCheck_eq_error_iff {e : BuildError} : typeCheck inputs program = .error e ↔
    ∃ k, Faulty inputs program k ∧ (∀ i < k, ¬ Faulty inputs program i) ∧
      Blames inputs program k e := by
  constructor
  · intro herror
    by_cases hfaulty : ∃ k, Faulty inputs program k
    · obtain ⟨k, e', hk, hfirst, hb⟩ := exists_first_faulty hfaulty
      rw [typeCheck_of_blames hfirst hb, Except.error.injEq] at herror
      exact ⟨k, hk, hfirst, herror ▸ hb⟩
    · have hnone : ∀ i < program.length, ¬ Faulty inputs program i := fun i _ hi => hfaulty ⟨i, hi⟩
      obtain ⟨slots, hcheck, -⟩ := exists_slotsBefore (Nat.le_refl _) hnone
      rw [List.take_length, herror] at hcheck
      cases hcheck
  · rintro ⟨k, -, hfirst, hb⟩
    exact typeCheck_of_blames hfirst hb

theorem exists_typeCheck_iff : (∃ outputs, typeCheck inputs program = .ok outputs) ↔
    ∀ k, ¬ Faulty inputs program k := by
  constructor
  · rintro ⟨outputs, hcheck⟩ k hk
    obtain ⟨k, e, -, hfirst, hb⟩ := exists_first_faulty ⟨k, hk⟩
    rw [typeCheck_of_blames hfirst hb] at hcheck
    cases hcheck
  · intro hnone
    obtain ⟨slots, hcheck, -⟩ := exists_slotsBefore (Nat.le_refl _) fun i _ => hnone i
    rw [List.take_length] at hcheck
    exact ⟨slots, hcheck⟩

/-- What passes ends on the slots that were foreseen. -/
theorem slotsBefore_of_typeCheck (h : typeCheck inputs program = .ok slots) :
    SlotsBefore inputs program program.length slots := by
  have hnone := exists_typeCheck_iff.1 ⟨slots, h⟩
  obtain ⟨slots', hcheck, hslots⟩ := exists_slotsBefore (Nat.le_refl _) fun i _ => hnone i
  rw [List.take_length, h] at hcheck
  cases hcheck
  exact hslots

namespace Builder

/-- The verdict in closed form, for any program without an open group. An error is returned just if
some node is faulty, and it is the one to be reported of the first such node. Otherwise the program
is sealed, with as many outputs as the depth is at its end, each of them the set at its position. -/
theorem finalize_verdict {b : Builder τ ν ε} (hd : b.yard.drain = .ok program) :
    (∀ e, b.finalize = .error e ↔ ∃ k, Faulty b.inputs program k ∧
        (∀ i < k, ¬ Faulty b.inputs program i) ∧ Blames b.inputs program k e) ∧
      ((∃ x, b.finalize = .ok x) ↔ ∀ k, ¬ Faulty b.inputs program k) ∧
      ∀ x, b.finalize = .ok x →
        x.outputs.length = depthBefore b.inputs program program.length ∧
          ∀ p < x.outputs.length, x.outputs[p]? = setBefore b.inputs program program.length p := by
  rw [finalize_of_drain hd]
  refine ⟨fun e => ?_, ?_, fun x hx => ?_⟩
  · rw [← typeCheck_eq_error_iff]
    cases typeCheck b.inputs program <;> simp [Except.map]
  · rw [← exists_typeCheck_iff]
    cases typeCheck b.inputs program <;> simp [Except.map]
  · cases hcheck : typeCheck b.inputs program with
    | error e =>
      rw [hcheck] at hx
      cases hx
    | ok outputs =>
      rw [hcheck] at hx
      cases hx
      have hslots := slotsBefore_of_typeCheck hcheck
      exact ⟨hslots.length, hslots.slot⟩

/-- Nodes that take none, one and two operands and give none to three values, on two declared inputs.
The product is given a set that was written by the node before, above an input that is still there;
the node after it would take the depth below zero. -/
theorem finalize_verdict_mixed :
    let inputs := [Tracing.text, Tracing.optional]
    let program := [Tracing.declaring "spread" [Tracing.optional] [Tracing.text, Tracing.optional,
        Tracing.text], Tracing.value "a", Tracing.declaring "drop" [Tracing.optional, Tracing.text] [],
      Tracing.declaring "swap" [Tracing.text, Tracing.optional] [Tracing.optional, Tracing.text],
      Tracing.binary "*" 2 .left, Tracing.declaring "drop" (List.replicate 9 Tracing.text) []]
    (List.range 7).map (depthBefore inputs program) = [2, 4, 5, 3, 3, 2, -7] ∧
      (List.range 3).map (fun p : Nat => setBefore inputs program 4 p) =
        [some Tracing.text, some Tracing.optional, some Tracing.text] ∧
      Faulty inputs program 4 ∧ Faulty inputs program 5 ∧
      (pushEach { inputs } program).finalize = .error (.typeMismatch "*" "text" "text|nil") ∧
      ∃ x, (pushEach { inputs } (program.take 4)).finalize = .ok x ∧
        x.outputs.length = depthBefore inputs (program.take 4) 4 ∧
        x.outputs[1]? = setBefore inputs (program.take 4) 4 1 := by
  intro inputs program
  have hd : (pushEach { inputs } program).yard.drain = .ok program := rfl
  have hfaulty : Faulty inputs program 4 := by decide
  have hfirst : ∀ i < 4, ¬ Faulty inputs program i := by decide
  have henough : ((Tracing.binary "*" 2 .left).inputs.length : Int) ≤ depthBefore inputs program 4 := by
    decide
  have hmisfit : misfit? inputs program 4 (Tracing.binary "*" 2 .left) 0 =
      some (Tracing.optional, Tracing.text) := rfl
  have hblames : Blames inputs program 4 (.typeMismatch "*" "text" "text|nil") :=
    .mismatch rfl henough hmisfit (by simp)
  have hd' : (pushEach { inputs } (program.take 4)).yard.drain = .ok (program.take 4) := rfl
  obtain ⟨-, -, hsealed⟩ := finalize_verdict hd'
  obtain ⟨hlength, hslot⟩ := hsealed _ rfl
  refine ⟨rfl, rfl, hfaulty, by decide, ?_, _, rfl, hlength, hslot 1 (by decide)⟩
  exact ((finalize_verdict hd).1 _).2 ⟨4, hfaulty, hfirst, hblames⟩

end Builder

end ExpressionEngine
