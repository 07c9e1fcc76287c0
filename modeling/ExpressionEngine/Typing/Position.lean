import ExpressionEngine.Typing
import Mathlib.Algebra.Ring.Int.Defs
import Mathlib.Data.Nat.Find

/-! The static check without a stack. Before each node of a program the depth is a sum, which may well
be negative where a program has failed, and what is at a position is what was written there last: an
output of the latest node that covers it, or else a declared input. -/

namespace ExpressionEngine

variable {τ ν ε : Type}

/-- The item at a signed position. -/
def itemAt? {α : Type} (items : List α) (p : Int) : Option α :=
  if 0 ≤ p then items[p.toNat]? else none

@[simp] theorem itemAt?_natCast {α : Type} (items : List α) (q : Nat) :
    itemAt? items q = items[q]? := by
  simp [itemAt?]

theorem itemAt?_of_neg {α : Type} (items : List α) {p : Int} (hp : p < 0) :
    itemAt? items p = none := by
  simp [itemAt?, Int.not_le.2 hp]

/-- By how much a node deepens the stack. -/
def Node.gain (n : Node τ ν ε) : Int := n.outputs.length - n.inputs.length

section Position

variable (inputs : List (TypeSet τ)) (program : List (Node τ ν ε))

/-- The depth before node `k`. -/
def depthBefore (k : Nat) : Int := inputs.length + ((program.take k).map Node.gain).sum

/-- What node `i` writes at position `p`. Its outputs begin where its lowest operand was. -/
def writtenAt (i : Nat) (p : Int) : Option (TypeSet τ) :=
  program[i]?.bind fun n =>
    itemAt? n.outputs (p - (depthBefore inputs program i - n.inputs.length))

/-- The set at position `p` before node `k`: the latest that was written there, or the declared
input. -/
def setBefore (k : Nat) (p : Int) : Option (TypeSet τ) :=
  ((List.range k).reverse.findSome? fun i => writtenAt inputs program i p).or (itemAt? inputs p)

variable [Ty τ]

/-- What is found for operand `j` of `n`, which is node `k`, and what was wanted, unless the one is
accepted as the other. -/
def misfit? (k : Nat) (n : Node τ ν ε) (j : Nat) : Option (TypeSet τ × TypeSet τ) := do
  let found ← setBefore inputs program k (depthBefore inputs program k - n.inputs.length + j)
  let wanted ← n.inputs[j]?
  if found.isCompatibleWith wanted then none else some (found, wanted)

/-- Node `k` lacks operands, or some operand does not fit. -/
def Faulty (k : Nat) : Prop :=
  ∃ n ∈ program[k]?, depthBefore inputs program k < n.inputs.length ∨
    ∃ j < n.inputs.length, (misfit? inputs program k n j).isSome

instance (k : Nat) : Decidable (Faulty inputs program k) :=
  inferInstanceAs (Decidable (∃ n ∈ program[k]?, _ ∨ _))

/-- What is to be reported of node `k`: that it lacks operands, or else the lowest operand that does
not fit. -/
inductive Blames (k : Nat) : BuildError → Prop
  | underflow {n : Node τ ν ε} {available : Nat} (node : program[k]? = some n)
      (depth : depthBefore inputs program k = available) (lacks : available < n.inputs.length) :
      Blames k (.arityUnderflow n.symbol n.inputs.length available)
  | mismatch {n : Node τ ν ε} {j : Nat} {found wanted : TypeSet τ} (node : program[k]? = some n)
      (enough : n.inputs.length ≤ depthBefore inputs program k)
      (misfit : misfit? inputs program k n j = some (found, wanted))
      (lowest : ∀ i < j, misfit? inputs program k n i = none) :
      Blames k (.typeMismatch n.symbol wanted.describe found.describe)

end Position

section Laws

variable {inputs : List (TypeSet τ)} {program : List (Node τ ν ε)} {k : Nat} {n : Node τ ν ε}

@[simp] theorem depthBefore_zero : depthBefore inputs program 0 = inputs.length := by
  simp [depthBefore]

theorem depthBefore_succ (h : program[k]? = some n) : depthBefore inputs program (k + 1) =
    depthBefore inputs program k - n.inputs.length + n.outputs.length := by
  simp only [depthBefore, List.take_add_one, h, Option.toList_some, List.map_append, List.map_cons,
    List.map_nil, List.sum_append, List.sum_cons, List.sum_nil, Node.gain]
  omega

@[simp] theorem setBefore_zero (p : Int) : setBefore inputs program 0 p = itemAt? inputs p := by
  simp [setBefore]

theorem setBefore_succ (k : Nat) (p : Int) : setBefore inputs program (k + 1) p =
    (writtenAt inputs program k p).or (setBefore inputs program k p) := by
  rw [setBefore, List.range_succ, List.reverse_append, List.reverse_singleton, List.singleton_append,
    List.findSome?_cons]
  cases writtenAt inputs program k p <;> rfl

variable [Ty τ]

theorem misfit?_eq_some_iff {j : Nat} {found wanted : TypeSet τ} :
    misfit? inputs program k n j = some (found, wanted) ↔
      setBefore inputs program k (depthBefore inputs program k - n.inputs.length + j) = some found ∧
        n.inputs[j]? = some wanted ∧ found.isCompatibleWith wanted = false := by
  simp only [misfit?, Option.bind_eq_bind, Option.bind_eq_some_iff, Option.ite_none_left_eq_some,
    Option.some.injEq, Prod.mk.injEq, Bool.not_eq_true]
  constructor
  · rintro ⟨f, hf, w, hw, hc, rfl, rfl⟩
    exact ⟨hf, hw, hc⟩
  · rintro ⟨hf, hw, hc⟩
    exact ⟨found, hf, wanted, hw, hc, rfl, rfl⟩

/-- As long as the depth is a number at all, something is reported of a node just if it is faulty. -/
theorem faulty_iff_exists_blames {available : Nat} (h : depthBefore inputs program k = available) :
    Faulty inputs program k ↔ ∃ e, Blames inputs program k e := by
  constructor
  · rintro ⟨n, hn, hfault⟩
    by_cases hlt : available < n.inputs.length
    · exact ⟨_, .underflow hn h hlt⟩
    · obtain ⟨j, hj, hmis⟩ := hfault.resolve_left (by omega)
      have hex : ∃ j, (misfit? inputs program k n j).isSome := ⟨j, hmis⟩
      obtain ⟨⟨found, wanted⟩, hfound⟩ := Option.isSome_iff_exists.1 (Nat.find_spec hex)
      refine ⟨_, .mismatch hn (by omega) hfound fun i hi => ?_⟩
      simpa using Nat.find_min hex hi
  · rintro ⟨e, hb⟩
    cases hb with
    | @underflow n _ node depth lacks => exact ⟨n, node, .inl (by omega)⟩
    | @mismatch n j _ _ node enough misfit lowest =>
      have hj := (List.getElem?_eq_some_iff.1 (misfit?_eq_some_iff.1 misfit).2.1).1
      exact ⟨n, node, .inr ⟨j, hj, by simp [misfit]⟩⟩

end Laws

end ExpressionEngine
