import ExpressionEngine.Builder

/-! The expressions that can be obtained: what a fresh builder seals after it was fed in infix order
or in postfix order, where the nested expressions among its nodes were obtained in the same way. They
are exactly the expressions that pass the static check at every depth, and it is the check that the
laws of execution rest on. -/

namespace ExpressionEngine

variable {τ ν ε : Type}

/-! ### Nodes of a yard -/

namespace Yard

/-- All that a yard holds, in place or waiting. -/
def nodes (y : Yard τ ν ε) : List (Node τ ν ε) := y.emitted ++ y.pending

theorem mem_nodes {y : Yard τ ν ε} {m : Node τ ν ε} :
    m ∈ y.nodes ↔ m ∈ y.emitted ∨ m ∈ y.pending := List.mem_append

theorem mem_nodes_append {y z : Yard τ ν ε} {n m : Node τ ν ε} (h : y.append n = .ok z)
    (hm : m ∈ z.nodes) : m ∈ y.nodes ∨ m = n := by
  rw [mem_nodes] at hm ⊢
  cases hk : n.kind with
  | value =>
    rw [append_value y hk] at h
    cases h
    rcases hm with hm | hm
    · rcases List.mem_append.1 hm with hm | hm
      · exact .inl (.inl hm)
      · exact .inr (List.mem_singleton.1 hm)
    · exact .inl (.inr hm)
  | groupOpen =>
    rw [append_groupOpen y hk] at h
    cases h
    rcases hm with hm | hm
    · exact .inl (.inl hm)
    · rcases List.mem_cons.1 hm with hm | hm
      · exact .inr hm
      · exact .inl (.inr hm)
  | groupClose =>
    obtain ⟨inner, o, outer, hp, -, -, rfl⟩ := (append_groupClose_eq_ok_iff hk).1 h
    rw [hp]
    rcases hm with hm | hm
    · rcases List.mem_append.1 hm with hm | hm
      · exact .inl (.inl hm)
      · exact .inl (.inr (List.mem_append_left _ hm))
    · exact .inl (.inr (List.mem_append_right _ (List.mem_cons_of_mem o hm)))
  | operator =>
    rw [append_operator y hk] at h
    cases h
    have ht := (List.takeWhile_prefix (l := y.pending) (yieldsTo n)).subset
    have hd := (List.dropWhile_suffix (l := y.pending) (yieldsTo n)).subset
    rcases hm with hm | hm
    · rcases List.mem_append.1 hm with hm | hm
      · exact .inl (.inl hm)
      · exact .inl (.inr (ht hm))
    · rcases List.mem_cons.1 hm with hm | hm
      · exact .inr hm
      · exact .inl (.inr (hd hm))

theorem mem_nodes_offerAll {y : Yard τ ν ε} {ns : List (Node τ ν ε)} {m : Node τ ν ε}
    (hm : m ∈ (y.offerAll ns).nodes) : m ∈ y.nodes ∨ m ∈ ns := by
  induction ns generalizing y with
  | nil => exact .inl hm
  | cons n rest ih =>
    rw [offerAll, List.foldl_cons, ← offerAll] at hm
    rcases ih hm with hm | hm
    · cases h : y.append n with
      | error e => rw [offer_of_error h] at hm; exact .inl hm
      | ok z =>
        rw [offer_of_ok h] at hm
        rcases mem_nodes_append h hm with hm | rfl
        · exact .inl hm
        · exact .inr List.mem_cons_self
    · exact .inr (List.mem_cons_of_mem n hm)

theorem drain_eq_ok_iff {y : Yard τ ν ε} {program : List (Node τ ν ε)} :
    y.drain = .ok program ↔ (∀ m ∈ y.pending, isOpener m = false) ∧ y.nodes = program := by
  unfold drain
  cases h : y.pending.find? isOpener with
  | none =>
    have hp : ∀ m ∈ y.pending, isOpener m = false := by simpa using h
    simpa [nodes] using fun _ => hp
  | some n =>
    have hn : isOpener n = true := List.find?_some h
    have hmem := List.mem_of_find?_eq_some h
    constructor
    · intro he; cases he
    · rintro ⟨hp, -⟩
      rw [hp n hmem] at hn
      cases hn

end Yard

/-! ### Sealing -/

namespace Builder

/-- Nothing was taken yet; inputs, options and a name may be set. -/
def Fresh (b : Builder τ ν ε) : Prop := b.yard = {} ∧ b.fragments = []

variable [Ty τ]

theorem finalize_of_drain {b : Builder τ ν ε} {program : List (Node τ ν ε)}
    (h : b.yard.drain = .ok program) : b.finalize = (typeCheck b.inputs program).map
      fun outputs => ⟨b.name.getD b.derivedName, program, b.inputs, outputs⟩ := by
  rw [finalize, h]
  dsimp only
  cases typeCheck b.inputs program <;> rfl

/-- It is the program that the static check is given, and with its outputs that the expression is made of. -/
theorem map_finalize_appendEach {b : Builder τ ν ε} {ns program : List (Node τ ν ε)}
    (h : (b.appendEach ns).builder.yard.drain = .ok program) :
    (b.appendEach ns).builder.finalize.map (fun x => (x.program, x.outputs)) =
      (typeCheck b.inputs program).map fun outputs => (program, outputs) := by
  rw [finalize_of_drain h, appendEach, inputs_appendFrom]
  cases typeCheck b.inputs program <;> rfl

theorem finalize_eq_ok_iff {b : Builder τ ν ε} {x : Expression τ ν ε} :
    b.finalize = .ok x ↔ b.yard.drain = .ok x.program ∧ b.inputs = x.inputs ∧
      typeCheck x.inputs x.program = .ok x.outputs ∧ b.name.getD b.derivedName = x.name := by
  obtain ⟨name, program, inputs, outputs⟩ := x
  cases hd : b.yard.drain with
  | error e => simp [finalize, hd]
  | ok p =>
    rw [finalize_of_drain hd]
    constructor
    · intro h
      cases hc : typeCheck b.inputs p with
      | error e => rw [hc] at h; cases h
      | ok outs => rw [hc] at h; cases h; exact ⟨rfl, rfl, hc, rfl⟩
    · rintro ⟨hp, rfl, hc, rfl⟩
      cases hp
      simp only at hc ⊢
      rw [hc]
      rfl

omit [Ty τ] in
theorem mem_of_appendEach {b : Builder τ ν ε} {ns : List (Node τ ν ε)} {m : Node τ ν ε}
    (hb : b.Fresh) (hm : m ∈ (b.appendEach ns).builder.yard.nodes) : m ∈ ns := by
  rw [appendEach, yard_appendFrom, hb.1] at hm
  rcases Yard.mem_nodes_offerAll hm with hm | hm
  · simp [Yard.nodes] at hm
  · exact hm

omit [Ty τ] in
theorem nodes_pushEach {b : Builder τ ν ε} (hb : b.Fresh) (ns : List (Node τ ν ε)) :
    (b.pushEach ns).yard.nodes = ns := by
  rw [pushEach_eq]
  simp [hb.1, Yard.nodes]

omit [Ty τ] in
theorem drain_pushEach {b : Builder τ ν ε} (hb : b.Fresh) (ns : List (Node τ ν ε)) :
    (b.pushEach ns).yard.drain = .ok ns := by
  rw [Yard.drain_eq_ok_iff]
  refine ⟨?_, nodes_pushEach hb ns⟩
  simp [pushEach_eq, hb.1]

end Builder

/-! ### Obtainable expressions -/

variable [Ty τ]

/-- Obtained from a fresh builder that was fed in one order only, from nodes that were obtained in
the same way. A node refused in infix order is left out, and feeding goes on. -/
inductive Compiled : Expression τ ν ε → Prop
  | append {b : Builder τ ν ε} {ns : List (Node τ ν ε)} {x : Expression τ ν ε} (fresh : b.Fresh)
      (nested : ∀ y, .nested y ∈ ns → Compiled y)
      (sealed : (b.appendEach ns).builder.finalize = .ok x) : Compiled x
  | push {b : Builder τ ν ε} {ns : List (Node τ ν ε)} {x : Expression τ ν ε} (fresh : b.Fresh)
      (nested : ∀ y, .nested y ∈ ns → Compiled y)
      (sealed : (b.pushEach ns).finalize = .ok x) : Compiled x

/-- The program takes the inputs to the outputs, and so does every program nested in it. -/
inductive Checked : Expression τ ν ε → Prop
  | intro {x : Expression τ ν ε} (check : typeCheck x.inputs x.program = .ok x.outputs)
      (nested : ∀ y, .nested y ∈ x.program → Checked y) : Checked x

theorem Checked.check {x : Expression τ ν ε} (h : Checked x) :
    typeCheck x.inputs x.program = .ok x.outputs := by
  cases h; assumption

theorem Checked.nested {x y : Expression τ ν ε} (h : Checked x) (hy : .nested y ∈ x.program) :
    Checked y := by
  cases h with
  | intro _ nested => exact nested y hy

/-- Whatever the builder was before, and however it was fed. -/
theorem Checked.of_finalize {b : Builder τ ν ε} {x : Expression τ ν ε} (h : b.finalize = .ok x)
    (nested : ∀ y, .nested y ∈ b.yard.nodes → Checked y) : Checked x := by
  obtain ⟨hd, -, hc, -⟩ := Builder.finalize_eq_ok_iff.1 h
  rw [(Yard.drain_eq_ok_iff.1 hd).2] at nested
  exact .intro hc nested

theorem Compiled.checked {x : Expression τ ν ε} (h : Compiled x) : Checked x := by
  induction h with
  | append fresh _ sealed ih =>
    exact .of_finalize sealed fun y hy => ih y (Builder.mem_of_appendEach fresh hy)
  | @push b ns x fresh _ sealed ih =>
    refine .of_finalize sealed fun y hy => ih y ?_
    rwa [Builder.nodes_pushEach fresh] at hy

theorem Checked.compiled {x : Expression τ ν ε} (h : Checked x) : Compiled x := by
  induction h with
  | @intro x check _ ih =>
    -- pushing the program again, under the name that the expression already has
    let b : Builder τ ν ε := { inputs := x.inputs, name := some x.name }
    have hb : b.Fresh := ⟨rfl, rfl⟩
    refine .push hb ih (Builder.finalize_eq_ok_iff.2 ⟨Builder.drain_pushEach hb _, ?_, check, ?_⟩)
    · simp [Builder.pushEach_eq, b]
    · simp [Builder.pushEach_eq, b]

/-- Being obtainable is a matter of the static check alone. -/
theorem compiled_iff_checked {x : Expression τ ν ε} : Compiled x ↔ Checked x :=
  ⟨Compiled.checked, Checked.compiled⟩

/-- Feeding a builder in both orders obtains nothing that one order does not. -/
theorem Compiled.of_finalize {b : Builder τ ν ε} {x : Expression τ ν ε} (h : b.finalize = .ok x)
    (nested : ∀ y, .nested y ∈ b.yard.nodes → Compiled y) : Compiled x :=
  (Checked.of_finalize h fun y hy => (nested y hy).checked).compiled

end ExpressionEngine
