import ExpressionEngine.Proofs.Compiled
import ExpressionEngine.Proofs.Variance
import ExpressionEngine.Scalar.Tracing

/-! Substitution. A node gives way to one that accepts more and gives less, and an input to a narrower
one, without any loss to the static check: what was accepted is accepted, and ends with narrower types.
How the members of a set are listed then makes no difference at all. -/

namespace ExpressionEngine

variable {τ ν ε : Type}

namespace TypeSet

/-- One set listed in two ways, in another order or with repetitions. -/
def SameMembers (s t : TypeSet τ) : Prop := ∀ u, u ∈ s.members ↔ u ∈ t.members

theorem SameMembers.refl (s : TypeSet τ) : s.SameMembers s := fun _ => Iff.rfl

theorem SameMembers.symm {s t : TypeSet τ} (h : s.SameMembers t) : t.SameMembers s :=
  fun u => (h u).symm

variable [BEq τ]

/-- Accepts every type that the other accepts, and maybe more. -/
def Widens (wide accepted : TypeSet τ) : Prop :=
  ∀ u ∈ accepted.members, wide.contains u = true

instance (wide accepted : TypeSet τ) : Decidable (wide.Widens accepted) :=
  inferInstanceAs (Decidable (∀ u ∈ accepted.members, wide.contains u = true))

theorem SameMembers.widens [ReflBEq τ] {s t : TypeSet τ} (h : s.SameMembers t) : s.Widens t :=
  fun u hu => (s.contains_iff u).2 ⟨u, (h u).2 hu, BEq.rfl⟩

theorem SameMembers.narrows [ReflBEq τ] {s t : TypeSet τ} (h : s.SameMembers t) : s.Narrows t where
  subset := h.symm.widens
  isEmpty_eq := by
    rw [Bool.eq_iff_iff, isEmpty_iff, isEmpty_iff, List.eq_nil_iff_forall_not_mem,
      List.eq_nil_iff_forall_not_mem]
    exact forall_congr' fun u => not_congr (h u)

/-- Of the wide set nothing is asked but that it takes over: it has a member because the set it widens
has one. -/
theorem isCompatibleWith_of_widens [PartialEquivBEq τ] {provided accepted wide : TypeSet τ}
    (h : provided.isCompatibleWith accepted = true) (hw : wide.Widens accepted) :
    provided.isCompatibleWith wide = true := by
  obtain ⟨⟨hp, ha⟩, hsub⟩ := isCompatibleWith_iff.1 h
  have hwide : wide.isEmpty = false := by
    obtain ⟨u, hu⟩ := List.isEmpty_eq_false_iff_exists_mem.1 ha
    obtain ⟨v, hv, -⟩ := (wide.contains_iff u).1 (hw u hu)
    exact List.isEmpty_eq_false_iff_exists_mem.2 ⟨v, hv⟩
  exact isCompatibleWith_iff.2 ⟨⟨hp, hwide⟩, fun u hu => contains_of_subset hw (hsub u hu)⟩

end TypeSet

/-! ### Nodes that may stand for others -/

/-- `m` may stand where `n` stands: slot by slot it accepts more and gives less. -/
structure Node.Refines [BEq τ] (m n : Node τ ν ε) : Prop where
  accepts : List.Forall₂ TypeSet.Widens m.inputs n.inputs
  gives : List.Forall₂ TypeSet.Narrows m.outputs n.outputs

/-- What the two nodes declare differs at most in how the sets are listed. -/
structure Node.SameTypes (m n : Node τ ν ε) : Prop where
  inputs : List.Forall₂ TypeSet.SameMembers m.inputs n.inputs
  outputs : List.Forall₂ TypeSet.SameMembers m.outputs n.outputs

theorem forall₂_symm {α : Type} {R : α → α → Prop} (hR : ∀ {a b}, R a b → R b a) {as bs : List α}
    (h : List.Forall₂ R as bs) : List.Forall₂ R bs as :=
  (h.imp fun _ _ hab => hR hab).flip

theorem Node.SameTypes.refl (n : Node τ ν ε) : n.SameTypes n :=
  ⟨List.forall₂_same.2 fun s _ => .refl s, List.forall₂_same.2 fun s _ => .refl s⟩

theorem Node.SameTypes.symm {m n : Node τ ν ε} (h : m.SameTypes n) : n.SameTypes m :=
  ⟨forall₂_symm .symm h.inputs, forall₂_symm .symm h.outputs⟩

theorem Node.SameTypes.refines [BEq τ] [ReflBEq τ] {m n : Node τ ν ε} (h : m.SameTypes n) :
    m.Refines n :=
  ⟨h.inputs.imp fun _ _ hs => hs.widens, h.outputs.imp fun _ _ hs => hs.narrows⟩

variable [Ty τ]

theorem Fits.of_widens [PartialEquivBEq τ] {provided accepted wide : List (TypeSet τ)}
    (h : Fits provided accepted) (hw : List.Forall₂ TypeSet.Widens wide accepted) :
    Fits provided wide :=
  forall₂_trans (fun _ _ _ => TypeSet.isCompatibleWith_of_widens) h hw.flip

/-- As a program of its own, a refinement does all that is asked of the node. -/
theorem Node.Refines.implements [PartialEquivBEq τ] {m n : Node τ ν ε} (h : m.Refines n) :
    Implements [m] n := by
  intro provided hf
  have hstep := m.typeStep_of_fits [] (hf.of_widens h.accepts)
  refine ⟨m.outputs, ?_, h.gives⟩
  rw [typeCheck_singleton]
  exact hstep

theorem typeCheck_refines [PartialEquivBEq τ] {program program' : List (Node τ ν ε)}
    (h : List.Forall₂ Node.Refines program' program) {slots slots' outputs : List (TypeSet τ)}
    (hs : List.Forall₂ TypeSet.Narrows slots' slots) (hc : typeCheck slots program = .ok outputs) :
    ∃ outputs', typeCheck slots' program' = .ok outputs' ∧
      List.Forall₂ TypeSet.Narrows outputs' outputs := by
  have himp : List.Forall₂ Implements (program'.map fun m => [m]) program :=
    List.forall₂_map_left_iff.2 (h.imp fun _ _ hm => hm.implements)
  have hflat : (program'.map fun m => [m]).flatten = program' := by
    rw [← List.flatMap_def, List.flatMap_singleton']
  simpa only [hflat] using typeCheck_implements himp hs hc

/-! ### Builders fed with them -/

namespace Builder

theorem finalize_pushEach {b : Builder τ ν ε} (hb : b.Fresh) (ns : List (Node τ ν ε)) :
    (b.pushEach ns).finalize = (typeCheck b.inputs ns).map fun outputs =>
      ⟨(b.pushEach ns).name.getD (b.pushEach ns).derivedName, ns, b.inputs, outputs⟩ := by
  rw [finalize_of_drain (drain_pushEach hb ns)]
  simp [pushEach_eq]

theorem outputs_finalize_pushEach {b : Builder τ ν ε} (hb : b.Fresh) (ns : List (Node τ ν ε)) :
    (b.pushEach ns).finalize.map Expression.outputs = typeCheck b.inputs ns := by
  rw [finalize_pushEach hb]
  cases typeCheck b.inputs ns <;> rfl

theorem program_of_finalize_pushEach {b : Builder τ ν ε} (hb : b.Fresh) {ns : List (Node τ ν ε)}
    {x : Expression τ ν ε} (h : (b.pushEach ns).finalize = .ok x) : x.program = ns := by
  have hd := (finalize_eq_ok_iff.1 h).1
  rw [drain_pushEach hb] at hd
  exact (Except.ok.inj hd).symm

theorem finalize_of_refines [PartialEquivBEq τ] {b b' : Builder τ ν ε} (hb : b.Fresh)
    (hb' : b'.Fresh) (hi : List.Forall₂ TypeSet.Narrows b'.inputs b.inputs)
    {ns ns' : List (Node τ ν ε)} (hn : List.Forall₂ Node.Refines ns' ns) {x : Expression τ ν ε}
    (hx : (b.pushEach ns).finalize = .ok x) :
    ∃ y, (b'.pushEach ns').finalize = .ok y ∧ List.Forall₂ TypeSet.Narrows y.outputs x.outputs := by
  rw [finalize_pushEach hb] at hx
  cases hc : typeCheck b.inputs ns with
  | error e =>
    rw [hc] at hx
    cases hx
  | ok outputs =>
    rw [hc] at hx
    cases hx
    obtain ⟨outputs', hc', houtputs⟩ := typeCheck_refines hn hi hc
    rw [finalize_pushEach hb', hc']
    exact ⟨_, rfl, houtputs⟩

theorem finalize_of_sameTypes [EquivBEq τ] {b b' : Builder τ ν ε} (hb : b.Fresh) (hb' : b'.Fresh)
    (hi : List.Forall₂ TypeSet.SameMembers b'.inputs b.inputs) {ns ns' : List (Node τ ν ε)}
    (hn : List.Forall₂ Node.SameTypes ns' ns) {x : Expression τ ν ε}
    (hx : (b.pushEach ns).finalize = .ok x) : ∃ y, (b'.pushEach ns').finalize = .ok y := by
  have hinputs : List.Forall₂ TypeSet.Narrows b'.inputs b.inputs := hi.imp fun _ _ hs => hs.narrows
  have hnodes : List.Forall₂ Node.Refines ns' ns := hn.imp fun _ _ hm => hm.refines
  obtain ⟨y, hy, -⟩ := finalize_of_refines hb hb' hinputs hnodes hx
  exact ⟨y, hy⟩

/-- Substitution by better nodes preserves acceptance: with inputs that are narrower and nodes that
accept more and give less, what was accepted is accepted, with as many outputs, which are narrower. So
it makes no difference to acceptance in what order, and how often, the members of a set are listed. -/
theorem finalize_refines [EquivBEq τ] {b b' : Builder τ ν ε} (hb : b.Fresh) (hb' : b'.Fresh)
    (ns ns' : List (Node τ ν ε)) :
    (∀ x, List.Forall₂ TypeSet.Narrows b'.inputs b.inputs → List.Forall₂ Node.Refines ns' ns →
      (b.pushEach ns).finalize = .ok x →
        ∃ y, (b'.pushEach ns').finalize = .ok y ∧ y.outputs.length = x.outputs.length ∧
          List.Forall₂ TypeSet.Narrows y.outputs x.outputs) ∧
      (List.Forall₂ TypeSet.SameMembers b'.inputs b.inputs → List.Forall₂ Node.SameTypes ns' ns →
        ((∃ y, (b'.pushEach ns').finalize = .ok y) ↔ ∃ x, (b.pushEach ns).finalize = .ok x)) := by
  constructor
  · intro x hi hn hx
    obtain ⟨y, hy, ho⟩ := finalize_of_refines hb hb' hi hn hx
    exact ⟨y, hy, ho.length_eq, ho⟩
  · intro hi hn
    constructor
    · rintro ⟨y, hy⟩
      exact finalize_of_sameTypes hb' hb (forall₂_symm .symm hi) (forall₂_symm .symm hn) hy
    · rintro ⟨x, hx⟩
      exact finalize_of_sameTypes hb hb' hi hn hx

/-- A node that falls back on its second operand gives way to one that accepts any first operand and
never gives nothing; listing its sets in other ways is no change. Giving less cannot go as far as to
give no type at all, though no type is then given that was not given before. -/
theorem finalize_refines_fallback :
    let b : Builder TypeTag Scalar String := { inputs := [Tracing.optional, Tracing.optional] }
    let b' : Builder TypeTag Scalar String := { inputs := [Tracing.text, Tracing.optional] }
    let program := fun node => [Tracing.value "a", node,
      Tracing.declaring "!" [Tracing.optional] [Tracing.optional]]
    let fallback := Tracing.declaring "?" [Tracing.optional, Tracing.text] [Tracing.optional]
    let better := Tracing.declaring "?"
      [.ofList [.named "bool", .named "nil", .named "text"], Tracing.text] [Tracing.text]
    let relisted := Tracing.declaring "?"
      [.ofList [.named "nil", .named "text", .named "nil"], Tracing.text]
      [.ofList [.named "nil", .named "text"]]
    let silent := Tracing.declaring "?" [Tracing.optional, Tracing.text] [.empty]
    (∃ x y, (b.pushEach (program fallback)).finalize = .ok x ∧
      (b'.pushEach (program better)).finalize = .ok y ∧
      x.outputs = [Tracing.optional, Tracing.optional] ∧
      y.outputs = [Tracing.text, Tracing.optional] ∧
      List.Forall₂ TypeSet.Narrows y.outputs x.outputs) ∧
      (∃ z, (b.pushEach (program relisted)).finalize = .ok z) ∧
      (b.pushEach (program silent)).finalize.toOption = none := by
  intro b b' program fallback better relisted silent
  have hb : b.Fresh := ⟨rfl, rfl⟩
  have hb' : b'.Fresh := ⟨rfl, rfl⟩
  obtain ⟨x, hx, hxo⟩ : ∃ x, (b.pushEach (program fallback)).finalize = .ok x ∧
      x.outputs = [Tracing.optional, Tracing.optional] := ⟨_, rfl, rfl⟩
  have hbetter : List.Forall₂ Node.Refines (program better) (program fallback) :=
    .cons ⟨by decide, by decide⟩ (.cons ⟨by decide, by decide⟩ (.cons ⟨by decide, by decide⟩ .nil))
  obtain ⟨y, hy, -, hn⟩ := (finalize_refines hb hb' (program fallback) (program better)).1 x
    (by decide) hbetter hx
  have hyo : y.outputs = [Tracing.text, Tracing.optional] := by
    have hmap : (b'.pushEach (program better)).finalize.map Expression.outputs =
        .ok [Tracing.text, Tracing.optional] := rfl
    rw [hy] at hmap
    exact Except.ok.inj hmap
  have hrelisted : relisted.SameTypes fallback :=
    ⟨.cons (fun u => by simp [Tracing.optional, or_comm]) (.cons (.refl _) .nil),
      .cons (fun u => by simp [Tracing.optional, or_comm]) .nil⟩
  have hprogram : List.Forall₂ Node.SameTypes (program relisted) (program fallback) :=
    .cons (.refl _) (.cons hrelisted (.cons (.refl _) .nil))
  have hinputs : List.Forall₂ TypeSet.SameMembers b.inputs b.inputs :=
    List.forall₂_same.2 fun s _ => .refl s
  exact ⟨⟨x, y, hx, hy, hxo, hyo, hn⟩,
    ((finalize_refines hb hb (program fallback) (program relisted)).2 hinputs hprogram).2 ⟨x, hx⟩, rfl⟩

end Builder

end ExpressionEngine
