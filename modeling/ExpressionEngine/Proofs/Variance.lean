import ExpressionEngine.Proofs.Typing

/-! Variance of the static check. What goes through on some slots goes through on narrower ones, and
leaves narrower ones; and it still does if its nodes give way to programs that take whatever they take
and leave nothing that they may not. -/

namespace ExpressionEngine

variable {τ ν ε : Type}

namespace TypeSet

variable [BEq τ]

/-- All types of the one set are in the other, and neither is empty without the other. Inclusion alone
would let a set shrink to the empty one, which fits nowhere. -/
structure Narrows (s t : TypeSet τ) : Prop where
  subset : ∀ u ∈ s.members, t.contains u = true
  isEmpty_eq : s.isEmpty = t.isEmpty

instance (s t : TypeSet τ) : Decidable (s.Narrows t) :=
  decidable_of_iff ((∀ u ∈ s.members, t.contains u = true) ∧ s.isEmpty = t.isEmpty)
    ⟨fun h => ⟨h.1, h.2⟩, fun h => ⟨h.subset, h.isEmpty_eq⟩⟩

theorem Narrows.refl [ReflBEq τ] (s : TypeSet τ) : s.Narrows s where
  subset u hu := (s.contains_iff u).2 ⟨u, hu, BEq.rfl⟩
  isEmpty_eq := rfl

theorem Narrows.trans [PartialEquivBEq τ] {s t r : TypeSet τ} (hst : s.Narrows t)
    (htr : t.Narrows r) : s.Narrows r where
  subset u hu := contains_of_subset htr.subset (hst.subset u hu)
  isEmpty_eq := hst.isEmpty_eq.trans htr.isEmpty_eq

/-- What fits is narrower than what it fits, and nothing else is asked for but that there is something
to accept. -/
theorem isCompatibleWith_iff_narrows {provided accepted : TypeSet τ} :
    provided.isCompatibleWith accepted = true ↔
      provided.Narrows accepted ∧ accepted.isEmpty = false := by
  rw [isCompatibleWith_iff]
  constructor
  · rintro ⟨⟨hp, ha⟩, hsub⟩
    exact ⟨⟨hsub, hp.trans ha.symm⟩, ha⟩
  · rintro ⟨h, ha⟩
    exact ⟨⟨h.isEmpty_eq.trans ha, ha⟩, h.subset⟩

end TypeSet

variable [Ty τ]

theorem Fits.narrows {provided accepted : List (TypeSet τ)} (h : Fits provided accepted) :
    List.Forall₂ TypeSet.Narrows provided accepted :=
  List.Forall₂.imp (fun _ _ h => (TypeSet.isCompatibleWith_iff_narrows.1 h).1) h

theorem Fits.of_narrows [PartialEquivBEq τ] {provided provided' accepted : List (TypeSet τ)}
    (h : Fits provided accepted) (hn : List.Forall₂ TypeSet.Narrows provided' provided) :
    Fits provided' accepted := by
  refine forall₂_trans (fun p' p a hp hf => ?_) hn h
  obtain ⟨hpa, ha⟩ := TypeSet.isCompatibleWith_iff_narrows.1 hf
  exact TypeSet.isCompatibleWith_iff_narrows.2 ⟨hp.trans hpa, ha⟩

/-- On everything that the node accepts the program goes through, and what it leaves is what the node
gives or narrower. -/
def Implements (program : List (Node τ ν ε)) (n : Node τ ν ε) : Prop :=
  ∀ provided, Fits provided n.inputs →
    ∃ outputs, typeCheck provided program = .ok outputs ∧
      List.Forall₂ TypeSet.Narrows outputs n.outputs

theorem Node.implements_self [ReflBEq τ] (n : Node τ ν ε) : Implements [n] n := by
  intro provided hf
  have hstep := n.typeStep_of_fits [] hf
  refine ⟨n.outputs, ?_, List.forall₂_same.2 fun s _ => .refl s⟩
  rw [typeCheck_singleton]
  exact hstep

/-- A program for each node: together they go through on slots that are narrower. -/
theorem typeCheck_implements [PartialEquivBEq τ] {programs : List (List (Node τ ν ε))}
    {program : List (Node τ ν ε)} (h : List.Forall₂ Implements programs program)
    {slots slots' outputs : List (TypeSet τ)} (hs : List.Forall₂ TypeSet.Narrows slots' slots)
    (hc : typeCheck slots program = .ok outputs) :
    ∃ outputs', typeCheck slots' programs.flatten = .ok outputs' ∧
      List.Forall₂ TypeSet.Narrows outputs' outputs := by
  induction h generalizing slots slots' with
  | nil =>
    cases hc
    exact ⟨slots', rfl, hs⟩
  | @cons p n ps rest hp _ ih =>
    obtain ⟨next, hstep, hrest⟩ := typeCheck_cons_eq_ok_iff.1 hc
    obtain ⟨below, provided, rfl, hf, rfl⟩ := Node.typeStep_eq_ok_iff.1 hstep
    obtain ⟨below', provided', rfl, hbelow, hprovided⟩ := forall₂_append_right hs
    -- the node was checked on wider slots; its program runs on the narrower ones, above the rest
    obtain ⟨given, hgiven, hnarrow⟩ := hp provided' (hf.of_narrows hprovided)
    obtain ⟨outputs', hrest', houtputs⟩ := ih (List.rel_append hbelow hnarrow) hrest
    refine ⟨outputs', ?_, houtputs⟩
    rw [List.flatten_cons, typeCheck_append_of_ok (typeCheck_frame below' hgiven)]
    exact hrest'

end ExpressionEngine
