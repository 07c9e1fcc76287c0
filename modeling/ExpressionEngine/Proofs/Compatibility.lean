import ExpressionEngine.Proofs.Substitution
import ExpressionEngine.Types.Construction

/-! Compatibility as inclusion. Up to the equality of types, a set is compatible with another just if it has
members and all of them are members of the other; the laws of inclusion follow, and neither how the members
are listed nor what they are called makes a difference. -/

namespace ExpressionEngine

namespace TypeSet

variable {τ : Type}

section Members

variable [BEq τ] {a a' b b' c : TypeSet τ}

/-- No type tells the two sets apart. -/
def EqualMembers (a b : TypeSet τ) : Prop := ∀ u, a.contains u = b.contains u

theorem members_ne_nil_iff [ReflBEq τ] : a.members ≠ [] ↔ ∃ u, a.contains u = true := by
  constructor
  · intro h
    obtain ⟨u, hu⟩ := List.exists_mem_of_ne_nil _ h
    exact ⟨u, (a.contains_iff u).2 ⟨u, hu, BEq.rfl⟩⟩
  · rintro ⟨u, hu⟩
    obtain ⟨v, hv, -⟩ := (a.contains_iff u).1 hu
    exact List.ne_nil_of_mem hv

/-- That the other set has members need not be said. -/
theorem isCompatibleWith_iff_forall_exists : a.isCompatibleWith b = true ↔
    a.members ≠ [] ∧ ∀ t ∈ a.members, ∃ u ∈ b.members, (t == u) = true := by
  simp only [isCompatibleWith_iff, contains_iff, isEmpty, List.isEmpty_eq_false_iff]
  constructor
  · rintro ⟨⟨ha, -⟩, hsub⟩
    exact ⟨ha, hsub⟩
  · rintro ⟨ha, hsub⟩
    obtain ⟨t, ht⟩ := List.exists_mem_of_ne_nil _ ha
    obtain ⟨u, hu, -⟩ := hsub t ht
    exact ⟨⟨ha, List.ne_nil_of_mem hu⟩, hsub⟩

theorem isCompatibleWith_iff_contains [EquivBEq τ] : a.isCompatibleWith b = true ↔
    a.members ≠ [] ∧ ∀ u, a.contains u = true → b.contains u = true := by
  rw [isCompatibleWith_iff_forall_exists]
  simp only [← contains_iff]
  refine and_congr_right fun _ => ⟨fun h u hu => contains_of_subset h hu, fun h t ht => h t ?_⟩
  exact (a.contains_iff t).2 ⟨t, ht, BEq.rfl⟩

theorem EqualMembers.isCompatibleWith_eq [EquivBEq τ] (ha : a.EqualMembers a')
    (hb : b.EqualMembers b') : a.isCompatibleWith b = a'.isCompatibleWith b' := by
  rw [Bool.eq_iff_iff, isCompatibleWith_iff_contains, isCompatibleWith_iff_contains,
    members_ne_nil_iff, members_ne_nil_iff]
  simp only [ha _, hb _]

theorem SameMembers.equalMembers (h : a.SameMembers a') : a.EqualMembers a' := by
  intro u
  rw [Bool.eq_iff_iff, contains_iff, contains_iff]
  simp only [h _]

/-- Types give way to equal ones. -/
theorem equalMembers_of_forall₂ [PartialEquivBEq τ]
    (h : List.Forall₂ (fun t t' => (t == t') = true) a.members a'.members) : a.EqualMembers a' := by
  intro u
  obtain ⟨members⟩ := a
  obtain ⟨members'⟩ := a'
  dsimp only at h
  induction h with
  | nil => rfl
  | @cons t t' rest rest' ht _ ih =>
    change (u == t || rest.contains u) = (u == t' || rest'.contains u)
    rw [BEq.congr_right ht]
    exact congrArg _ ih

theorem isCompatibleWith_self_iff [EquivBEq τ] : a.isCompatibleWith a = true ↔ a.members ≠ [] := by
  rw [isCompatibleWith_iff_contains]
  exact and_iff_left fun u hu => hu

theorem isCompatibleWith_trans [EquivBEq τ] (hab : a.isCompatibleWith b = true)
    (hbc : b.isCompatibleWith c = true) : a.isCompatibleWith c = true := by
  rw [isCompatibleWith_iff_contains] at hab hbc ⊢
  exact ⟨hab.1, fun u hu => hbc.2 u (hab.2 u hu)⟩

theorem isCompatibleWith_both_iff [EquivBEq τ] :
    (a.isCompatibleWith b = true ∧ b.isCompatibleWith a = true) ↔
      a.members ≠ [] ∧ b.members ≠ [] ∧ a.EqualMembers b := by
  rw [isCompatibleWith_iff_contains, isCompatibleWith_iff_contains]
  constructor
  · rintro ⟨⟨ha, hab⟩, hb, hba⟩
    exact ⟨ha, hb, fun u => Bool.eq_iff_iff.2 ⟨hab u, hba u⟩⟩
  · rintro ⟨ha, hb, h⟩
    exact ⟨⟨ha, fun u hu => h u ▸ hu⟩, hb, fun u hu => (h u).symm ▸ hu⟩

theorem isCompatibleWith_foldl_push [EquivBEq τ] (h : a.isCompatibleWith b = true) (types : List τ) :
    a.isCompatibleWith (types.foldl push b) = true := by
  refine isCompatibleWith_of_widens h fun u hu => ?_
  rw [contains_iff, members_foldl_push]
  exact ⟨u, List.mem_append_left _ hu, BEq.rfl⟩

theorem isCompatibleWith_append_iff (ha : a.members ≠ []) (ha' : a'.members ≠ []) :
    (ofList (a.members ++ a'.members)).isCompatibleWith b = true ↔
      a.isCompatibleWith b = true ∧ a'.isCompatibleWith b = true := by
  simp only [isCompatibleWith_iff_forall_exists, members_ofList, List.forall_mem_append]
  simp [ha, ha']

end Members

theorem isCompatibleWith_map_interned [Ty τ] (a b : TypeSet τ) :
    (a.map Interned.mk).isCompatibleWith (b.map Interned.mk) = a.isCompatibleWith b := by
  rw [Bool.eq_iff_iff, isCompatibleWith_iff_forall_exists, isCompatibleWith_iff_forall_exists]
  simp [Interned.beq_eq]

/-- Compatibility is inclusion of sets with members. It is reflexive on them, transitive, and holds both ways
just between sets with the same members; it depends neither on the order and repetition of members, nor
on which of equal types stand for them, nor on whether they are shared behind handles. More members in the
required set, or two provided sets in one, make the difference that they make to inclusion. And however a
set is built, its members are the types that were listed. -/
theorem isCompatibleWith_inclusion [Ty τ] [EquivBEq τ] :
    (∀ a b : TypeSet τ, a.isCompatibleWith b = true ↔
        a.members ≠ [] ∧ ∀ t ∈ a.members, ∃ u ∈ b.members, (t == u) = true) ∧
      (∀ a : TypeSet τ, a.isCompatibleWith a = true ↔ a.members ≠ []) ∧
      (∀ a b c : TypeSet τ, a.isCompatibleWith b = true → b.isCompatibleWith c = true →
        a.isCompatibleWith c = true) ∧
      (∀ a b : TypeSet τ, (a.isCompatibleWith b = true ∧ b.isCompatibleWith a = true) ↔
        a.members ≠ [] ∧ b.members ≠ [] ∧ a.EqualMembers b) ∧
      (∀ a a' b b' : TypeSet τ, a.SameMembers a' → b.SameMembers b' →
        a.isCompatibleWith b = a'.isCompatibleWith b') ∧
      (∀ a a' b b' : TypeSet τ,
        List.Forall₂ (fun t t' => (t == t') = true) a.members a'.members →
        List.Forall₂ (fun t t' => (t == t') = true) b.members b'.members →
        a.isCompatibleWith b = a'.isCompatibleWith b') ∧
      (∀ a b : TypeSet τ,
        (a.map Interned.mk).isCompatibleWith (b.map Interned.mk) = a.isCompatibleWith b) ∧
      (∀ (a b : TypeSet τ) (types : List τ), a.isCompatibleWith b = true →
        a.isCompatibleWith (types.foldl push b) = true) ∧
      (∀ a a' b : TypeSet τ, a.members ≠ [] → a'.members ≠ [] →
        ((ofList (a.members ++ a'.members)).isCompatibleWith b = true ↔
          a.isCompatibleWith b = true ∧ a'.isCompatibleWith b = true)) ∧
      ∀ c : Construction τ, c.build.members = c.listed := by
  exact ⟨fun a b => isCompatibleWith_iff_forall_exists, fun a => isCompatibleWith_self_iff,
    fun a b c => isCompatibleWith_trans, fun a b => isCompatibleWith_both_iff,
    fun a a' b b' ha hb => ha.equalMembers.isCompatibleWith_eq hb.equalMembers,
    fun a a' b b' ha hb =>
      (equalMembers_of_forall₂ ha).isCompatibleWith_eq (equalMembers_of_forall₂ hb),
    isCompatibleWith_map_interned, fun a b types h => isCompatibleWith_foldl_push h types,
    fun a a' b ha ha' => isCompatibleWith_append_iff ha ha', Construction.members_build⟩

/-- A set that is listed with a repetition, and one in another order that calls a type by another name. They
are compatible both ways, and stay so when one more type is accepted; part of the set is compatible with the
whole but not the whole with a part, and nothing is compatible with the empty set or the empty set with
anything. -/
theorem isCompatibleWith_inclusion_renamed :
    let nil : TypeTag := .named "nil"
    let a : TypeSet TypeTag := .collect [⟨"f", "float"⟩, nil, ⟨"f", "float"⟩]
    let b : TypeSet TypeTag := (single nil).push ⟨"f", "double"⟩
    (a.isCompatibleWith b = true ∧ b.isCompatibleWith a = true) ∧
      a.isCompatibleWith (b.push (.named "text")) = true ∧
      (ofList (a.members ++ (single nil).members)).isCompatibleWith b = true ∧
      (single nil).isCompatibleWith a = true ∧ a.isCompatibleWith (single nil) = false ∧
      empty.isCompatibleWith a = false ∧ a.isCompatibleWith empty = false := by
  intro nil a b
  obtain ⟨hiff, hrefl, htrans, -, hsame, hequal, -, hpush, hunion, -⟩ :=
    isCompatibleWith_inclusion (τ := TypeTag)
  have hlisted : a.SameMembers (ofList [nil, ⟨"f", "float"⟩]) := fun u => by
    simp [a, collect, or_comm]
  have hcalled : List.Forall₂ (fun t t' : TypeTag => (t == t') = true)
      (ofList [nil, ⟨"f", "float"⟩]).members b.members := by decide
  have hself : b.isCompatibleWith b = true := (hrefl b).2 (by decide)
  have hab : a.isCompatibleWith b = true := by
    rw [hsame a _ b b hlisted (.refl b), hequal _ b b b hcalled (by decide)]
    exact hself
  have hba : b.isCompatibleWith a = true := by
    rw [hsame b b a _ (.refl b) hlisted, hequal b b _ b (by decide) hcalled]
    exact hself
  have hnil : (single nil).isCompatibleWith a = true := (hiff (single nil) a).2 (by decide)
  refine ⟨⟨hab, hba⟩, hpush a b [.named "text"] hab, ?_, hnil, by decide, by decide, by decide⟩
  exact (hunion a (single nil) b (by decide) (by decide)).2 ⟨hab, htrans _ a b hnil hab⟩

end TypeSet

end ExpressionEngine
