import ExpressionEngine.Types.Basic

/-! Sets of types, read as "any one of these". A set keeps the order in which its members were
given, and repetitions; neither matters to compatibility, which is inclusion between sets that are
both inhabited. -/

namespace ExpressionEngine

open Text

variable {τ : Type}

/-- Any one of these types. -/
structure TypeSet (τ : Type) where
  members : List τ
  deriving BEq

namespace TypeSet

def empty : TypeSet τ := ⟨[]⟩

instance : Inhabited (TypeSet τ) := ⟨empty⟩

def single (t : τ) : TypeSet τ := ⟨[t]⟩

def ofList (types : List τ) : TypeSet τ := ⟨types⟩

def ofArray (types : Array τ) : TypeSet τ := ⟨types.toList⟩

def push (s : TypeSet τ) (t : τ) : TypeSet τ := ⟨s.members ++ [t]⟩

def map {σ : Type} (f : τ → σ) (s : TypeSet τ) : TypeSet σ := ⟨s.members.map f⟩

def size (s : TypeSet τ) : Nat := s.members.length

def isEmpty (s : TypeSet τ) : Bool := s.members.isEmpty

def contains [BEq τ] (s : TypeSet τ) (t : τ) : Bool := s.members.contains t

/-- Whatever `provided` stands for is accepted where `required` is asked for. The empty set
promises nothing and accepts nothing. -/
def isCompatibleWith [BEq τ] (provided required : TypeSet τ) : Bool :=
  !provided.isEmpty && !required.isEmpty && provided.members.all required.contains

def debugForm [Ty τ] (s : TypeSet τ) : DebugForm := .sequence (s.members.map Ty.debugForm)

/-! ### Members -/

@[simp] theorem members_empty : (empty : TypeSet τ).members = [] := rfl

@[simp] theorem members_single (t : τ) : (single t).members = [t] := rfl

@[simp] theorem members_ofList (types : List τ) : (ofList types).members = types := rfl

@[simp] theorem members_ofArray (types : Array τ) : (ofArray types).members = types.toList := rfl

@[simp] theorem members_push (s : TypeSet τ) (t : τ) : (s.push t).members = s.members ++ [t] := rfl

@[simp] theorem members_map {σ : Type} (f : τ → σ) (s : TypeSet τ) :
    (s.map f).members = s.members.map f := rfl

@[ext] theorem ext_members {s t : TypeSet τ} (h : s.members = t.members) : s = t := by
  cases s; cases t; exact congrArg mk h

theorem isEmpty_iff (s : TypeSet τ) : s.isEmpty = true ↔ s.members = [] := by
  simp [isEmpty]

theorem contains_iff [BEq τ] (s : TypeSet τ) (t : τ) :
    s.contains t = true ↔ ∃ u ∈ s.members, (t == u) = true := by
  simp [contains, List.contains_eq_any_beq]

theorem isCompatibleWith_iff [BEq τ] {provided required : TypeSet τ} :
    provided.isCompatibleWith required = true ↔
      (provided.isEmpty = false ∧ required.isEmpty = false) ∧
        ∀ t ∈ provided.members, required.contains t = true := by
  simp [isCompatibleWith]

/-- A type need not be listed itself to be a member, so that this takes transitivity. -/
theorem contains_of_subset [BEq τ] [PartialEquivBEq τ] {s t : TypeSet τ}
    (h : ∀ u ∈ s.members, t.contains u = true) {v : τ} (hv : s.contains v = true) :
    t.contains v = true := by
  obtain ⟨u, hu, hvu⟩ := (s.contains_iff v).1 hv
  obtain ⟨w, hw, huw⟩ := (t.contains_iff u).1 (h u hu)
  exact (t.contains_iff v).2 ⟨w, hw, PartialEquivBEq.trans hvu huw⟩

end TypeSet

end ExpressionEngine
