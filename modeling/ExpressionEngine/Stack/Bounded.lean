/-! A stack that may be limited in size, with its items listed bottom-most first. Every item is checked against
the limit as it is put on; a push that would exceed it changes nothing, and an extension stops at the
first item that finds no room. -/

namespace ExpressionEngine

variable {α : Type}

/-! ### The top -/

/-- What lies below the topmost `n` items, and these items; none if there are fewer. -/
def splitTop? (n : Nat) (items : List α) : Option (List α × List α) :=
  if n ≤ items.length then some (items.splitAt (items.length - n)) else none

theorem splitTop?_append (below top : List α) :
    splitTop? top.length (below ++ top) = some (below, top) := by
  simp [splitTop?, List.splitAt_eq]

theorem splitTop?_eq_none_iff (n : Nat) (items : List α) :
    splitTop? n items = none ↔ items.length < n := by
  simp [splitTop?]

theorem splitTop?_eq_some_iff {n : Nat} {items below top : List α} :
    splitTop? n items = some (below, top) ↔ items = below ++ top ∧ top.length = n := by
  constructor
  · intro h
    unfold splitTop? at h
    split at h
    · rename_i hn
      rw [List.splitAt_eq, Option.some.injEq, Prod.mk.injEq] at h
      obtain ⟨rfl, rfl⟩ := h
      exact ⟨(List.take_append_drop _ _).symm, by simp; omega⟩
    · exact absurd h (by simp)
  · rintro ⟨rfl, rfl⟩
    exact splitTop?_append below top

/-! ### The limit -/

/-- The stack would hold `size` items, but `max` is the most it may hold. -/
structure Overflow where
  size : Nat
  max : Nat
  deriving DecidableEq

/-- Items are listed bottom-most first. -/
structure Stack (α : Type) where
  limit : Option Nat := none
  items : List α := []

namespace Stack

def empty (limit : Option Nat) : Stack α := ⟨limit, []⟩

def height (s : Stack α) : Nat := s.items.length

def push (s : Stack α) (a : α) : Except Overflow (Stack α) :=
  match s.limit with
  | none => .ok { s with items := s.items ++ [a] }
  | some max =>
    if max ≤ s.height then .error ⟨s.height + 1, max⟩ else .ok { s with items := s.items ++ [a] }

/-- Pushes the items in order, as far as they fit; the last one ends up on top. -/
def extend (s : Stack α) : List α → Stack α × Option Overflow
  | [] => (s, none)
  | a :: rest =>
    match s.push a with
    | .error e => (s, some e)
    | .ok s' => s'.extend rest

/-- Takes off the topmost `n` items, bottom-most first; none if there are fewer. -/
def pop? (s : Stack α) (n : Nat) : Option (List α × Stack α) :=
  (splitTop? n s.items).map fun split => (split.2, { s with items := split.1 })

@[simp] theorem items_empty (limit : Option Nat) : (empty limit : Stack α).items = [] := rfl

@[simp] theorem limit_empty (limit : Option Nat) : (empty limit : Stack α).limit = limit := rfl

@[simp] theorem extend_nil (s : Stack α) : s.extend [] = (s, none) := rfl

theorem push_of_unlimited {s : Stack α} (h : s.limit = none) (a : α) :
    s.push a = .ok { s with items := s.items ++ [a] } := by
  simp [push, h]

theorem extend_of_unlimited {s : Stack α} (h : s.limit = none) (as : List α) :
    s.extend as = ({ s with items := s.items ++ as }, none) := by
  induction as generalizing s with
  | nil => simp
  | cons a rest ih =>
    rw [extend, push_of_unlimited h]
    simpa using ih (s := { s with items := s.items ++ [a] }) h

theorem pop?_append (limit : Option Nat) (below top : List α) :
    (⟨limit, below ++ top⟩ : Stack α).pop? top.length = some (top, ⟨limit, below⟩) := by
  simp [pop?, splitTop?_append]

theorem pop?_eq_none_iff (s : Stack α) (n : Nat) : s.pop? n = none ↔ s.height < n := by
  simp [pop?, splitTop?_eq_none_iff, height]

end Stack

end ExpressionEngine
