import ExpressionEngine.Change
import ExpressionEngine.Stack.Bounded

/-! Stacks that are changed in place. Sizes have no sign, and there is nothing beyond the top; an operation
that asked for either would be stopped, as it is by the limit. -/

namespace ExpressionEngine

variable {α : Type}

namespace Stack

/-- What stops an operation: the limit, or a size or position that there is not. -/
inductive Stop where
  | overflow (o : Overflow)
  | outOfRange
  deriving DecidableEq

namespace InPlace

def difference (m n : Nat) : Change (Stack α) Stop Nat :=
  if n ≤ m then pure (m - n) else throw .outOfRange

/-- Goes on if there is room for one more item. -/
def checkRoom : Change (Stack α) Stop Unit := do
  let s ← get
  match s.limit with
  | none => pure ()
  | some max => if max ≤ s.height then throw (.overflow ⟨s.height + 1, max⟩) else pure ()

def push (a : α) : Change (Stack α) Stop Unit := do
  checkRoom
  modify fun s => { s with items := s.items ++ [a] }

/-- Pushes one item after another. -/
def extend (as : List α) : Change (Stack α) Stop Unit := as.forM push

/-- Takes off the items from a position on. -/
def splitOff (position : Nat) : Change (Stack α) Stop (List α) := do
  let s ← get
  if position ≤ s.height then
    set { s with items := s.items.take position }
    return s.items.drop position
  else
    throw .outOfRange

/-- Takes off the topmost `n` items; none if there are fewer. -/
def pop? (n : Nat) : Change (Stack α) Stop (Option (List α)) := do
  let height := (← get).height
  if height < n then
    return none
  else
    let position ← difference height n
    return some (← splitOff position)

/-! ### In one step -/

theorem checkRoom_of_full {s : Stack α} {max : Nat} (hs : s.limit = some max) (h : max ≤ s.height) :
    checkRoom s = .error (.overflow ⟨s.height + 1, max⟩) s := by
  rw [checkRoom, Change.bind_of_ok (by rfl), hs]
  dsimp only
  rw [if_pos h]
  rfl

theorem checkRoom_of_room {s : Stack α} (h : ∀ max, s.limit = some max → s.height < max) :
    checkRoom s = .ok () s := by
  rw [checkRoom, Change.bind_of_ok (by rfl)]
  cases hs : s.limit with
  | none => rfl
  | some max =>
    dsimp only
    rw [if_neg (Nat.not_le.2 (h max hs))]
    rfl

/-- Room is looked for before anything is put on. -/
theorem push_eq (a : α) (s : Stack α) : push a s =
    match s.push a with
    | .ok s' => .ok () s'
    | .error o => .error (.overflow o) s := by
  by_cases hfull : ∃ max, s.limit = some max ∧ max ≤ s.height
  · obtain ⟨max, hs, h⟩ := hfull
    rw [push, Change.bind_of_error (checkRoom_of_full hs h), Stack.push, hs]
    dsimp only
    rw [if_pos h]
  · have hroom : ∀ max, s.limit = some max → s.height < max := by simpa using hfull
    rw [push, Change.bind_of_ok (checkRoom_of_room hroom)]
    cases hs : s.limit with
    | none =>
      rw [push_of_unlimited hs]
      rfl
    | some max =>
      rw [Stack.push, hs]
      dsimp only
      rw [if_neg (Nat.not_le.2 (hroom max hs)), ← hs]
      rfl

/-- What was put on until then stays if an item finds no room. -/
theorem extend_eq (as : List α) (s : Stack α) : extend as s =
    match s.extend as with
    | (s', none) => .ok () s'
    | (s', some o) => .error (.overflow o) s' := by
  induction as generalizing s with
  | nil => rfl
  | cons a rest ih =>
    have hpush := push_eq a s
    rw [Stack.extend]
    cases hp : s.push a with
    | ok s' =>
      rw [hp] at hpush
      exact (Change.bind_of_ok hpush).trans (ih s')
    | error o =>
      rw [hp] at hpush
      exact Change.bind_of_error hpush

/-- The difference is taken, and the items are cut, only where there are enough of them. -/
theorem pop?_eq (n : Nat) (s : Stack α) : pop? n s =
    match s.pop? n with
    | some (top, s') => .ok (some top) s'
    | none => .ok none s := by
  rw [pop?, Change.bind_of_ok (by rfl)]
  by_cases h : s.height < n
  · rw [(s.pop?_eq_none_iff n).2 h, if_pos h]
    rfl
  · have hn : n ≤ s.height := Nat.le_of_not_lt h
    have hdifference : difference s.height n s = .ok (s.height - n) s := by
      rw [difference, if_pos hn]
      rfl
    have hsplit : splitOff (s.height - n) s = .ok (s.items.drop (s.height - n))
        { s with items := s.items.take (s.height - n) } := by
      rw [splitOff, Change.bind_of_ok (by rfl), if_pos (Nat.sub_le _ _)]
      rfl
    have htop : splitTop? n s.items = some (s.items.splitAt (s.height - n)) := if_pos hn
    rw [if_neg h, Change.bind_of_ok hdifference, Change.bind_of_ok hsplit, Stack.pop?, htop,
      List.splitAt_eq]
    rfl

end InPlace

/-! ### Operations -/

inductive Operation (α : Type) where
  | push (a : α)
  | extend (as : List α)
  | pop (n : Nat)

def Operation.perform : Operation α → Change (Stack α) Stop Unit
  | .push a => InPlace.push a
  | .extend as => InPlace.extend as
  | .pop n => discard (InPlace.pop? n)

/-- The stack after one operation upon another, failed ones included. -/
def after (s : Stack α) (past : List (Operation α)) : Stack α :=
  past.foldl (fun s o => o.perform.leave s) s

end Stack

end ExpressionEngine
