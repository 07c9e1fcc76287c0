import ExpressionEngine.Expression.Basic
import ExpressionEngine.Span

/-! The yard, where an infix sequence becomes a postfix program. Values go straight to the program;
operators and open groups wait until what follows shows that they are complete. -/

namespace ExpressionEngine

variable {τ ν ε : Type}

structure Yard (τ ν ε : Type) where
  /-- the program so far -/
  emitted : List (Node τ ν ε) := []
  /-- operators and open groups, the latest first -/
  pending : List (Node τ ν ε) := []

namespace Yard

def isOpener (n : Node τ ν ε) : Bool := n.kind = .groupOpen

/-- A pending operator has to leave before `incoming` waits on top of it. -/
def yieldsTo (incoming waiting : Node τ ν ε) : Bool :=
  !isOpener waiting && waiting.BindsBefore incoming

/-- Takes one node in infix order. A group closes by releasing everything that waits inside it;
without an open group the node is refused. -/
def append (y : Yard τ ν ε) (n : Node τ ν ε) : Except BuildError (Yard τ ν ε) :=
  match n.kind with
  | .value => .ok { y with emitted := y.emitted ++ [n] }
  | .groupOpen => .ok { y with pending := n :: y.pending }
  | .groupClose =>
    match y.pending.dropWhile (!isOpener ·) with
    | [] => .error (.unbalancedGroup n.symbol)
    | _ :: outer => .ok ⟨y.emitted ++ y.pending.takeWhile (!isOpener ·), outer⟩
  | .operator =>
    .ok ⟨y.emitted ++ y.pending.takeWhile (yieldsTo n), n :: y.pending.dropWhile (yieldsTo n)⟩

/-- Takes one node in postfix order. -/
def push (y : Yard τ ν ε) (n : Node τ ν ε) : Yard τ ν ε := { y with emitted := y.emitted ++ [n] }

/-- The whole program, the latest pending operator first. A group must not be left open. -/
def drain (y : Yard τ ν ε) : Except BuildError (List (Node τ ν ε)) :=
  match y.pending.find? isOpener with
  | some n => .error (.unbalancedGroup n.symbol)
  | none => .ok (y.emitted ++ y.pending)

/-! ### Sequences -/

/-- Takes every node in turn, up to the first that is refused. -/
def appendAll (y : Yard τ ν ε) (ns : List (Node τ ν ε)) : Except BuildError (Yard τ ν ε) :=
  ns.foldlM append y

/-- Takes a node if it is not refused. -/
def offer (y : Yard τ ν ε) (n : Node τ ν ε) : Yard τ ν ε := (y.append n).toOption.getD y

/-- Takes every node that is not refused. -/
def offerAll (y : Yard τ ν ε) (ns : List (Node τ ν ε)) : Yard τ ν ε := ns.foldl offer y

theorem offer_of_ok {y z : Yard τ ν ε} {n : Node τ ν ε} (h : y.append n = .ok z) :
    y.offer n = z := by
  simp [offer, h, Except.toOption]

theorem offer_of_error {y : Yard τ ν ε} {n : Node τ ν ε} {e : BuildError}
    (h : y.append n = .error e) : y.offer n = y := by
  simp [offer, h, Except.toOption]

/-! ### One law for each kind of node -/

theorem append_value (y : Yard τ ν ε) {n : Node τ ν ε} (h : n.kind = .value) :
    y.append n = .ok { y with emitted := y.emitted ++ [n] } := by
  simp [append, h]

theorem append_groupOpen (y : Yard τ ν ε) {n : Node τ ν ε} (h : n.kind = .groupOpen) :
    y.append n = .ok { y with pending := n :: y.pending } := by
  simp [append, h]

theorem append_operator (y : Yard τ ν ε) {n : Node τ ν ε} (h : n.kind = .operator) :
    y.append n = .ok ⟨y.emitted ++ y.pending.takeWhile (yieldsTo n),
      n :: y.pending.dropWhile (yieldsTo n)⟩ := by
  simp [append, h]

theorem append_groupClose {emitted inner outer : List (Node τ ν ε)} {n o : Node τ ν ε}
    (h : n.kind = .groupClose) (ho : isOpener o = true) (hi : ∀ m ∈ inner, isOpener m = false) :
    append ⟨emitted, inner ++ o :: outer⟩ n = .ok ⟨emitted ++ inner, outer⟩ := by
  have hinside : ∀ m ∈ inner, (!isOpener m) = true := by simpa using hi
  have hopens : ∀ w ∈ (o :: outer).head?, (!isOpener w) = false := by simpa using ho
  obtain ⟨ht, hd⟩ := span_of_split hinside hopens
  simp [append, h, ht, hd]

theorem dropWhile_not_opener_eq_nil_iff (ns : List (Node τ ν ε)) :
    ns.dropWhile (!isOpener ·) = [] ↔ ∀ m ∈ ns, isOpener m = false := by
  induction ns with
  | nil => simp
  | cons m rest ih => cases hm : isOpener m <;> simp [hm, ih]

theorem append_groupClose_eq_error_iff (y : Yard τ ν ε) {n : Node τ ν ε} {e : BuildError}
    (h : n.kind = .groupClose) : y.append n = .error e ↔
      (∀ m ∈ y.pending, isOpener m = false) ∧ .unbalancedGroup n.symbol = e := by
  rw [← dropWhile_not_opener_eq_nil_iff]
  simp only [append, h]
  cases y.pending.dropWhile (!isOpener ·) <;> simp

/-- In full: what closes a group parts what waits at the group that was opened last. -/
theorem append_groupClose_eq_ok_iff {y z : Yard τ ν ε} {n : Node τ ν ε} (h : n.kind = .groupClose) :
    y.append n = .ok z ↔ ∃ inner o outer, y.pending = inner ++ o :: outer ∧ isOpener o = true ∧
      (∀ m ∈ inner, isOpener m = false) ∧ z = ⟨y.emitted ++ inner, outer⟩ := by
  constructor
  · intro hz
    obtain ⟨inner, rest, hp, hi, ho⟩ := exists_split (!isOpener ·) y.pending
    have hinside : ∀ m ∈ inner, isOpener m = false := by simpa using hi
    obtain ⟨emitted, pending⟩ := y
    obtain rfl : pending = inner ++ rest := hp
    cases rest with
    | nil =>
      rw [List.append_nil, (append_groupClose_eq_error_iff _ h).2 ⟨hinside, rfl⟩] at hz
      cases hz
    | cons o outer =>
      have hopens : isOpener o = true := by simpa using ho o rfl
      rw [append_groupClose h hopens hinside] at hz
      cases hz
      exact ⟨inner, o, outer, rfl, hopens, hinside, rfl⟩
  · rintro ⟨inner, o, outer, hp, ho, hi, rfl⟩
    obtain ⟨emitted, pending⟩ := y
    obtain rfl : pending = inner ++ o :: outer := hp
    exact append_groupClose h ho hi

end Yard

end ExpressionEngine
