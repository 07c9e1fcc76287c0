import ExpressionEngine.Builder
import ExpressionEngine.Change

/-! Builders that are changed in place. A call changes the builder step by step, and one that is refused
leaves behind what it changed until then; whoever goes on goes on with that. So it matters that a
closer looks for its group before it moves anything. -/

namespace ExpressionEngine

variable {τ ν ε : Type}

namespace Builder

/-- A call changes the builder, up to the point where it may be refused. -/
abbrev Call (τ ν ε α : Type) := EStateM BuildError (Builder τ ν ε) α

namespace InPlace

def setPending (pending : List (Node τ ν ε)) : Call τ ν ε Unit :=
  modify fun b => { b with yard := { b.yard with pending } }

def emit (n : Node τ ν ε) : Call τ ν ε Unit := modify fun b => { b with yard := b.yard.push n }

/-- Takes away the latest `count` nodes that wait. -/
def detach (count : Nat) : Call τ ν ε (List (Node τ ν ε)) := do
  let pending := (← get).yard.pending
  setPending (pending.drop count)
  return pending.take count

/-- Of what waits, puts one node after another in place for as long as the test is passed. -/
def releaseWhile (p : Node τ ν ε → Bool) : List (Node τ ν ε) → Call τ ν ε Unit
  | [] => pure ()
  | top :: rest =>
    if p top then do
      setPending rest
      emit top
      releaseWhile p rest
    else
      pure ()

/-- Puts in place what waits above the group that is `depth` nodes down, and forgets the group. -/
def leaveGroup (depth : Nat) : Call τ ν ε Unit := do
  let inner ← detach depth
  inner.forM emit
  discard (detach 1)

/-- Finds a place for a node. -/
def place (n : Node τ ν ε) : Call τ ν ε Unit := do
  let pending := (← get).yard.pending
  match n.kind with
  | .value => emit n
  | .groupOpen => setPending (n :: pending)
  | .groupClose =>
    -- to look comes first: nothing has been moved yet if there is no group to leave
    match pending.findIdx? Yard.isOpener with
    | none => throw (.unbalancedGroup n.symbol)
    | some depth => leaveGroup depth
  | .operator =>
    releaseWhile (Yard.yieldsTo n) pending
    setPending (n :: (← get).yard.pending)

/-- Takes one node in infix order. -/
def append (n : Node τ ν ε) : Call τ ν ε Unit := do
  place n
  modify fun b => { b with fragments := b.fragments ++ [n.symbol] }

/-! ### In one step -/

theorem forM_emit (ns : List (Node τ ν ε)) (b : Builder τ ν ε) : ns.forM emit b =
    .ok () { b with yard := { b.yard with emitted := b.yard.emitted ++ ns } } := by
  induction ns generalizing b with
  | nil =>
    rw [List.append_nil]
    rfl
  | cons n rest ih =>
    rw [List.append_cons]
    exact ih { b with yard := b.yard.push n }

theorem releaseWhile_eq (p : Node τ ν ε → Bool) (b : Builder τ ν ε)
    (emitted pending : List (Node τ ν ε)) :
    releaseWhile p pending { b with yard := ⟨emitted, pending⟩ } =
      .ok () { b with yard := ⟨emitted ++ pending.takeWhile p, pending.dropWhile p⟩ } := by
  induction pending generalizing emitted with
  | nil =>
    rw [List.takeWhile_nil, List.append_nil]
    rfl
  | cons top rest ih =>
    by_cases htop : p top = true
    · rw [releaseWhile, if_pos htop, List.takeWhile_cons_of_pos htop,
        List.dropWhile_cons_of_pos htop, List.append_cons]
      exact ih (emitted ++ [top])
    · rw [releaseWhile, if_neg htop, List.takeWhile_cons_of_neg htop,
        List.dropWhile_cons_of_neg htop, List.append_nil]
      rfl

theorem leaveGroup_eq (b : Builder τ ν ε) {inner outer : List (Node τ ν ε)} {o : Node τ ν ε}
    (hp : b.yard.pending = inner ++ o :: outer) : leaveGroup inner.length b =
      .ok () { b with yard := ⟨b.yard.emitted ++ inner, outer⟩ } := by
  have hinner : b.yard.pending.take inner.length = inner := by rw [hp, List.take_left]
  have houter : b.yard.pending.drop inner.length = o :: outer := by rw [hp, List.drop_left]
  rw [leaveGroup, Change.bind_of_ok (by rfl), Change.bind_of_ok (forM_emit _ _), hinner, houter]
  rfl

theorem findIdx?_isOpener {inner outer : List (Node τ ν ε)} {o : Node τ ν ε}
    (hi : ∀ m ∈ inner, Yard.isOpener m = false) (ho : Yard.isOpener o = true) :
    (inner ++ o :: outer).findIdx? Yard.isOpener = some inner.length := by
  rw [List.findIdx?_append, List.findIdx?_eq_none_iff.2 hi]
  simp [List.findIdx?_cons, ho]

/-- In place a node goes where the yard puts it, and one that the yard refuses leaves all as it was. -/
theorem place_eq (n : Node τ ν ε) (b : Builder τ ν ε) : place n b =
    match b.yard.append n with
    | .ok yard => .ok () { b with yard }
    | .error e => .error e b := by
  cases hk : n.kind with
  | value =>
    rw [Yard.append_value _ hk]
    simp only [place, hk]
    rfl
  | groupOpen =>
    rw [Yard.append_groupOpen _ hk]
    simp only [place, hk]
    rfl
  | groupClose =>
    obtain ⟨inner, outer, hp, hi, ho⟩ := exists_split (!Yard.isOpener ·) b.yard.pending
    have hinside : ∀ m ∈ inner, Yard.isOpener m = false := by simpa using hi
    cases outer with
    | nil =>
      rw [List.append_nil] at hp
      have hnone : b.yard.pending.findIdx? Yard.isOpener = none :=
        List.findIdx?_eq_none_iff.2 (hp ▸ hinside)
      rw [(Yard.append_groupClose_eq_error_iff _ hk).2 ⟨hp ▸ hinside, rfl⟩]
      simp only [place, hk]
      rw [Change.bind_of_ok (by rfl), hnone]
      rfl
    | cons o outer =>
      have hopens : Yard.isOpener o = true := by simpa using ho o rfl
      rw [(Yard.append_groupClose_eq_ok_iff hk).2 ⟨_, _, _, hp, hopens, hinside, rfl⟩]
      have hsome : b.yard.pending.findIdx? Yard.isOpener = some inner.length :=
        hp ▸ findIdx?_isOpener hinside hopens
      simp only [place, hk]
      rw [Change.bind_of_ok (by rfl), hsome]
      exact leaveGroup_eq b hp
  | operator =>
    rw [Yard.append_operator _ hk]
    simp only [place, hk]
    exact Change.bind_of_ok (releaseWhile_eq _ b b.yard.emitted b.yard.pending)

/-- The builder that takes a node in place is the one that takes it as a whole. -/
theorem append_eq (n : Node τ ν ε) (b : Builder τ ν ε) : append n b =
    match b.append n with
    | .ok b' => .ok () b'
    | .error e => .error e b := by
  have hplace := place_eq n b
  rw [Builder.append]
  cases hn : b.yard.append n with
  | ok yard =>
    rw [hn] at hplace
    exact Change.bind_of_ok hplace
  | error e =>
    rw [hn] at hplace
    exact Change.bind_of_error hplace

end InPlace

/-! ### Requests -/

/-- To take a node, be it an element or a whole expression, or to name what is built. -/
inductive Request (τ ν ε : Type) where
  | append (n : Node τ ν ε)
  | setName (name : String)

namespace Request

def perform : Request τ ν ε → Call τ ν ε Unit
  | .append n => InPlace.append n
  | .setName name => modify (·.setName name)

def node? : Request τ ν ε → Option (Node τ ν ε)
  | .append n => some n
  | .setName _ => none

def name? : Request τ ν ε → Option String
  | .append _ => none
  | .setName name => some name

end Request

/-- What requests have come to: the builder as they left it, and for each of them in turn the error
that it was refused with, if it was. -/
structure Service (τ ν ε : Type) where
  builder : Builder τ ν ε
  answers : List (Option BuildError) := []

/-- Meets the requests one by one, and goes on with whatever one that is refused left behind. -/
def serve (b : Builder τ ν ε) : List (Request τ ν ε) → Service τ ν ε
  | [] => ⟨b, []⟩
  | r :: rest =>
    match r.perform b with
    | .ok _ b' =>
      let service := b'.serve rest
      { service with answers := none :: service.answers }
    | .error e b' =>
      let service := b'.serve rest
      { service with answers := some e :: service.answers }

/-- The requests that are not refused. -/
def granted (b : Builder τ ν ε) (rs : List (Request τ ν ε)) : List (Request τ ν ε) :=
  ((rs.zip (b.serve rs).answers).filter (·.2.isNone)).map Prod.fst

/-- Where all requests are to append nodes, this is how a builder is fed. -/
theorem builder_serve_append (b : Builder τ ν ε) (position : Nat) (ns : List (Node τ ν ε)) :
    (b.serve (ns.map .append)).builder = (b.appendFrom position ns).builder := by
  induction ns generalizing b position with
  | nil => rfl
  | cons n rest ih =>
    rw [List.map_cons, serve, Request.perform, InPlace.append_eq, appendFrom]
    cases b.append n with
    | ok b' => exact ih b' (position + 1)
    | error e => exact ih b (position + 1)

end Builder

end ExpressionEngine
