import ExpressionEngine.Machine.Moment
import ExpressionEngine.Proofs.Machine.Ensures

/-! Parts of a run. The run of a program's first nodes, and that of a nested expression on the
arguments it finds, happen within the run of the whole: what they call is called by the whole, and no
stack of theirs grows higher than the highest of the whole. -/

namespace ExpressionEngine

variable {τ ν ε α β γ : Type}

namespace Run

/-- Every call of the run is one of the other's, and its stacks grow no higher. -/
structure Within (r : Run τ ν ε α) (u : Run τ ν ε β) : Prop where
  calls : r.calls ⊆ u.calls
  peak : r.peak ≤ u.peak

namespace Within

theorem trans {r : Run τ ν ε α} {u : Run τ ν ε β} {w : Run τ ν ε γ} (h : r.Within u)
    (h' : u.Within w) : r.Within w where
  calls := List.Subset.trans h.calls h'.calls
  peak := Nat.le_trans h.peak h'.peak

theorem bind_left (r : Run τ ν ε α) (next : α → Signal → Run τ ν ε β) :
    r.Within (r.bind next) := by
  cases hr : r.result with
  | error e =>
    rw [bind_of_error hr]
    exact ⟨List.Subset.refl _, Nat.le_refl _⟩
  | ok a =>
    rw [bind_of_ok hr]
    exact ⟨List.subset_append_left _ _, Nat.le_max_left _ _⟩

theorem bind_right {r : Run τ ν ε α} {a : α} (hr : r.result = .ok a)
    (next : α → Signal → Run τ ν ε β) : (next a r.signal).Within (r.bind next) := by
  rw [bind_of_ok hr]
  exact ⟨List.subset_append_right _ _, Nat.le_max_right _ _⟩

end Within

theorem Ensures.trivial (r : Run τ ν ε α) :
    r.Ensures (fun _ => True) (fun _ => True) (fun _ => True) :=
  ⟨fun _ _ => .intro, fun _ _ => .intro, fun _ _ => .intro⟩

end Run

/-! ### Programs in two parts -/

/-- A stack keeps the limit that it started with. -/
theorem runProgram_limit (options : ExecutionOptions) (program : List (Node τ ν ε))
    (stack : Stack ν) (s : Signal) : (runProgram options program stack s).Ensures
      (fun _ => True) (fun _ => True) (fun stack' => stack'.limit = stack.limit) := by
  induction program generalizing stack s with
  | nil =>
    rw [runProgram_nil]
    refine .finished ?_ s
    rfl
  | cons n rest ih =>
    obtain ⟨limit, items⟩ := stack
    rcases Stack.lt_or_exists_top n.inputs.length items with h | ⟨below, arguments, rfl, ha⟩
    · rw [runProgram_cons_of_lt h]
      exact .failed trivial s
    · rw [runProgram_cons_append ha]
      refine (Run.Ensures.trivial _).bind fun produced s _ => ?_
      refine (Stack.load_ensures (fun _ _ => trivial) _ s produced).bind fun stack' s hload => ?_
      have hlimit : stack'.limit = limit := by rw [hload]
      show (runProgram options rest stack' s).Ensures _ _ fun stack'' => stack''.limit = limit
      rw [← hlimit]
      exact ih stack' s

theorem runFrom_append (options : ExecutionOptions) (p q : List (Node τ ν ε)) (s : Signal)
    (inputs : List ν) : runFrom options (p ++ q) s inputs =
      (runFrom options p s inputs).bind fun items s =>
        (runProgram options q ⟨options.maxStackSize, items⟩ s).map Stack.items := by
  have hload : ((Stack.empty options.maxStackSize).load s inputs : Run τ ν ε (Stack ν)).Ensures
      (fun _ => True) (fun _ => True) _ := Stack.load_ensures (fun _ _ => trivial) _ s inputs
  rw [runFrom, runFrom, Run.bind_assoc]
  refine Run.bind_congr fun stack hstack => ?_
  have hlimit : stack.limit = options.maxStackSize := by rw [hload.value stack hstack]; rfl
  simp only [Run.map, Run.bind_assoc, runProgram_append, Run.finished_bind]
  refine Run.bind_congr fun stack' hstack' => ?_
  have hlimit' := (runProgram_limit options p stack _).value stack' hstack'
  rw [← hlimit, ← hlimit']

theorem runFrom_nil_of_room {options : ExecutionOptions} {inputs : List ν} {stack : Stack ν}
    (room : (Stack.empty options.maxStackSize).extend inputs = (stack, none)) (s : Signal) :
    runFrom options ([] : List (Node τ ν ε)) s inputs =
      { result := .ok inputs, signal := s, peak := inputs.length } := by
  obtain rfl := Stack.eq_of_extend_eq_none room
  rw [runFrom, Stack.load, room]
  simp [Run.bind, Run.map, Run.finished, runProgram_nil, Stack.height]

/-- One node more. -/
theorem runFrom_snoc {options : ExecutionOptions} {past : List (Node τ ν ε)} {n : Node τ ν ε}
    {s : Signal} {inputs below arguments produced : List ν} {stack : Stack ν}
    (reached : (runFrom options past s inputs).result = .ok (below ++ arguments))
    (taken : arguments.length = n.inputs.length)
    (given : (n.run options (runFrom options past s inputs).signal arguments).result = .ok produced)
    (room : (⟨options.maxStackSize, below⟩ : Stack ν).extend produced = (stack, none)) :
    (runFrom options (past ++ [n]) s inputs).result = .ok (below ++ produced) ∧
      (runFrom options (past ++ [n]) s inputs).signal =
        (n.run options (runFrom options past s inputs).signal arguments).signal := by
  obtain rfl := Stack.eq_of_extend_eq_none room
  rw [runFrom_append, Run.bind_of_ok reached, runProgram_cons_append taken, Run.map,
    Run.bind_of_ok given]
  simp [Run.bind, Stack.load, room, runProgram_nil, Run.finished]

namespace Expression

variable {options : ExecutionOptions} {x y : Expression τ ν ε} {past rest : List (Node τ ν ε)}
  {s : Signal} {inputs below arguments : List ν}

theorem past_within (split : x.program = past ++ rest) :
    (runFrom options past s inputs).Within (x.run options s inputs) := by
  rw [run_eq, split, runFrom_append]
  exact .bind_left _ _

theorem nested_within (split : x.program = past ++ .nested y :: rest)
    (reached : (runFrom options past s inputs).result = .ok (below ++ arguments))
    (taken : arguments.length = y.inputs.length) :
    (y.run options (runFrom options past s inputs).signal arguments).Within
      (x.run options s inputs) := by
  rw [run_eq options x, split, runFrom_append]
  refine .trans ?_ (.bind_right reached _)
  rw [runProgram_cons_append (n := .nested y) taken]
  exact .trans (.bind_left _ _) (.bind_left _ _)

end Expression

end ExpressionEngine
