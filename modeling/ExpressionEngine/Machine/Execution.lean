import ExpressionEngine.Expression.Basic
import ExpressionEngine.Machine.Run
import ExpressionEngine.Stack.Bounded

/-! Running an expression on a stack of values. Every expression, nested or not, works on a stack of
its own that starts with its arguments; a node takes its arguments off the top and puts its results
in their place. -/

namespace ExpressionEngine

variable {τ ν ε : Type}

structure ExecutionOptions where
  /-- the most values that one expression's stack may hold -/
  maxStackSize : Option Nat := none
  deriving DecidableEq

/-- Calls the element once. -/
def Element.run (e : Element τ ν ε) (s : Signal) (arguments : List ν) : Run τ ν ε (List ν) :=
  let outcome := e.execute s arguments
  { result := outcome.result.mapError .element
    signal := s.cancelIf outcome.cancels
    calls := [⟨e, s, arguments, outcome⟩] }

/-- Puts the values on the stack, as far as they fit. -/
def Stack.load (stack : Stack ν) (s : Signal) (values : List ν) : Run τ ν ε (Stack ν) :=
  match stack.extend values with
  | (stack', none) => { result := .ok stack', signal := s, peak := stack'.height }
  | (stack', some overflow) =>
    { result := .error (.stackOverflow overflow.size overflow.max), signal := s,
      peak := stack'.height }

mutual

def Node.run (options : ExecutionOptions) : Node τ ν ε → Signal → List ν → Run τ ν ε (List ν)
  | .element e, s, arguments => e.run s arguments
  | .nested x, s, arguments => x.run options s arguments

/-- Ends with everything left on the stack, bottom-most first. -/
def Expression.run (options : ExecutionOptions) :
    Expression τ ν ε → Signal → List ν → Run τ ν ε (List ν)
  | ⟨_, program, _, _⟩, s, inputs =>
    ((Stack.empty options.maxStackSize).load s inputs).bind fun stack s =>
      (runProgram options program stack s).map Stack.items

def runProgram (options : ExecutionOptions) :
    List (Node τ ν ε) → Stack ν → Signal → Run τ ν ε (Stack ν)
  | [], stack, s => .finished s stack
  | n :: rest, stack, s =>
    match stack.pop? n.inputs.length with
    | none => .failed s (.stackUnderflow n.symbol n.inputs.length stack.height)
    | some (arguments, below) =>
      (n.run options s arguments).bind fun produced s =>
        (below.load s produced).bind fun stack s => runProgram options rest stack s

end

/-- Ends with the one value left on the stack; any other number of values is an error. -/
def Expression.runSingle (options : ExecutionOptions) (x : Expression τ ν ε) (s : Signal)
    (inputs : List ν) : Run τ ν ε ν :=
  (x.run options s inputs).bind fun values s =>
    match values with
    | [v] => .finished s v
    | values => .failed s (.wrongResultArity 1 values.length)

/-- The stack machine on a bare program: the stack starts with the inputs. -/
def runFrom (options : ExecutionOptions) (program : List (Node τ ν ε)) (s : Signal)
    (inputs : List ν) : Run τ ν ε (List ν) :=
  ((Stack.empty options.maxStackSize).load s inputs).bind fun stack s =>
    (runProgram options program stack s).map Stack.items

theorem Element.execute_of_run_eq_ok {e : Element τ ν ε} {s : Signal} {arguments vs : List ν}
    (h : (e.run s arguments).result = .ok vs) : (e.execute s arguments).result = .ok vs := by
  simp only [run] at h
  cases hr : (e.execute s arguments).result with
  | error x => rw [hr] at h; cases h
  | ok vs' => rw [hr] at h; cases h; rfl

/-- It is only with an error of its own that an element fails. -/
theorem Element.execute_of_run_eq_error {e : Element τ ν ε} {s : Signal} {arguments : List ν}
    {err : ExecutionError ε} (h : (e.run s arguments).result = .error err) :
    ∃ x, err = .element x ∧ (e.execute s arguments).result = .error x := by
  simp only [run] at h
  cases hr : (e.execute s arguments).result with
  | error x => rw [hr] at h; cases h; exact ⟨x, rfl, rfl⟩
  | ok vs => rw [hr] at h; cases h

theorem Expression.run_eq (options : ExecutionOptions) (x : Expression τ ν ε) (s : Signal)
    (inputs : List ν) : x.run options s inputs = runFrom options x.program s inputs := by
  cases x; rfl

/-! ### A single value -/

namespace Expression

variable {options : ExecutionOptions} {x : Expression τ ν ε} {s : Signal} {inputs : List ν}

theorem runSingle_eq_ok_iff {v : ν} : (x.runSingle options s inputs).result = .ok v ↔
    (x.run options s inputs).result = .ok [v] := by
  rw [runSingle, Run.result_bind_eq_ok_iff]
  constructor
  · rintro ⟨vs, hvs, hv⟩
    rcases vs with - | ⟨w, - | ⟨w', rest⟩⟩ <;> cases hv
    exact hvs
  · intro h
    exact ⟨[v], h, rfl⟩

/-- An error of the run is passed on; otherwise it is the number of values that is wrong. -/
theorem runSingle_eq_error_iff {err : ExecutionError ε} :
    (x.runSingle options s inputs).result = .error err ↔
      (x.run options s inputs).result = .error err ∨
        ∃ vs, (x.run options s inputs).result = .ok vs ∧ vs.length ≠ 1 ∧
          err = .wrongResultArity 1 vs.length := by
  rw [runSingle]
  cases hr : (x.run options s inputs).result with
  | error e => simp [Run.bind_of_error hr]
  | ok vs =>
    rw [Run.bind_of_ok hr]
    rcases vs with - | ⟨v, - | ⟨w, rest⟩⟩ <;> simp [Run.finished, Run.failed, eq_comm]

/-- Nothing more is executed, and no stack grows higher. -/
theorem runSingle_calls_peak (x : Expression τ ν ε) (options : ExecutionOptions) (s : Signal)
    (inputs : List ν) :
    (x.runSingle options s inputs).calls = (x.run options s inputs).calls ∧
      (x.runSingle options s inputs).peak = (x.run options s inputs).peak := by
  rw [runSingle]
  cases hr : (x.run options s inputs).result with
  | error e =>
    rw [Run.bind_of_error hr]
    exact ⟨rfl, rfl⟩
  | ok vs =>
    rw [Run.bind_of_ok hr]
    rcases vs with - | ⟨v, - | ⟨w, rest⟩⟩ <;> simp [Run.finished, Run.failed]

end Expression

/-! ### Programs -/

theorem runProgram_nil (options : ExecutionOptions) (stack : Stack ν) (s : Signal) :
    runProgram options ([] : List (Node τ ν ε)) stack s = .finished s stack := rfl

theorem runProgram_cons_of_pop {options : ExecutionOptions} {n : Node τ ν ε}
    {rest : List (Node τ ν ε)} {stack below : Stack ν} {arguments : List ν} {s : Signal}
    (h : stack.pop? n.inputs.length = some (arguments, below)) :
    runProgram options (n :: rest) stack s =
      (n.run options s arguments).bind fun produced s =>
        (below.load s produced).bind fun stack s => runProgram options rest stack s := by
  simp [runProgram, h]

theorem runProgram_cons_of_underflow {options : ExecutionOptions} {n : Node τ ν ε}
    {rest : List (Node τ ν ε)} {stack : Stack ν} {s : Signal}
    (h : stack.pop? n.inputs.length = none) :
    runProgram options (n :: rest) stack s =
      .failed s (.stackUnderflow n.symbol n.inputs.length stack.height) := by
  simp [runProgram, h]

theorem runProgram_cons_append {n : Node τ ν ε} {arguments : List ν}
    (h : arguments.length = n.inputs.length) (options : ExecutionOptions) (rest : List (Node τ ν ε))
    (limit : Option Nat) (below : List ν) (s : Signal) :
    runProgram options (n :: rest) ⟨limit, below ++ arguments⟩ s =
      (n.run options s arguments).bind fun produced s =>
        ((⟨limit, below⟩ : Stack ν).load s produced).bind fun stack s =>
          runProgram options rest stack s := by
  apply runProgram_cons_of_pop
  rw [← h]
  exact Stack.pop?_append limit below arguments

theorem runProgram_cons_of_lt {n : Node τ ν ε} {items : List ν}
    (h : items.length < n.inputs.length) (options : ExecutionOptions) (rest : List (Node τ ν ε))
    (limit : Option Nat) (s : Signal) : runProgram options (n :: rest) ⟨limit, items⟩ s =
      .failed s (.stackUnderflow n.symbol n.inputs.length items.length) :=
  runProgram_cons_of_underflow ((Stack.pop?_eq_none_iff ⟨limit, items⟩ _).2 h)

/-- A program in two parts runs as one part after the other. -/
theorem runProgram_append (options : ExecutionOptions) (p q : List (Node τ ν ε)) (stack : Stack ν)
    (s : Signal) : runProgram options (p ++ q) stack s =
      (runProgram options p stack s).bind (runProgram options q) := by
  induction p generalizing stack s with
  | nil => simp [runProgram_nil]
  | cons n rest ih =>
    rw [List.cons_append]
    cases h : stack.pop? n.inputs.length with
    | none => rw [runProgram_cons_of_underflow h, runProgram_cons_of_underflow h]; rfl
    | some split =>
      rw [runProgram_cons_of_pop h, runProgram_cons_of_pop h]
      simp only [Run.bind_assoc, ih]

end ExpressionEngine
