import ExpressionEngine.Expression.Inline
import ExpressionEngine.Machine.Execution

/-! Moments of a run. A run is an activation of its expression, and every nested expression that the
run comes to is activated in turn, on a stack of its own. A moment shows one activation between two
nodes of its program, with the stack as it then stands. A run that does not come to its end stops at one
point of its program: at the inputs, that do not fit on the stack, at a node that finds too few arguments,
at an element that fails, inside a nested expression, or at the values of a node, that do not fit. -/

namespace ExpressionEngine

variable {τ ν ε : Type}

structure Moment (τ ν ε : Type) where
  /-- the expression that is activated -/
  expression : Expression τ ν ε
  /-- the nodes already run -/
  past : List (Node τ ν ε)
  /-- what the stack holds, bottom-most first -/
  held : List ν

/-- The moments that a run comes to: its own, and those of an expression next in turn, which takes
its arguments off the stack. -/
inductive Expression.Meets (options : ExecutionOptions) :
    Expression τ ν ε → Signal → List ν → Moment τ ν ε → Prop
  | own {x : Expression τ ν ε} {s : Signal} {inputs : List ν} {past rest : List (Node τ ν ε)}
      {held : List ν} (split : x.program = past ++ rest)
      (reached : (runFrom options past s inputs).result = .ok held) :
      Meets options x s inputs ⟨x, past, held⟩
  | nested {x y : Expression τ ν ε} {s : Signal} {inputs : List ν} {past rest : List (Node τ ν ε)}
      {below arguments : List ν} {m : Moment τ ν ε} (split : x.program = past ++ .nested y :: rest)
      (reached : (runFrom options past s inputs).result = .ok (below ++ arguments))
      (taken : arguments.length = y.inputs.length)
      (inner : Meets options y (runFrom options past s inputs).signal arguments m) :
      Meets options x s inputs m

/-! ### Where a run stops -/

/-- The run stops with the error, once the elements listed have been executed: those of all nodes
before the point, then those of the node at the point as far as it was run. -/
inductive Expression.StopsAt (options : ExecutionOptions) :
    Expression τ ν ε → Signal → List ν → List (Element τ ν ε) → ExecutionError ε → Prop
  | inputs {x : Expression τ ν ε} {s : Signal} {inputs : List ν} {filled : Stack ν}
      {overflow : Overflow}
      (full : (Stack.empty options.maxStackSize).extend inputs = (filled, some overflow)) :
      StopsAt options x s inputs [] (.stackOverflow overflow.size overflow.max)
  | underflow {x : Expression τ ν ε} {s : Signal} {inputs : List ν} {past rest : List (Node τ ν ε)}
      {n : Node τ ν ε} {held : List ν} (split : x.program = past ++ n :: rest)
      (reached : (runFrom options past s inputs).result = .ok held)
      (lacking : held.length < n.inputs.length) :
      StopsAt options x s inputs (leavesOf past)
        (.stackUnderflow n.symbol n.inputs.length held.length)
  | element {x : Expression τ ν ε} {s : Signal} {inputs : List ν} {past rest : List (Node τ ν ε)}
      {e : Element τ ν ε} {below arguments : List ν} {error : ε}
      (split : x.program = past ++ .element e :: rest)
      (reached : (runFrom options past s inputs).result = .ok (below ++ arguments))
      (taken : arguments.length = e.inputs.length)
      (failed : (e.execute (runFrom options past s inputs).signal arguments).result = .error error) :
      StopsAt options x s inputs (leavesOf past ++ [e]) (.element error)
  | nested {x y : Expression τ ν ε} {s : Signal} {inputs : List ν} {past rest : List (Node τ ν ε)}
      {below arguments : List ν} {es : List (Element τ ν ε)} {error : ExecutionError ε}
      (split : x.program = past ++ .nested y :: rest)
      (reached : (runFrom options past s inputs).result = .ok (below ++ arguments))
      (taken : arguments.length = y.inputs.length)
      (inner : StopsAt options y (runFrom options past s inputs).signal arguments es error) :
      StopsAt options x s inputs (leavesOf past ++ es) error
  | outputs {x : Expression τ ν ε} {s : Signal} {inputs : List ν} {past rest : List (Node τ ν ε)}
      {n : Node τ ν ε} {below arguments produced : List ν} {filled : Stack ν} {overflow : Overflow}
      (split : x.program = past ++ n :: rest)
      (reached : (runFrom options past s inputs).result = .ok (below ++ arguments))
      (taken : arguments.length = n.inputs.length)
      (given : (n.run options (runFrom options past s inputs).signal arguments).result = .ok produced)
      (full : (⟨options.maxStackSize, below⟩ : Stack ν).extend produced = (filled, some overflow)) :
      StopsAt options x s inputs (leavesOf past ++ n.leaves)
        (.stackOverflow overflow.size overflow.max)

end ExpressionEngine
