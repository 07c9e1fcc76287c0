import ExpressionEngine.Context.Family
import ExpressionEngine.Machine.Execution

/-! Runs under a context: the run is handed the context's signal, and a cancellation made during
the run reaches the context's whole family. And histories: what was done with contexts, one event after
another, while the clock goes on. Contexts are known by the order in which they were made; an event that
refers to none changes nothing. -/

namespace ExpressionEngine

variable {τ ν ε : Type}

namespace Contexts

def run (cs : Contexts) (c : Context) (options : ExecutionOptions) (x : Expression τ ν ε)
    (inputs : List ν) : Except (ExecutionError ε) (List ν) × Contexts :=
  let r := x.run options (cs.signal c) inputs
  (r.result, cs.settle c r.signal)

def runSingle (cs : Contexts) (c : Context) (options : ExecutionOptions) (x : Expression τ ν ε)
    (inputs : List ν) : Except (ExecutionError ε) ν × Contexts :=
  let r := x.runSingle options (cs.signal c) inputs
  (r.result, cs.settle c r.signal)

end Contexts

/-! ### Histories -/

namespace History

inductive Event (τ ν ε : Type) where
  | background
  | withDeadline (deadline : Instant)
  | withTimeout (timeout : Nat)
  | copy (source : Nat)
  | cancel (target : Nat)
  | run (target : Nat) (options : ExecutionOptions) (x : Expression τ ν ε) (inputs : List ν)
  | elapse (time : Nat)

/-- The contexts made so far, in order, and what is known of their families. -/
structure State where
  contexts : List Context := []
  families : Contexts := {}

namespace State

/-- Nothing was done yet. -/
def start (now : Instant) : State := { families := { now } }

/-- Keeps a context that was just made. -/
def keep (s : State) (made : Context × Contexts) : State := ⟨s.contexts ++ [made.1], made.2⟩

def step (s : State) : Event τ ν ε → State
  | .background => s.keep s.families.background
  | .withDeadline deadline => s.keep (s.families.withDeadline deadline)
  | .withTimeout timeout => s.keep (s.families.withTimeout timeout)
  | .copy source =>
    match s.contexts[source]? with
    | some c => s.keep (c, s.families)
    | none => s
  | .cancel target =>
    match s.contexts[target]? with
    | some c => { s with families := s.families.cancel c }
    | none => s
  | .run target options x inputs =>
    match s.contexts[target]? with
    | some c => { s with families := (s.families.run c options x inputs).2 }
    | none => s
  | .elapse time => { s with families := s.families.elapse time }

/-- The state after a whole history. -/
def replay (s : State) (events : List (Event τ ν ε)) : State := events.foldl step s

end State

end History

end ExpressionEngine
