import ExpressionEngine.Context.Signal

/-! Contexts. A context belongs to a family, and all of a family are cancelled together; a copy
belongs to the family of what it was copied from and keeps its deadline. The families, which of
them are cancelled and the clock are kept in one place. -/

namespace ExpressionEngine

/-- A handle to a family, with a deadline of its own. -/
structure Context where
  family : Nat
  deadline : Option Instant := none
  deriving DecidableEq

/-- All families made so far; the next one is numbered `made`. -/
structure Contexts where
  made : Nat := 0
  cancelled : List Nat := []
  now : Instant := 0

namespace Contexts

/-- A context of a new family. -/
def make (cs : Contexts) (deadline : Option Instant) : Context × Contexts :=
  (⟨cs.made, deadline⟩, { cs with made := cs.made + 1 })

/-- A context that has no deadline. -/
def background (cs : Contexts) : Context × Contexts := cs.make none

def withDeadline (cs : Contexts) (deadline : Instant) : Context × Contexts := cs.make (some deadline)

/-- A context whose deadline is the given time from now. -/
def withTimeout (cs : Contexts) (timeout : Nat) : Context × Contexts :=
  cs.withDeadline (cs.now + timeout)

/-- The clock goes on. -/
def elapse (cs : Contexts) (time : Nat) : Contexts := { cs with now := cs.now + time }

/-- Cancels the context and all of its family. -/
def cancel (cs : Contexts) (c : Context) : Contexts :=
  { cs with cancelled := cs.cancelled.insert c.family }

def isCancelled (cs : Contexts) (c : Context) : Bool := cs.cancelled.contains c.family

/-- What a run under the context is handed. -/
def signal (cs : Contexts) (c : Context) : Signal := ⟨cs.isCancelled c, c.deadline, cs.now⟩

/-- Takes over the cancellation that a run under the context left behind. -/
def settle (cs : Contexts) (c : Context) (s : Signal) : Contexts :=
  if s.cancelled then cs.cancel c else cs

theorem isCancelled_iff (cs : Contexts) (c : Context) :
    cs.isCancelled c = true ↔ c.family ∈ cs.cancelled := List.contains_iff_mem

theorem mem_cancelled_cancel {cs : Contexts} {c : Context} {f : Nat} :
    f ∈ (cs.cancel c).cancelled ↔ f = c.family ∨ f ∈ cs.cancelled := List.mem_insert_iff

/-- To cancel again changes nothing. -/
theorem cancel_of_isCancelled {cs : Contexts} {c : Context} (h : cs.isCancelled c = true) :
    cs.cancel c = cs := by
  rw [isCancelled_iff] at h
  simp [cancel, h]

theorem isCancelled_cancel (cs : Contexts) (c d : Context) :
    (cs.cancel c).isCancelled d = (decide (d.family = c.family) || cs.isCancelled d) := by
  simp [isCancelled, cancel, List.contains_eq_mem, List.mem_insert_iff]

/-- A context that may have been cancelled keeps its deadline, and the clock goes on as before. -/
theorem signal_ite_cancel (cs : Contexts) (c : Context) (asked : Bool) :
    (if asked then cs.cancel c else cs).signal c = (cs.signal c).cancelIf asked := by
  cases asked with
  | false => simp
  | true =>
    have hc : (cs.cancel c).isCancelled c = true := by simp [isCancelled_cancel]
    simp only [if_true, signal, hc, Signal.cancelIf, Bool.or_true]
    rfl

end Contexts

end ExpressionEngine
