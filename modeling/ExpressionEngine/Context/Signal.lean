/-! The signal that a caller hands through a run: whether the work was cancelled, when it has to be
done, and what the clock shows. The engine only passes it on; elements may read it. -/

namespace ExpressionEngine

/-- A point in time, counted from an arbitrary origin. -/
abbrev Instant := Nat

structure Signal where
  cancelled : Bool := false
  deadline : Option Instant := none
  now : Instant := 0
  deriving DecidableEq

namespace Signal

/-- The deadline, if there is one, has been reached. -/
def expired (s : Signal) : Bool := s.deadline.any (· ≤ s.now)

/-- Work on behalf of this signal should stop. -/
def done (s : Signal) : Bool := s.cancelled || s.expired

def cancel (s : Signal) : Signal := { s with cancelled := true }

/-- Cancels if asked to; nothing ever takes a cancellation back. -/
def cancelIf (s : Signal) (asked : Bool) : Signal := { s with cancelled := s.cancelled || asked }

@[simp] theorem cancelIf_false (s : Signal) : s.cancelIf false = s := by simp [cancelIf]

theorem cancelIf_true (s : Signal) : s.cancelIf true = s.cancel := by simp [cancelIf, cancel]

/-- Asked twice is asked once. -/
theorem cancelIf_cancelIf (s : Signal) (asked asked' : Bool) :
    (s.cancelIf asked).cancelIf asked' = s.cancelIf (asked || asked') := by
  simp [cancelIf, Bool.or_assoc]

@[simp] theorem cancelled_cancelIf (s : Signal) (asked : Bool) :
    (s.cancelIf asked).cancelled = (s.cancelled || asked) := rfl

@[simp] theorem deadline_cancelIf (s : Signal) (asked : Bool) :
    (s.cancelIf asked).deadline = s.deadline := rfl

@[simp] theorem now_cancelIf (s : Signal) (asked : Bool) : (s.cancelIf asked).now = s.now := rfl

end Signal

end ExpressionEngine
