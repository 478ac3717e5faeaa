import Chip8.Fault

/-!
Outcomes: what an operation leaves behind, whether it went well or not.

An operation that can stop halfway gives a state in both cases, so that what a fault leaves behind
is part of its meaning and can be stated.
-/

namespace Chip8

/-- What an operation leaves behind: the state after it, and the fault that stopped it, if one
did. -/
structure Outcome (State : Type) where
  state : State
  fault : Option Fault
  deriving Repr

namespace Outcome

variable {State : Type}

def done (state : State) : Outcome State :=
  ⟨state, none⟩

/-- A fault came up, with this state left. -/
def stopped (state : State) (fault : Fault) : Outcome State :=
  ⟨state, some fault⟩

/-- An attempt that gives a new state or else leaves the old one. -/
def ofExcept (before : State) : Except Fault State → Outcome State
  | .ok after => done after
  | .error fault => stopped before fault

@[simp] theorem ofExcept_ok (before after : State) :
    ofExcept before (.ok after) = done after :=
  rfl

@[simp] theorem ofExcept_error (before : State) (fault : Fault) :
    ofExcept before (.error fault) = stopped before fault :=
  rfl

end Outcome

end Chip8
