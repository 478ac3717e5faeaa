import Chip8.Clock

/-!
The timetable of a clock, written down in full: which ticks fall due up to a time, and when.

Instruction ticks stand at `0, p, 2p, …` for the instruction period `p`, timer ticks at
`q, 2q, …` for the timer period `q`.  The timetable merges the two by time and lists a timer tick
before an instruction tick of the same time.
-/

namespace Chip8

/-- A tick and the time at which it falls due. -/
structure Timed where
  time : Nat
  tick : Tick
  deriving DecidableEq, Repr

namespace Schedule

/-- An entry stands in the timetable of an instruction period. -/
def Lists (period : Nat) : Timed → Prop
  | ⟨time, .instruction⟩ => ∃ k, time = k * period
  | ⟨time, .timer⟩ => ∃ j, 0 < j ∧ time = j * Clock.timerPeriod

/-- One entry falls due before another: earlier, or as a timer tick at the time of an instruction
tick. -/
def Before (a b : Timed) : Prop :=
  a.time < b.time ∨ a.time = b.time ∧ a.tick = .timer ∧ b.tick = .instruction

def instructions (period count : Nat) : List Timed :=
  (List.range count).map fun k => ⟨k * period, .instruction⟩

def timers (count : Nat) : List Timed :=
  (List.range count).map fun k => ⟨(k + 1) * Clock.timerPeriod, .timer⟩

def notLater (a b : Timed) : Bool :=
  decide (a.time ≤ b.time)

/-- The ticks up to a time, in the order in which they fall due. -/
def upTo (period now : Nat) : List Timed :=
  (timers (now / Clock.timerPeriod)).merge (instructions period (now / period + 1)) notLater

/-- The ticks that readings of the time have seen fall due, which are those up to the latest of
them. -/
def seen (period : Nat) (readings : List Nat) : List Timed :=
  match readings.max? with
  | some latest => upTo period latest
  | none => []

theorem length_upTo (period now : Nat) :
    (upTo period now).length = now / Clock.timerPeriod + (now / period + 1) := by
  simp [upTo, timers, instructions, List.length_merge]

end Schedule

end Chip8
