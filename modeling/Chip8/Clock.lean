/-!
Two periodic deadlines on one time line, one for instructions and one for the timers.

Time is counted in whole nanoseconds from the start.  Instruction ticks fall due at the multiples
of the instruction period from zero on, timer ticks at the multiples of the timer period from the
first on.  `next?` hands out the ticks in the order in which they fall due, the timer tick first
when both fall due at once; a reading that comes late finds every tick it missed.
-/

namespace Chip8

inductive Tick
  | instruction
  | timer
  deriving DecidableEq, Repr

/-- The period of the instructions and the deadlines of the next two ticks. -/
structure Clock where
  period : Nat
  period_pos : 0 < period
  nextInstruction : Nat
  nextTimer : Nat
  deriving DecidableEq, Repr

namespace Clock

def second : Nat := 1000000000

/-- The timer ticks of a second. -/
def timerRate : Nat := 60

/-- The instruction ticks of a second where no rate is chosen. -/
def standardRate : Nat := 700

/-- The time between two timer ticks, rounded down. -/
def timerPeriod : Nat := second / timerRate

/-- The time between two instruction ticks at a rate per second, rounded down.  A rate of zero
counts as one, and the period is never shorter than a nanosecond. -/
def periodOfRate (rate : Nat) : Nat :=
  max 1 (second / max 1 rate)

def ofRate (rate : Nat) : Clock where
  period := periodOfRate rate
  period_pos := Nat.le_max_left 1 _
  nextInstruction := 0
  nextTimer := timerPeriod

def passInstruction (c : Clock) : Clock :=
  { c with nextInstruction := c.nextInstruction + c.period }

def passTimer (c : Clock) : Clock :=
  { c with nextTimer := c.nextTimer + timerPeriod }

def pass (c : Clock) : Tick → Clock
  | .instruction => c.passInstruction
  | .timer => c.passTimer

def passAll (c : Clock) (ticks : List Tick) : Clock :=
  ticks.foldl pass c

/-- The earliest tick due at or before `now`, and the clock after it. -/
def next? (c : Clock) (now : Nat) : Option (Tick × Clock) :=
  if c.nextTimer ≤ c.nextInstruction ∧ c.nextTimer ≤ now then
    some (.timer, c.passTimer)
  else if c.nextInstruction ≤ now then
    some (.instruction, c.passInstruction)
  else
    none

def deadline (c : Clock) : Nat :=
  min c.nextInstruction c.nextTimer

/-- The number of times that a deadline at `next` falls due up to `now` when it moves on by
`period` each time. -/
def dueCount (next period now : Nat) : Nat :=
  if next ≤ now then (now - next) / period + 1 else 0

/-- The number of ticks due at or before `now`. -/
def pending (c : Clock) (now : Nat) : Nat :=
  dueCount c.nextInstruction c.period now + dueCount c.nextTimer timerPeriod now

/-- Take ticks until none is due at or before `now`, or `limit` of them are taken. -/
def take (c : Clock) (now : Nat) : Nat → List Tick × Clock
  | 0 => ([], c)
  | limit + 1 =>
      match c.next? now with
      | none => ([], c)
      | some (tick, after) =>
          let (ticks, last) := after.take now limit
          (tick :: ticks, last)

/-- Take every tick due at or before `now`. -/
def drain (c : Clock) (now : Nat) : List Tick × Clock :=
  c.take now (c.pending now)

theorem dueCount_advance {next period now : Nat} (hperiod : 0 < period) (h : next ≤ now) :
    dueCount next period now = dueCount (next + period) period now + 1 := by
  unfold dueCount
  rw [if_pos h]
  split
  · rename_i hnext
    have hsplit : now - next = now - (next + period) + period := by omega
    rw [hsplit, Nat.add_div_right _ hperiod]
  · rename_i hnext
    rw [Nat.div_eq_of_lt (by omega)]

theorem timerPeriod_pos : 0 < timerPeriod := by
  decide

/-- Each tick handed out is one that was pending. -/
theorem pending_of_next? {c after : Clock} {now : Nat} {tick : Tick}
    (h : c.next? now = some (tick, after)) : c.pending now = after.pending now + 1 := by
  rw [next?] at h
  split at h
  · rename_i htimer
    cases h
    have := dueCount_advance timerPeriod_pos htimer.2
    simp only [pending, passTimer]
    omega
  · split at h
    · rename_i hinstruction
      cases h
      have := dueCount_advance c.period_pos hinstruction
      simp only [pending, passInstruction]
      omega
    · cases h

/-- No tick is due exactly when none is pending. -/
theorem next?_eq_none_iff (c : Clock) (now : Nat) :
    c.next? now = none ↔ c.pending now = 0 := by
  unfold next? pending dueCount
  split
  · simp
    omega
  · split
    · simp
    · simp
      omega

/-- No tick is due exactly before the deadline. -/
theorem next?_eq_none_iff_lt (c : Clock) (now : Nat) :
    c.next? now = none ↔ now < c.deadline := by
  unfold next? deadline
  split
  · simp
    omega
  · split
    · simp
      omega
    · simp
      omega

end Clock

end Chip8
