import Chip8.Headless
import Chip8.Proofs.Halt

/-!
A program that ends by a fault ends the same way however its run was timed.

In real time a console is given whatever readings the clock on the wall shows, for as long as the
caller wants to go on.  Which ticks that makes due depends on the readings, but of two runs one has
only seen more of the timetable than the other, and a program sees no more of time than the timer
ticks of that timetable.  So both meet the same fault at the same tick, and the ticks that one of
them had beyond it touched nothing but the timers and the mark of a changed screen.
-/

namespace Chip8

namespace Session

/-- Two sessions that differ at most in their timers and in whether their screen was handed out. -/
structure EqualBeyondTimers (s t : Session) : Prop where
  memory : s.machine.memory = t.machine.memory
  registers : s.machine.registers = t.machine.registers
  index : s.machine.index = t.machine.index
  counter : s.machine.counter = t.machine.counter
  calls : s.machine.calls = t.machine.calls
  screen : s.machine.screen = t.machine.screen
  keypad : s.machine.keypad = t.machine.keypad
  dialect : s.dialect = t.dialect
  random : s.random = t.random
  activity : s.activity = t.activity
  skipped : s.skipped = t.skipped

theorem EqualBeyondTimers.symm {s t : Session} (hequal : s.EqualBeyondTimers t) :
    t.EqualBeyondTimers s :=
  ⟨hequal.memory.symm, hequal.registers.symm, hequal.index.symm, hequal.counter.symm,
    hequal.calls.symm, hequal.screen.symm, hequal.keypad.symm, hequal.dialect.symm,
    hequal.random.symm, hequal.activity.symm, hequal.skipped.symm⟩

theorem equalBeyondTimers_afterTimerTicks (s : Session) (count : Nat) :
    s.EqualBeyondTimers (s.afterTimerTicks count) :=
  ⟨rfl, rfl, rfl, rfl, rfl, rfl, rfl, rfl, rfl, rfl, rfl⟩

end Session

namespace Console

/-- A run in real time.  Each round is a reading of the time, taken because the caller wants to go
on, or `none` where the caller wants to stop.  The run also stops at the first fault. -/
def playWhile (c : Console) : List (Option Nat) → Outcome Console
  | [] => .done c
  | none :: _ => .done c
  | some now :: later =>
      match c.catchUp now with
      | ⟨after, none⟩ => after.playWhile later
      | ⟨after, some fault⟩ => .stopped after fault

/-- The readings of the rounds before the caller wants to stop. -/
def readingsOf : List (Option Nat) → List Nat
  | [] => []
  | none :: _ => []
  | some now :: later => now :: readingsOf later

theorem playWhile_eq_play (c : Console) (rounds : List (Option Nat)) :
    c.playWhile rounds = c.play (readingsOf rounds) := by
  induction rounds generalizing c with
  | nil => rfl
  | cons round later ih =>
      cases round with
      | none => rfl
      | some now =>
          rw [playWhile, readingsOf, play]
          cases hcatch : c.catchUp now with
          | mk after fault =>
              cases fault with
              | none => exact ih after
              | some fault => rfl

/-- A run with exact readings is a run in real time. -/
theorem exists_playExactly_eq_playWhile (limit : Option Nat) (readings : Nat) (c : Console)
    (now : Nat) :
    ∃ rounds, Headless.playExactly limit readings c now = c.playWhile rounds := by
  induction readings generalizing c now with
  | zero => exact ⟨[], rfl⟩
  | succ readings ih =>
      rw [Headless.playExactly]
      split
      · cases hcatch : c.catchUp now with
        | mk after fault =>
            cases fault with
            | none =>
                obtain ⟨rounds, hrounds⟩ := ih after after.clock.deadline
                refine ⟨some now :: rounds, ?_⟩
                rw [playWhile, hcatch]
                exact hrounds
            | some fault =>
                refine ⟨[some now], ?_⟩
                rw [playWhile, hcatch]
      · exact ⟨[], rfl⟩

variable {c : Console} {fault other : Fault}

/-- A run that ends with a fault ends where its readings so far have taken it. -/
theorem play_of_fault {readings : List Nat} (hfault : (c.play readings).fault = some fault) :
    ∃ past, c.play readings = .stopped (c.catchUpAll past) fault ∧
      (c.catchUpAll past).halted = some fault := by
  induction readings generalizing c with
  | nil => cases hfault
  | cons now later ih =>
      have hhalted : (c.catchUp now).state.halted = (c.catchUp now).fault := rfl
      rw [play] at hfault ⊢
      split at hfault
      · rename_i after hcatch
        obtain ⟨past, hstopped, hpast⟩ := ih hfault
        refine ⟨now :: past, ?_, ?_⟩
        · rw [hstopped, catchUpAll_cons, hcatch]
        · rw [catchUpAll_cons, hcatch]
          exact hpast
      · rename_i after first hcatch
        cases hfault
        rw [hcatch] at hhalted
        refine ⟨[now], ?_, ?_⟩
        · rw [catchUpAll_cons, hcatch]
          rfl
        · rw [catchUpAll_cons, hcatch]
          exact hhalted

/-- Where the fewer ticks have met a fault, the more have met the same one, and they have left the
same session but for its timers. -/
theorem equalBeyondTimers_of_prefix {ticks more : List Tick} (hbegins : ticks <+: more)
    (hhalted : (c.tickAll ticks).halted = some fault) :
    (c.tickAll more).halted = some fault ∧
      (c.tickAll ticks).session.EqualBeyondTimers (c.tickAll more).session := by
  obtain ⟨passed, rfl⟩ := hbegins
  rw [tickAll_append]
  refine ⟨halted_tickAll hhalted passed, ?_⟩
  rw [session_tickAll_of_halted hhalted]
  exact Session.equalBeyondTimers_afterTimerTicks _ _

/-- Whatever readings two new consoles have caught up with, if both are halted, then by the same
fault and with the same session but for its timers. -/
theorem equalBeyondTimers_of_halted {session : Session} {script : KeyScript} {rate : Nat}
    {readings others : List Nat}
    (hhalted : ((Console.new session script rate).catchUpAll readings).halted = some fault)
    (hother : ((Console.new session script rate).catchUpAll others).halted = some other) :
    fault = other ∧
      ((Console.new session script rate).catchUpAll readings).session.EqualBeyondTimers
        ((Console.new session script rate).catchUpAll others).session := by
  rw [catchUpAll_new] at hhalted hother ⊢
  rw [catchUpAll_new]
  rcases Schedule.ticks_prefix_total rate readings others with hbegins | hbegins
  · -- The others have seen more of the timetable, and so the tick that failed as well.
    obtain ⟨hsame, hequal⟩ := equalBeyondTimers_of_prefix hbegins hhalted
    exact ⟨Option.some.inj (hsame.symm.trans hother), hequal⟩
  · obtain ⟨hsame, hequal⟩ := equalBeyondTimers_of_prefix hbegins hother
    exact ⟨Option.some.inj (hhalted.symm.trans hsame), hequal.symm⟩

/-- Two runs in real time that both end with a fault end with the same one, and with the same
session but for its timers. -/
theorem equalBeyondTimers_of_fault {session : Session} {script : KeyScript} {rate : Nat}
    {rounds otherRounds : List (Option Nat)}
    (hfault : ((Console.new session script rate).playWhile rounds).fault = some fault)
    (hother : ((Console.new session script rate).playWhile otherRounds).fault = some other) :
    fault = other ∧
      ((Console.new session script rate).playWhile rounds).state.session.EqualBeyondTimers
        ((Console.new session script rate).playWhile otherRounds).state.session := by
  rw [playWhile_eq_play] at hfault hother ⊢
  rw [playWhile_eq_play]
  obtain ⟨past, hended, hhalted⟩ := play_of_fault hfault
  obtain ⟨otherPast, hotherEnded, hotherHalted⟩ := play_of_fault hother
  rw [hended, hotherEnded]
  exact equalBeyondTimers_of_halted hhalted hotherHalted

/-- A program that can be read and fits into memory runs on a new console without keys. -/
theorem start_eq_ok_iff {options : Options} {program : Except String (List UInt8)}
    {fresh : UInt64} :
    Headless.start options program fresh = .ok c ↔
      ∃ bytes, program = .ok bytes ∧
        let booted := (Session.new options.dialect (options.randomBytes fresh)).boot bytes
        booted.fault = none ∧ c = .new booted.state .silent options.instructionRate := by
  unfold Headless.start
  cases program with
  | error cause => simp
  | ok bytes =>
      rcases hboot : (Session.new options.dialect (options.randomBytes fresh)).boot bytes with
        ⟨session, fault⟩
      cases fault with
      | none => simp [hboot, eq_comm]
      | some fault => simp [hboot]

/-- The runs of a new console in real time may differ as they like in their readings and in what the
caller wants.  If two of them end with a fault, it is the same fault, and they leave the same
session but for its timers and the mark of a changed screen.  So what is reported of a program that
ends by a fault does not depend on how its run was timed, and it is what a run with exact readings
reports. -/
theorem fault_of_playWhile_unique :
    (∀ (session : Session) (script : KeyScript) (rate : Nat)
        (rounds otherRounds : List (Option Nat)) (fault other : Fault),
      let start := Console.new session script rate
      let ended := start.playWhile rounds
      let otherEnded := start.playWhile otherRounds
      ended.fault = some fault → otherEnded.fault = some other →
        fault = other ∧ ended.state.session.EqualBeyondTimers otherEnded.state.session) ∧
    (∀ (options : Options) (program : Except String (List UInt8)) (fresh : UInt64)
        (start : Console) (rounds otherRounds : List (Option Nat)),
      let ended := start.playWhile rounds
      let otherEnded := start.playWhile otherRounds
      Headless.start options program fresh = .ok start →
      ended.fault.isSome → otherEnded.fault.isSome →
        Headless.Report.ofOutcome ended = Headless.Report.ofOutcome otherEnded) ∧
    ∀ (limit : Option Nat) (readings : Nat) (start : Console) (now : Nat),
      ∃ rounds, Headless.playExactly limit readings start now = start.playWhile rounds := by
  refine ⟨?_, ?_, exists_playExactly_eq_playWhile⟩
  · intro session script rate rounds otherRounds fault other start ended otherEnded hfault hother
    exact equalBeyondTimers_of_fault hfault hother
  · intro options program fresh start rounds otherRounds ended otherEnded hstart hfault hother
    obtain ⟨bytes, -, -, rfl⟩ := start_eq_ok_iff.1 hstart
    obtain ⟨fault, hfault⟩ := Option.isSome_iff_exists.1 hfault
    obtain ⟨other, hother⟩ := Option.isSome_iff_exists.1 hother
    obtain ⟨rfl, hequal⟩ := equalBeyondTimers_of_fault hfault hother
    rw [Headless.Report.ofOutcome, Headless.Report.ofOutcome, hfault, hother, hequal.screen]

/-- A program that sets the delay timer to two, reads it until it stands at zero and returns from no
call. -/
def pollingProgram : List UInt8 :=
  [0x60, 0x02, 0xF0, 0x15, 0xF1, 0x07, 0x31, 0x00, 0x12, 0x04, 0x00, 0xEE]

/-- The options of a run with a hundred and twenty instructions per second. -/
def slowOptions : Options where
  rate := 120
  shiftVx := false
  keepIndex := false
  indexOverflow := false
  seed := some 0
  duration := none
  verbosity := 0
  input := "polling"

/-- The session that those options give the program. -/
def pollingSession : Session :=
  ((Session.new slowOptions.dialect (slowOptions.randomBytes 0)).boot pollingProgram).state

/-- One run looks at the time once, late; the other looks often, and once it finds an earlier time
than before. -/
theorem fault_of_playWhile_unique_polling :
    let start := Console.new pollingSession .silent slowOptions.instructionRate
    let ended := start.playWhile [some 200000000]
    let otherEnded :=
      start.playWhile [some 30000000, some 10000000, some 50000000, some 70000000, none]
    Headless.start slowOptions (.ok pollingProgram) 0 = .ok start ∧
      ended.fault = some .stackUnderflow ∧ otherEnded.fault = some .stackUnderflow ∧
      ended.state.session.EqualBeyondTimers otherEnded.state.session ∧
      Headless.Report.ofOutcome ended = Headless.Report.ofOutcome otherEnded := by
  have hstart : Headless.start slowOptions (.ok pollingProgram) 0 =
      .ok (Console.new pollingSession .silent slowOptions.instructionRate) :=
    start_eq_ok_iff.2 ⟨pollingProgram, rfl, by decide +kernel, rfl⟩
  have hended : ((Console.new pollingSession .silent slowOptions.instructionRate).playWhile
      [some 200000000]).fault = some .stackUnderflow := by
    decide +kernel
  have hother : ((Console.new pollingSession .silent slowOptions.instructionRate).playWhile
      [some 30000000, some 10000000, some 50000000, some 70000000, none]).fault =
        some .stackUnderflow := by
    decide +kernel
  obtain ⟨hunique, hreport, -⟩ := fault_of_playWhile_unique
  obtain ⟨-, hequal⟩ :=
    hunique pollingSession .silent slowOptions.instructionRate _ _ _ _ hended hother
  have hsame := hreport slowOptions (.ok pollingProgram) 0 _ _ _ hstart
    (Option.isSome_of_eq_some hended) (Option.isSome_of_eq_some hother)
  exact ⟨hstart, hended, hother, hequal, hsame⟩

end Console

end Chip8
