import Chip8.Proofs.Executions
import Chip8.Proofs.Faults
import Chip8.Proofs.KeyWait

/-!
Steps and timer ticks in any order.

Only three kinds of instruction use the timers.  Any other one goes through whatever the timers
stand at, so that a tick may as well come before the step as after it.  In a history without those
three all the ticks can be brought to the front, and two histories that differ only in where the
ticks come do the same.
-/

namespace Chip8

/-- The instruction reads or writes one of the timers. -/
def Instruction.usesTimers : Instruction → Bool
  | readDelay _ => true
  | setDelay _ => true
  | setSound _ => true
  | _ => false

/-- What a step shows of itself: the instruction that it executed, the fault that stopped it, and
whether the session waits for a key afterwards. -/
structure StepReport where
  executed : Option Instruction
  fault : Option Fault
  activity : Activity
  deriving DecidableEq, Repr

namespace Machine

def withTimers (m : Machine) (delayTimer soundTimer : UInt8) : Machine :=
  { m with delayTimer, soundTimer }

theorem holds_withTimers (m : Machine) (delayTimer soundTimer : UInt8) (condition : Condition) :
    condition.holds (m.withTimers delayTimer soundTimer) = condition.holds m := by
  cases condition with
  | _ => rfl

/-- An instruction that does not use the timers goes through whatever they stand at. -/
theorem execute_withTimers (m : Machine) (delayTimer soundTimer : UInt8) {dialect : Dialect}
    {randomByte : UInt8} {instruction : Instruction} (huntimed : instruction.usesTimers = false) :
    (m.withTimers delayTimer soundTimer).execute dialect randomByte instruction =
      (m.execute dialect randomByte instruction).map (·.withTimers delayTimer soundTimer) := by
  cases instruction with
  | readDelay x | setDelay x | setSound x => cases huntimed
  | ret =>
      simp only [execute, pop, withTimers]
      cases m.calls.pop with
      | ok popped => rfl
      | error fault => rfl
  | call address =>
      simp only [execute, push, withTimers]
      cases m.calls.push (m.counter + instructionSize) with
      | ok calls => rfl
      | error fault => rfl
  | skipIf condition =>
      rw [execute, execute, holds_withTimers]
      cases condition.holds m with
      | true => rfl
      | false => rfl
  | draw x y height =>
      simp only [execute, drawFromIndex, withTimers]
      cases m.memory.load m.index height.toNat with
      | ok sprite => rfl
      | error fault => rfl
  | decimal x =>
      simp only [execute, store, withTimers]
      cases m.memory.store m.index (decimalDigits (m.registers.get x)) with
      | ok memory => rfl
      | error fault => rfl
  | dump x =>
      rw [execute, execute, dump, dump]
      split
      · simp only [store, withTimers]
        cases m.memory.store m.index (m.registers.first (x.toNat + 1)) with
        | ok memory =>
            simp only [Except.map, passBlock]
            split
            · rfl
            · rfl
        | error fault => rfl
      · rfl
  | restore x =>
      simp only [execute, restore, withTimers]
      cases m.memory.load m.index (x.toNat + 1) with
      | ok values =>
          simp only [Except.map, passBlock]
          split
          · rfl
          · rfl
      | error fault => rfl
  | _ => rfl

/-- An instruction that does not use the timers leaves them alone. -/
theorem timers_of_execute {m after : Machine} {dialect : Dialect} {randomByte : UInt8}
    {instruction : Instruction} (huntimed : instruction.usesTimers = false)
    (hexecute : m.execute dialect randomByte instruction = .ok after) :
    after.delayTimer = m.delayTimer ∧ after.soundTimer = m.soundTimer := by
  have hchanges := changesOnly_of_execute hexecute
  cases instruction with
  | readDelay x | setDelay x | setSound x => cases huntimed
  | _ => exact ⟨hchanges.delayTimer rfl, hchanges.soundTimer rfl⟩

end Machine

namespace Session

/-- The session after a number of timer ticks and nothing else. -/
def countedDown (s : Session) (count : Nat) : Session :=
  { s with
    machine := s.machine.withTimers (Machine.ticked s.machine.delayTimer count)
      (Machine.ticked s.machine.soundTimer count) }

/-- What a step shows of itself. -/
def stepReport (s : Session) : StepReport :=
  ⟨s.executed?, s.step.fault, s.step.state.activity⟩

/-- What the steps of a history show of themselves, one after another. -/
def stepReports (s : Session) : List Operation → List StepReport
  | [] => []
  | .step :: rest => s.stepReport :: s.step.state.stepReports rest
  | operation :: rest => (s.apply operation).2.stepReports rest

/-- Nothing that a history executes uses the timers. -/
def Untimed (s : Session) (history : List Operation) : Prop :=
  ∀ execution ∈ s.executions history, execution.instruction.usesTimers = false

variable {s : Session} {instruction : Instruction}

@[simp] theorem countedDown_zero (s : Session) : s.countedDown 0 = s := by
  simp [countedDown, Machine.withTimers]

theorem countedDown_countDown (s : Session) (count : Nat) :
    s.countDown.countedDown count = s.countedDown (count + 1) := by
  simp [countDown, Machine.countDown, countedDown, Machine.withTimers]

theorem showKeys_countedDown (s : Session) (count : Nat) (keypad : Keypad) :
    (s.countedDown count).showKeys keypad = (s.showKeys keypad).countedDown count := by
  obtain ⟨machine, dialect, random, activity, skipped⟩ := s
  cases activity with
  | running => rfl
  | awaitingKey register =>
      simp only [showKeys, countedDown, Machine.withTimers]
      cases machine.keypad.firstPressed? keypad with
      | none => rfl
      | some key => rfl

theorem fault_step_countedDown (s : Session) (count : Nat) :
    (s.countedDown count).step.fault = s.step.fault := by
  rw [fault_step, fault_step]
  rfl

theorem executed?_countedDown (s : Session) (count : Nat) :
    (s.countedDown count).executed? = s.executed? :=
  executed?_congr rfl rfl (s.fault_step_countedDown count)

theorem randomByteFor_countedDown (s : Session) (count : Nat) (instruction : Instruction) :
    (s.countedDown count).randomByteFor instruction = s.randomByteFor instruction := by
  cases instruction with
  | _ => rfl

theorem account_countedDown (s : Session) (count : Nat) (instruction : Instruction) :
    (s.countedDown count).account instruction = (s.account instruction).countedDown count := by
  cases instruction with
  | _ => rfl

/-- An instruction that does not use the timers may as well be executed after the ticks as before
them. -/
theorem execute_countedDown {after : Session} (count : Nat)
    (huntimed : instruction.usesTimers = false) (hexecute : s.execute instruction = .ok after) :
    (s.countedDown count).execute instruction = .ok (after.countedDown count) := by
  obtain ⟨machine, hmachine, rfl⟩ := exists_of_map_eq_ok hexecute
  obtain ⟨hdelay, hsound⟩ := Machine.timers_of_execute huntimed hmachine
  rw [execute, randomByteFor_countedDown, account_countedDown]
  change ((s.machine.withTimers _ _).execute s.dialect _ instruction).map _ = _
  rw [Machine.execute_withTimers _ _ _ huntimed, hmachine]
  simp only [Except.map, countedDown, hdelay, hsound]

theorem state_step_countedDown (count : Nat)
    (huntimed : ∀ instruction, s.executed? = some instruction → instruction.usesTimers = false) :
    (s.countedDown count).step.state = s.step.state.countedDown count := by
  apply state_step_of_change (·.countedDown count) (s.executed?_countedDown count)
  intro instruction after hexecuted hexecute
  exact execute_countedDown count (huntimed instruction hexecuted) hexecute

theorem untimed_step_iff {rest : List Operation} :
    s.Untimed (.step :: rest) ↔
      (∀ instruction, s.executed? = some instruction → instruction.usesTimers = false) ∧
        s.step.state.Untimed rest := by
  rw [Untimed, executions, List.forall_mem_append]
  exact and_congr_left' (forall_executionsOf_step (p := fun _ i => i.usesTimers = false))

/-- Two histories that begin with sessions of their own come to the same: both use the timers, or
neither does, their steps show the same and they end with the same session. -/
structure ComesToSame (s : Session) (history : List Operation) (t : Session)
    (others : List Operation) : Prop where
  untimed : s.Untimed history ↔ t.Untimed others
  reports : s.Untimed history → s.stepReports history = t.stepReports others
  run : s.Untimed history → s.run history = t.run others

theorem ComesToSame.step {history others : List Operation} {count : Nat}
    (hlater : s.step.state.ComesToSame history (s.step.state.countedDown count) others) :
    s.ComesToSame (.step :: history) (s.countedDown count) (.step :: others) := by
  have hexecuted := s.executed?_countedDown count
  by_cases huntimed : ∀ instruction, s.executed? = some instruction →
      instruction.usesTimers = false
  · have hstate := state_step_countedDown count huntimed
    refine ⟨?_, ?_, ?_⟩
    · rw [untimed_step_iff, untimed_step_iff, hexecuted, hstate]
      exact and_congr_right' hlater.untimed
    · intro hall
      have hreports := hlater.reports (untimed_step_iff.1 hall).2
      rw [stepReports, stepReports, stepReport, stepReport, hexecuted, fault_step_countedDown,
        hstate, hreports]
      rfl
    · intro hall
      have hrun := hlater.run (untimed_step_iff.1 hall).2
      rw [← hstate] at hrun
      exact hrun
  · -- The instruction of this step uses a timer, and it is the same in both histories.
    refine ⟨?_, ?_, ?_⟩
    · rw [untimed_step_iff, untimed_step_iff, hexecuted]
      simp only [huntimed, false_and]
    · intro hall
      exact (huntimed (untimed_step_iff.1 hall).1).elim
    · intro hall
      exact (huntimed (untimed_step_iff.1 hall).1).elim

/-- All the ticks of a history can be brought to its front. -/
theorem comesToSame_filter {history : List Operation}
    (hpassing : ∀ operation ∈ history, operation.Passing) :
    s.ComesToSame history (s.countedDown (history.count .countDown))
      (history.filter (· ≠ .countDown)) := by
  induction history generalizing s with
  | nil =>
      rw [List.count_nil, countedDown_zero]
      exact ⟨Iff.rfl, fun _ => rfl, fun _ => rfl⟩
  | cons operation rest ih =>
      obtain ⟨hfirst, hlater⟩ := List.forall_mem_cons.1 hpassing
      cases operation with
      | step =>
          rw [List.count_cons_of_ne (by simp), List.filter_cons_of_pos (by simp)]
          exact (ih hlater).step
      | showKeys keypad =>
          rw [List.count_cons_of_ne (by simp), List.filter_cons_of_pos (by simp)]
          have hnext := ih (s := s.showKeys keypad) hlater
          rw [← showKeys_countedDown] at hnext
          exact ⟨hnext.untimed, hnext.reports, hnext.run⟩
      | countDown =>
          rw [List.count_cons_self, List.filter_cons_of_neg (by simp), ← countedDown_countDown]
          have hnext := ih (s := s.countDown) hlater
          exact ⟨hnext.untimed, hnext.reports, hnext.run⟩
      | _ => exact hfirst.elim

/-- Where the timer ticks come among the steps and the looks at the keypad does not matter to a
history that executes nothing about the timers: the steps execute the same instructions, fail and
wait alike, and the history ends with the same session. -/
theorem run_of_interleaving (s : Session) (history other : List Operation)
    (hpassing : ∀ operation ∈ history ++ other, operation.Passing)
    (hothers : other.filter (· ≠ .countDown) = history.filter (· ≠ .countDown))
    (hticks : other.count .countDown = history.count .countDown)
    (huntimed : ∀ execution ∈ s.executions history, execution.instruction.usesTimers = false) :
    s.stepReports other = s.stepReports history ∧ s.run other = s.run history := by
  obtain ⟨hfirst, hsecond⟩ := List.forall_mem_append.1 hpassing
  have hhistory := s.comesToSame_filter hfirst
  have hother := s.comesToSame_filter hsecond
  rw [hothers, hticks] at hother
  have huntimed' : s.Untimed other := hother.untimed.2 (hhistory.untimed.1 huntimed)
  constructor
  · rw [hother.reports huntimed', hhistory.reports huntimed]
  · rw [hother.run huntimed', hhistory.run huntimed]

/-- A program that waits for a key and then returns from no call. -/
def waitingProgram : List UInt8 :=
  [0xF3, 0x0A, 0x00, 0xEE]

theorem run_of_interleaving_wait :
    let booted := (plain.boot waitingProgram).state
    let s := { booted with machine := booted.machine.withTimers 5 1 }
    let history := [Operation.step, .countDown, .step, .showKeys (.single 0x7), .step, .countDown]
    let other := [Operation.countDown, .step, .step, .countDown, .showKeys (.single 0x7), .step]
    (∀ operation ∈ history ++ other, operation.Passing) ∧
      other.filter (· ≠ .countDown) = history.filter (· ≠ .countDown) ∧
      other.count .countDown = history.count .countDown ∧
      (∀ execution ∈ s.executions history, execution.instruction.usesTimers = false) ∧
      s.stepReports history =
        [⟨some (.awaitKey 3), none, .awaitingKey 3⟩, ⟨none, none, .awaitingKey 3⟩,
          ⟨none, some .stackUnderflow, .running⟩] ∧
      s.stepReports other = s.stepReports history ∧ s.run other = s.run history := by
  intro booted s history other
  have hpassing : ∀ operation ∈ history ++ other, operation.Passing := by decide
  have hothers : other.filter (· ≠ .countDown) = history.filter (· ≠ .countDown) := by decide
  obtain ⟨huntimed, hreports⟩ :
      (∀ execution ∈ s.executions history, execution.instruction.usesTimers = false) ∧
      s.stepReports history =
        [⟨some (.awaitKey 3), none, .awaitingKey 3⟩, ⟨none, none, .awaitingKey 3⟩,
          ⟨none, some .stackUnderflow, .running⟩] := by
    decide +kernel
  exact ⟨hpassing, hothers, rfl, huntimed, hreports,
    run_of_interleaving s history other hpassing hothers rfl huntimed⟩

end Session

end Chip8
