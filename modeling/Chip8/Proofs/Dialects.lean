import Chip8.Proofs.Executions
import Chip8.Proofs.Faults

/-!
What a dialect decides.

Of the instructions that a session executes only a few are disputed between two dialects: a shift
of different registers, a block transfer, an addition to the index.  Any other one, and one that
fails, does the same in both.  So two sessions that differ in their dialects alone stay together up
to the first disputed instruction that they execute, and that one sets them apart only in the parts
that its dispute is about.
-/

namespace Chip8

/-- The operation moves one of its registers by a bit. -/
def AluOp.shifts : AluOp → Bool
  | shiftRight => true
  | shiftLeft => true
  | _ => false

namespace Instruction

/-- Two dialects have a machine do different things for the instruction. -/
def disputed (m : Machine) (first second : Dialect) : Instruction → Bool
  | alu operation x y =>
      operation.shifts && first.shiftsY != second.shiftsY &&
        m.registers.get x != m.registers.get y
  | addIndex _ => first.flagsIndex != second.flagsIndex
  | dump _ => first.advancesIndex != second.advancesIndex
  | restore _ => first.advancesIndex != second.advancesIndex
  | _ => false

/-- The parts of a session that a dispute about the instruction is about. -/
def disputedParts : Instruction → Footprint
  | alu _ x _ => { registers := [x, Registers.flag] }
  | addIndex _ => { registers := [Registers.flag] }
  | dump _ => { index := true }
  | restore _ => { index := true }
  | _ => {}

end Instruction

/-- Two sessions that differ at most in their dialects and in the parts of a footprint. -/
structure Session.AgreesBeyond (footprint : Footprint) (s t : Session) : Prop where
  machine : s.machine.ChangesOnly footprint t.machine
  counter : t.machine.counter = s.machine.counter
  random : t.random = s.random
  activity : t.activity = s.activity
  skipped : t.skipped = s.skipped

theorem Registers.combine_eq_of_shifted (r : Registers) {first second : Dialect}
    {operation : AluOp} {x y : UInt8}
    (hsame : operation.shifts = true →
      AluOp.shifted second (r.get x) (r.get y) = AluOp.shifted first (r.get x) (r.get y)) :
    r.combine second operation x y = r.combine first operation x y := by
  cases operation with
  | shiftRight | shiftLeft => simp only [combine, AluOp.result, AluOp.flag?, hsame rfl]
  | _ => rfl

namespace Machine

variable {m : Machine} {first second : Dialect} {randomByte : UInt8} {instruction : Instruction}

theorem passBlock_congr (m : Machine) (hsame : first.advancesIndex = second.advancesIndex)
    (length : Nat) : m.passBlock second length = m.passBlock first length := by
  rw [passBlock, passBlock, hsame]

/-- An instruction that is not disputed does the same in both dialects. -/
theorem execute_of_not_disputed (hagreed : instruction.disputed m first second = false) :
    m.execute second randomByte instruction = m.execute first randomByte instruction := by
  cases instruction with
  | alu operation x y =>
      have hsame : m.registers.combine second operation x y =
          m.registers.combine first operation x y := by
        apply Registers.combine_eq_of_shifted
        intro hshifts
        simp only [Instruction.disputed, hshifts, Bool.true_and, Bool.and_eq_false_iff,
          bne_eq_false_iff_eq] at hagreed
        rcases hagreed with hdialects | hregisters
        · rw [AluOp.shifted, AluOp.shifted, hdialects]
        · rw [AluOp.shifted, AluOp.shifted, hregisters, ite_self, ite_self]
      rw [execute, execute, hsame]
  | addIndex x =>
      have hflags : first.flagsIndex = second.flagsIndex := bne_eq_false_iff_eq.1 hagreed
      rw [execute, execute, addToIndex, addToIndex, hflags]
  | dump x =>
      have hadvances : first.advancesIndex = second.advancesIndex := bne_eq_false_iff_eq.1 hagreed
      rw [execute, execute, dump, dump]
      simp only [passBlock_congr _ hadvances]
  | restore x =>
      have hadvances : first.advancesIndex = second.advancesIndex := bne_eq_false_iff_eq.1 hagreed
      rw [execute, execute, restore, restore]
      simp only [passBlock_congr _ hadvances]
  | _ => rfl

theorem ChangesOnly.passBlock_of_index {footprint : Footprint} (m : Machine) (dialect : Dialect)
    (length : Nat) (hindex : footprint.index = true) :
    m.ChangesOnly footprint (m.passBlock dialect length) := by
  unfold Machine.passBlock
  split
  · exact .setIndex m _ hindex
  · exact .refl footprint m

/-- In whatever dialect a disputed instruction is executed, it leaves one and the same machine but
for what the dispute is about. -/
theorem exists_changesOnly_of_disputed (randomByte : UInt8)
    (hdisputed : instruction.disputed m first second = true) :
    ∃ base : Machine, ∀ dialect after, m.execute dialect randomByte instruction = .ok after →
      base.ChangesOnly instruction.disputedParts after := by
  cases instruction with
  | alu operation x y =>
      refine ⟨m, ?_⟩
      intro dialect after hexecute
      cases hexecute
      have hflags : operation.flags = true := by
        cases operation with
        | shiftRight | shiftLeft => rfl
        | _ => cases hdisputed
      have hcombine := m.changesOnly_combine dialect operation x y
      rw [Instruction.footprint, hflags, if_pos rfl] at hcombine
      exact hcombine.advance
  | addIndex x =>
      refine ⟨{ m with index := m.index + (m.registers.get x).toUInt16 }, ?_⟩
      intro dialect after hexecute
      cases hexecute
      refine ChangesOnly.advance (.setRegisters _ fun number hother => ?_)
      dsimp only
      split
      · exact Registers.get_set_of_not_named _ _ List.mem_cons_self hother
      · rfl
  | dump x =>
      cases hstore : m.store m.index (m.registers.first (x.toNat + 1)) with
      | ok stored =>
          refine ⟨stored, ?_⟩
          intro dialect after hexecute
          obtain ⟨dumped, hdump, rfl⟩ := exists_of_map_eq_ok hexecute
          rw [dump, hstore] at hdump
          split at hdump
          · cases hdump
            exact (ChangesOnly.passBlock_of_index stored dialect _ rfl).advance
          · cases hdump
      | error fault =>
          refine ⟨m, ?_⟩
          intro dialect after hexecute
          obtain ⟨dumped, hdump, rfl⟩ := exists_of_map_eq_ok hexecute
          rw [dump, hstore] at hdump
          split at hdump
          · cases hdump
          · cases hdump
  | restore x =>
      let values := (List.range' m.index.toNat (x.toNat + 1)).map m.memory.peek
      refine ⟨{ m with registers := m.registers.setAll 0 values }, ?_⟩
      intro dialect after hexecute
      obtain ⟨restored, hrestore, rfl⟩ := exists_of_map_eq_ok hexecute
      obtain ⟨loaded, hload, rfl⟩ := exists_of_map_eq_ok hrestore
      obtain ⟨-, rfl⟩ := (Memory.load_eq_ok_iff _ _ _ _).1 hload
      exact (ChangesOnly.passBlock_of_index _ dialect _ rfl).advance
  | _ => cases hdisputed

end Machine

namespace Session

/-- The same session in another dialect. -/
def inDialect (s : Session) (dialect : Dialect) : Session :=
  { s with dialect }

variable {s : Session} {other : Dialect} {instruction : Instruction}

theorem randomByteFor_inDialect (s : Session) (other : Dialect) (instruction : Instruction) :
    (s.inDialect other).randomByteFor instruction = s.randomByteFor instruction := by
  cases instruction with
  | _ => rfl

theorem account_inDialect (s : Session) (other : Dialect) (instruction : Instruction) :
    (s.inDialect other).account instruction = (s.account instruction).inDialect other := by
  cases instruction with
  | _ => rfl

theorem execute_inDialect (hagreed : instruction.disputed s.machine s.dialect other = false) :
    (s.inDialect other).execute instruction =
      (s.execute instruction).map (·.inDialect other) := by
  rw [execute, execute, randomByteFor_inDialect, account_inDialect]
  change (s.machine.execute other _ instruction).map _ = _
  rw [Machine.execute_of_not_disputed hagreed]
  cases s.machine.execute s.dialect (s.randomByteFor instruction) instruction with
  | ok machine => rfl
  | error fault => rfl

/-- Whether a step fails, and with which fault, is the same in every dialect. -/
theorem fault_step_inDialect : (s.inDialect other).step.fault = s.step.fault := by
  rw [fault_step, fault_step]
  rfl

theorem executed?_inDialect : (s.inDialect other).executed? = s.executed? :=
  executed?_congr rfl rfl fault_step_inDialect

theorem state_step_inDialect
    (hagreed : ∀ instruction, s.executed? = some instruction →
      instruction.disputed s.machine s.dialect other = false) :
    (s.inDialect other).step.state = s.step.state.inDialect other := by
  apply state_step_of_change (·.inDialect other) executed?_inDialect
  intro instruction after hexecuted hexecute
  rw [execute_inDialect (hagreed instruction hexecuted), hexecute]
  rfl

theorem showKeys_inDialect (keypad : Keypad) :
    (s.inDialect other).showKeys keypad = (s.showKeys keypad).inDialect other := by
  obtain ⟨machine, dialect, random, activity, skipped⟩ := s
  cases activity with
  | running => rfl
  | awaitingKey register =>
      simp only [showKeys, inDialect]
      cases machine.keypad.firstPressed? keypad with
      | none => rfl
      | some key => rfl

/-- An operation that executes nothing disputed is answered the same and does the same in another
dialect. -/
theorem apply_inDialect {operation : Operation} (hgoing : operation.GoesOn)
    (hagreed : ∀ execution ∈ s.executionsOf operation,
      execution.instruction.disputed execution.before.machine s.dialect other = false) :
    (s.inDialect other).apply operation =
      ((s.apply operation).1, (s.apply operation).2.inDialect other) := by
  rcases hgoing.cases with rfl | ⟨keypad, rfl⟩ | rfl | rfl
  · have hnext : ∀ instruction, s.executed? = some instruction →
        instruction.disputed s.machine s.dialect other = false :=
      forall_executionsOf_step (p := fun t instruction =>
        instruction.disputed t.machine s.dialect other = false).1 hagreed
    simp only [apply, answer, state_step_inDialect hnext, fault_step_inDialect]
  · simp only [apply, showKeys_inDialect]
  · rfl
  · rfl

theorem dialect_apply {operation : Operation} (hgoing : operation.GoesOn) :
    (s.apply operation).2.dialect = s.dialect := by
  rcases hgoing.cases with rfl | ⟨keypad, rfl⟩ | rfl | rfl
  · cases hexecuted : s.executed? with
    | none => exact congrArg Session.dialect (step_of_executed?_eq_none hexecuted)
    | some instruction => exact (changesOnly_step hexecuted).1.dialect
  · change (s.showKeys keypad).dialect = s.dialect
    obtain ⟨registers, activity, hshown⟩ := s.exists_showKeys_eq keypad
    rw [hshown]
  · rfl
  · rfl

theorem dialect_run {history : List Operation}
    (hgoing : ∀ operation ∈ history, operation.GoesOn) :
    (s.run history).dialect = s.dialect := by
  induction history generalizing s with
  | nil => rfl
  | cons operation rest ih =>
      obtain ⟨hfirst, hlater⟩ := List.forall_mem_cons.1 hgoing
      exact (ih hlater).trans (dialect_apply hfirst)

theorem run_inDialect {history : List Operation}
    (hgoing : ∀ operation ∈ history, operation.GoesOn)
    (hagreed : ∀ execution ∈ s.executions history,
      execution.instruction.disputed execution.before.machine s.dialect other = false) :
    (s.inDialect other).replies history = s.replies history ∧
      (s.inDialect other).run history = (s.run history).inDialect other := by
  induction history generalizing s with
  | nil => exact ⟨rfl, rfl⟩
  | cons operation rest ih =>
      obtain ⟨hfirst, hlater⟩ := List.forall_mem_cons.1 hgoing
      obtain ⟨hnow, hthen⟩ := List.forall_mem_append.1 hagreed
      have happly := apply_inDialect hfirst hnow
      rw [← dialect_apply hfirst] at hthen
      obtain ⟨hreplies, hrun⟩ := ih hlater hthen
      constructor
      · rw [replies, replies, happly, hreplies]
      · change ((s.inDialect other).apply operation).2.run rest = _
        rw [happly]
        exact hrun

/-- A disputed instruction sets apart no more than the parts that the dispute is about. -/
theorem agreesBeyond_of_disputed (hexecuted : s.executed? = some instruction)
    (hdisputed : instruction.disputed s.machine s.dialect other = true) :
    s.step.state.AgreesBeyond instruction.disputedParts (s.inDialect other).step.state := by
  obtain ⟨-, -, after, hexecute, hstep⟩ := step_of_executed? hexecuted
  obtain ⟨-, -, after', hexecute', hstep'⟩ :=
    step_of_executed? (executed?_inDialect.trans hexecuted)
  obtain ⟨machine, hmachine, rfl⟩ := exists_of_map_eq_ok hexecute
  obtain ⟨machine', hmachine', rfl⟩ := exists_of_map_eq_ok hexecute'
  rw [randomByteFor_inDialect] at hmachine'
  obtain ⟨base, hbase⟩ :=
    Machine.exists_changesOnly_of_disputed (s.randomByteFor instruction) hdisputed
  have hcounter := Machine.counter_of_execute hmachine
  have hcounter' := Machine.counter_of_execute hmachine'
  rw [hstep, hstep', account_inDialect]
  exact ⟨(hbase _ _ hmachine).symm.trans (hbase _ _ hmachine'), hcounter'.trans hcounter.symm,
    rfl, rfl, rfl⟩

/-- Two sessions that differ in their dialects alone answer the same, and go on differing in their
dialects alone, for as long as they execute nothing disputed.  Their next steps execute the same
instruction or both fail with the same fault, and if that instruction is disputed, the two differ
after it at most in what the dispute is about. -/
theorem dialects_agree (s : Session) (first second : Dialect) (history : List Operation)
    (hgoing : ∀ operation ∈ history, operation.GoesOn)
    (hagreed : ∀ execution ∈ (s.inDialect first).executions history,
      execution.instruction.disputed execution.before.machine first second = false) :
    let one := (s.inDialect first).run history
    let other := (s.inDialect second).run history
    (s.inDialect second).replies history = (s.inDialect first).replies history ∧
      other = one.inDialect second ∧
      other.executed? = one.executed? ∧
      other.step.fault = one.step.fault ∧
      ∀ instruction, one.executed? = some instruction →
        instruction.disputed one.machine first second = true →
        one.step.state.AgreesBeyond instruction.disputedParts other.step.state := by
  intro one other
  have hdialect : one.dialect = first := dialect_run hgoing
  obtain ⟨hreplies, hother⟩ : (s.inDialect second).replies history =
      (s.inDialect first).replies history ∧ other = one.inDialect second :=
    run_inDialect hgoing hagreed
  refine ⟨hreplies, hother, ?_, ?_, ?_⟩
  · rw [hother, executed?_inDialect]
  · rw [hother, fault_step_inDialect]
  · intro instruction hexecuted hdisputed
    rw [hother]
    rw [← hdialect] at hdisputed
    exact agreesBeyond_of_disputed hexecuted hdisputed

/-- A program that shifts one of two equal registers and then dumps both of them. -/
def shiftingProgram : List UInt8 :=
  [0x61, 0x05, 0x62, 0x05, 0x81, 0x26, 0xA2, 0x10, 0xF2, 0x55]

/-- Nobody disputes the shift of equal registers, and the dump sets the dialects apart in the index
alone. -/
theorem dialects_agree_dump :
    let s := (plain.boot shiftingProgram).state
    let second : Dialect := ⟨false, false, true⟩
    let history :=
      [Operation.step, .step, .showKeys (.single 0x7), .step, .countDown, .step, .present]
    let one := (s.inDialect .cosmac).run history
    let other := (s.inDialect second).run history
    (∀ operation ∈ history, operation.GoesOn) ∧
      (∀ execution ∈ (s.inDialect .cosmac).executions history,
        execution.instruction.disputed execution.before.machine .cosmac second = false) ∧
      other = one.inDialect second ∧
      one.executed? = some (.dump 2) ∧
      (Instruction.dump 2).disputed one.machine .cosmac second = true ∧
      one.step.state.AgreesBeyond { index := true } other.step.state ∧
      one.step.state.machine.index = 0x213 ∧ other.step.state.machine.index = 0x210 := by
  intro s second history one other
  have hgoing : ∀ operation ∈ history, operation.GoesOn := by decide
  obtain ⟨hagreed, hexecuted, hindex⟩ :
      (∀ execution ∈ (s.inDialect .cosmac).executions history,
        execution.instruction.disputed execution.before.machine .cosmac second = false) ∧
      one.executed? = some (.dump 2) ∧
      one.step.state.machine.index = 0x213 ∧ other.step.state.machine.index = 0x210 := by
    decide +kernel
  obtain ⟨-, hother, -, -, hparts⟩ := dialects_agree s .cosmac second history hgoing hagreed
  exact ⟨hgoing, hagreed, hother, hexecuted, rfl, hparts (.dump 2) hexecuted rfl, hindex⟩

end Session

end Chip8
