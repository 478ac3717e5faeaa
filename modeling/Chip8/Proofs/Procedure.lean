import Chip8.Session.Procedure

/-!
What a procedure leaves behind when a fault stops it.

Working on a session in place comes to the same as `Session.execute`, which gives a whole new
session or none: whatever can stop an instruction stops it before its first write.  A list of
instructions keeps what the instructions before the failing one did, and nothing else.
-/

namespace Chip8

namespace Procedure

theorem run_bind_of_ok {Value Result : Type} {first : Procedure Value}
    {next : Value → Procedure Result} {s after : Session} {value : Value}
    (hfirst : first.run s = .ok value after) :
    (first >>= next).run s = (next value).run after := by
  rw [EStateM.run_bind, hfirst]

theorem run_bind_of_error {Value Result : Type} {first : Procedure Value}
    {next : Value → Procedure Result} {s after : Session} {fault : Fault}
    (hfirst : first.run s = .error fault after) :
    (first >>= next).run s = .error fault after := by
  rw [EStateM.run_bind, hfirst]

variable (s : Session)

@[simp] theorem run_machine : machine.run s = .ok s.machine s :=
  rfl

@[simp] theorem run_edit (change : Machine → Machine) :
    (edit change).run s = .ok () { s with machine := change s.machine } :=
  rfl

@[simp] theorem run_readRegister (number : UInt8) :
    (readRegister number).run s = .ok (s.machine.registers.get number) s :=
  rfl

@[simp] theorem run_writeRegister (number value : UInt8) :
    (writeRegister number value).run s = .ok () { s with machine := s.machine.put number value } :=
  rfl

@[simp] theorem run_writeIndex (address : UInt16) :
    (writeIndex address).run s =
      .ok () { s with machine := { s.machine with index := address } } :=
  rfl

theorem run_readBytes (start : UInt16) (length : Nat) :
    (readBytes start length).run s =
      match s.machine.memory.load start length with
      | .ok bytes => .ok bytes s
      | .error fault => .error fault s := by
  by_cases hfits : Memory.Fits start length
  · simp only [Memory.load, readBytes, require, if_pos hfits]
    rfl
  · simp only [Memory.load, readBytes, require, if_neg hfits]
    rfl

theorem run_readBytes_of_ok {start : UInt16} {length : Nat} {bytes : List UInt8}
    (hload : s.machine.memory.load start length = .ok bytes) :
    (readBytes start length).run s = .ok bytes s := by
  rw [run_readBytes, hload]

theorem run_readBytes_of_error {start : UInt16} {length : Nat} {fault : Fault}
    (hload : s.machine.memory.load start length = .error fault) :
    (readBytes start length).run s = .error fault s := by
  rw [run_readBytes, hload]

theorem run_writeBytes (start : UInt16) (bytes : List UInt8) :
    (writeBytes start bytes).run s =
      match s.machine.memory.store start bytes with
      | .ok memory => .ok () { s with machine := { s.machine with memory } }
      | .error fault => .error fault s := by
  by_cases hfits : Memory.Fits start bytes.length
  · simp only [Memory.store, writeBytes, require, if_pos hfits]
    rfl
  · simp only [Memory.store, writeBytes, require, if_neg hfits]
    rfl

theorem run_push (address : UInt16) :
    (push address).run s =
      match s.machine.calls.push address with
      | .ok calls => .ok () { s with machine := { s.machine with calls } }
      | .error fault => .error fault s := by
  simp only [push, EStateM.run_bind, run_machine]
  cases s.machine.calls.push address with
  | ok calls => rfl
  | error fault => rfl

theorem run_pop :
    pop.run s =
      match s.machine.calls.pop with
      | .ok (address, calls) => .ok address { s with machine := { s.machine with calls } }
      | .error fault => .error fault s := by
  simp only [pop, EStateM.run_bind, run_machine]
  cases s.machine.calls.pop with
  | ok popped => rfl
  | error fault => rfl

theorem run_passBlock (length : Nat) :
    (passBlock length).run s =
      .ok () { s with machine := s.machine.passBlock s.dialect length } := by
  simp only [passBlock, EStateM.run_bind, EStateM.run_get, Machine.passBlock]
  cases s.dialect.advancesIndex with
  | true => rfl
  | false => rfl

theorem run_fetch :
    fetch.run s =
      match s.machine.fetch with
      | .ok word => .ok word s
      | .error fault => .error fault s := by
  simp only [fetch, EStateM.run_bind, run_machine, run_readBytes, Machine.fetch,
    Memory.loadWord_eq]
  cases s.machine.memory.load s.machine.counter 2 with
  | ok bytes => rfl
  | error fault => rfl

theorem advance_passBlock (m : Machine) (dialect : Dialect) (length : Nat) :
    (m.passBlock dialect length).advance =
      (m.passBlock dialect length).goTo (m.counter + Machine.instructionSize) := by
  rw [Machine.passBlock]
  split
  · rfl
  · rfl

/-- Executing an instruction in place ends with the session that `Session.execute` gives, or else
with the session it began with. -/
theorem run_execute (instruction : Instruction) :
    (execute instruction).run s =
      match s.execute instruction with
      | .ok after => .ok () after
      | .error fault => .error fault s := by
  simp only [execute, EStateM.run_bind, run_machine, Session.execute]
  cases instruction with
  | routine address => rfl
  | clear => rfl
  | ret =>
      simp only [carryOut, EStateM.run_bind, run_pop, Machine.execute, Machine.pop]
      cases s.machine.calls.pop with
      | ok popped => rfl
      | error fault => rfl
  | jump address => rfl
  | call address =>
      simp only [carryOut, EStateM.run_bind, run_push, Machine.execute, Machine.push]
      cases s.machine.calls.push (s.machine.counter + Machine.instructionSize) with
      | ok calls => rfl
      | error fault => rfl
  | skipIf condition =>
      simp only [carryOut, EStateM.run_bind, run_machine, EStateM.run_pure, Machine.execute]
      cases condition.holds s.machine with
      | true => rfl
      | false => rfl
  | setByte x byte => rfl
  | addByte x byte => rfl
  | alu operation x y =>
      simp only [carryOut, EStateM.run_bind, run_readRegister, run_writeRegister, EStateM.run_get,
        Machine.execute, Registers.combine]
      cases operation.flag? s.dialect (s.machine.registers.get x) (s.machine.registers.get y) with
      | some raised => rfl
      | none => rfl
  | setIndex address => rfl
  | jumpOffset address => rfl
  | random x mask => rfl
  | draw x y height =>
      simp only [Machine.execute, Machine.drawFromIndex]
      cases hload : s.machine.memory.load s.machine.index height.toNat with
      | ok sprite =>
          rw [carryOut, run_bind_of_ok (run_machine s),
            run_bind_of_ok (run_readBytes_of_ok s hload)]
          rfl
      | error fault =>
          rw [carryOut, run_bind_of_ok (run_machine s),
            run_bind_of_error (run_readBytes_of_error s hload)]
          rfl
  | readDelay x => rfl
  | awaitKey x => rfl
  | setDelay x => rfl
  | setSound x => rfl
  | addIndex x =>
      simp only [carryOut, EStateM.run_bind, run_machine, run_readRegister, run_writeIndex,
        EStateM.run_get, Machine.execute, Machine.addToIndex]
      cases s.dialect.flagsIndex with
      | true => rfl
      | false => rfl
  | glyph x => rfl
  | decimal x =>
      simp only [carryOut, EStateM.run_bind, run_machine, run_readRegister, run_writeBytes,
        Machine.execute, Machine.store]
      cases s.machine.memory.store s.machine.index
          (Machine.decimalDigits (s.machine.registers.get x)) with
      | ok memory => rfl
      | error fault => rfl
  | dump x =>
      by_cases hregister : x < 16
      · simp only [carryOut, require, if_pos hregister, EStateM.run_bind, EStateM.run_pure,
          run_machine, run_writeBytes, run_passBlock, Machine.execute, Machine.dump,
          Machine.store]
        cases s.machine.memory.store s.machine.index
            (s.machine.registers.first (x.toNat + 1)) with
        | ok memory =>
            simp only [Except.map, advance_passBlock]
            rfl
        | error fault => rfl
      · simp only [carryOut, require, if_neg hregister, EStateM.run_bind, Machine.execute,
          Machine.dump]
        rfl
  | restore x =>
      simp only [carryOut, EStateM.run_bind, run_machine, run_readBytes, run_edit, run_passBlock,
        Machine.execute, Machine.restore]
      cases s.machine.memory.load s.machine.index (x.toNat + 1) with
      | ok values =>
          simp only [Except.map, advance_passBlock]
          rfl
      | error fault => rfl

end Procedure

namespace Session

/-- An instruction is executed as a whole or not at all. -/
theorem perform_eq (s : Session) (instruction : Instruction) :
    s.perform instruction = .ofExcept s (s.execute instruction) := by
  rw [perform, Procedure.outcome, Procedure.run_execute]
  cases s.execute instruction with
  | ok after => rfl
  | error fault => rfl

theorem perform_of_fault {s : Session} {instruction : Instruction} {fault : Fault}
    (hfault : (s.perform instruction).fault = some fault) :
    s.perform instruction = .stopped s fault := by
  rw [perform_eq] at hfault ⊢
  cases hexecute : s.execute instruction with
  | ok after =>
      rw [hexecute] at hfault
      cases hfault
  | error cause =>
      rw [hexecute] at hfault
      cases hfault
      rfl

theorem step_of_awaiting {s : Session} {register : UInt8}
    (hactivity : s.activity = .awaitingKey register) : s.step = .done s := by
  simp only [step, Procedure.outcome, Procedure.step, EStateM.run_bind, EStateM.run_get, hactivity]
  rfl

theorem step_of_running {s : Session} (hactivity : s.activity = .running) :
    s.step =
      match s.machine.nextInstruction with
      | .ok instruction => s.perform instruction
      | .error fault => .stopped s fault := by
  simp only [step, Procedure.outcome, Procedure.step, EStateM.run_bind, EStateM.run_get, hactivity,
    Procedure.run_fetch, Machine.nextInstruction]
  cases s.machine.fetch with
  | error fault => rfl
  | ok word =>
      cases hdecode : Instruction.decode word with
      | none => simp only [hdecode]; rfl
      | some instruction => simp only [hdecode]; rfl

/-- A step leaves the session alone, or fetches an instruction and executes it. -/
theorem step_cases (s : Session) :
    s.step = .done s ∨ (∃ fault, s.step = .stopped s fault) ∨
      ∃ word instruction after, s.machine.fetch = .ok word ∧
        Instruction.decode word = some instruction ∧ s.execute instruction = .ok after ∧
        s.step = .done after := by
  cases hactivity : s.activity with
  | awaitingKey register => exact .inl (step_of_awaiting hactivity)
  | running =>
      right
      rw [step_of_running hactivity, Machine.nextInstruction]
      cases hfetch : s.machine.fetch with
      | error fault => exact .inl ⟨fault, rfl⟩
      | ok word =>
          cases hdecode : Instruction.decode word with
          | none => exact .inl ⟨.unknownWord word, by simp only [hdecode]⟩
          | some instruction =>
              simp only [hdecode, perform_eq]
              cases hexecute : s.execute instruction with
              | error fault => exact .inl ⟨fault, rfl⟩
              | ok after => exact .inr ⟨word, instruction, after, rfl, hdecode, hexecute, rfl⟩

theorem step_of_fault {s : Session} {fault : Fault} (hfault : s.step.fault = some fault) :
    s.step = .stopped s fault := by
  rcases s.step_cases with hdone | ⟨cause, hstopped⟩ | ⟨_, _, after, _, _, _, hdone⟩
  · rw [hdone] at hfault
    cases hfault
  · rw [hstopped] at hfault ⊢
    cases hfault
    rfl
  · rw [hdone] at hfault
    cases hfault

theorem performAll_cons (s : Session) (instruction : Instruction) (rest : List Instruction) :
    s.performAll (instruction :: rest) =
      match s.perform instruction with
      | ⟨after, none⟩ => after.performAll rest
      | ⟨after, some fault⟩ => .stopped after fault := by
  rw [perform_eq]
  simp only [performAll, Procedure.outcome, Procedure.executeAll, EStateM.run_bind,
    Procedure.run_execute]
  cases s.execute instruction with
  | ok after => rfl
  | error fault => rfl

/-- A list of instructions that fails has a first failing one, and what comes after that one does
not matter. -/
theorem exists_failing_of_fault {s : Session} {instructions : List Instruction} {fault : Fault}
    (hfault : (s.performAll instructions).fault = some fault) :
    ∃ earlier failing later, instructions = earlier ++ failing :: later ∧
      (s.performAll earlier).fault = none ∧
      (s.performAll earlier).state.perform failing =
        .stopped (s.performAll earlier).state fault ∧
      ∀ others, s.performAll (earlier ++ failing :: others) =
        .stopped (s.performAll earlier).state fault := by
  induction instructions generalizing s with
  | nil => cases hfault
  | cons instruction rest ih =>
      rcases hperform : s.perform instruction with ⟨after, _ | cause⟩
      · have hlater : ∀ list, s.performAll (instruction :: list) = after.performAll list := by
          intro list
          rw [performAll_cons, hperform]
        rw [hlater] at hfault
        obtain ⟨earlier, failing, later, hsplit, hdone, hfailing, hothers⟩ := ih hfault
        refine ⟨instruction :: earlier, failing, later, ?_, ?_, ?_, ?_⟩
        · rw [hsplit, List.cons_append]
        · rw [hlater, hdone]
        · rw [hlater, hfailing]
        · intro others
          rw [List.cons_append, hlater, hlater, hothers]
      · have hstop : ∀ list, s.performAll (instruction :: list) = .stopped after cause := by
          intro list
          rw [performAll_cons, hperform]
        rw [hstop] at hfault
        cases hfault
        have hstay := perform_of_fault (s := s) (congrArg Outcome.fault hperform)
        have hafter : after = s := by
          rw [hperform] at hstay
          exact congrArg Outcome.state hstay
        subst hafter
        exact ⟨[], instruction, rest, rfl, rfl, hperform, hstop⟩

/-- A fault takes nothing but the instruction that met it: a failing step or instruction leaves
the session as it was, and a failing list of instructions leaves what its instructions before the
failing one made of the session. -/
theorem fault_leaves_state (s : Session) :
    (∀ fault, s.step.fault = some fault → s.step = .stopped s fault) ∧
    (∀ instruction fault, (s.perform instruction).fault = some fault →
      s.perform instruction = .stopped s fault) ∧
    ∀ instructions fault, (s.performAll instructions).fault = some fault →
      ∃ earlier failing later, instructions = earlier ++ failing :: later ∧
        (s.performAll earlier).fault = none ∧
        (s.performAll earlier).state.perform failing =
          .stopped (s.performAll earlier).state fault ∧
        ∀ others, s.performAll (earlier ++ failing :: others) =
          .stopped (s.performAll earlier).state fault :=
  ⟨fun _ hfault => step_of_fault hfault, fun _ _ hfault => perform_of_fault hfault,
    fun _ _ hfault => exists_failing_of_fault hfault⟩

theorem fault_leaves_state_plain :
    let lost : Session := { plain with machine := { Machine.initial with counter := 0xFFF } }
    lost.step.fault = some (.addressOutOfRange 0x1000) ∧
      lost.step = .stopped lost (.addressOutOfRange 0x1000) ∧
      (plain.perform .ret).fault = some .stackUnderflow ∧
      plain.perform .ret = .stopped plain .stackUnderflow ∧
      (plain.performAll [.setByte 3 7, .ret, .clear]).fault = some .stackUnderflow ∧
      ∃ earlier failing later,
        [Instruction.setByte 3 7, .ret, .clear] = earlier ++ failing :: later ∧
        (plain.performAll earlier).fault = none ∧
        (plain.performAll earlier).state.perform failing =
          .stopped (plain.performAll earlier).state .stackUnderflow ∧
        ∀ others, plain.performAll (earlier ++ failing :: others) =
          .stopped (plain.performAll earlier).state .stackUnderflow := by
  intro lost
  have hstep : lost.step.fault = some (.addressOutOfRange 0x1000) := rfl
  exact ⟨hstep, (fault_leaves_state lost).1 _ hstep,
    rfl, (fault_leaves_state plain).2.1 .ret .stackUnderflow rfl,
    rfl, (fault_leaves_state plain).2.2 [.setByte 3 7, .ret, .clear] .stackUnderflow rfl⟩

end Session

end Chip8
