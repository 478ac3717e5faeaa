import Chip8.Proofs.Picture

/-!
What an instruction may change, and where it goes on.

The footprint of an instruction names the parts of a session that it may change.  An instruction
that is executed changes nothing outside its footprint, so over a history a byte of memory can only
differ if an instruction that writes to memory had it in its footprint.
-/

namespace Chip8

/-- The parts of a session that may change: addresses of memory and numbers of registers by name,
the others as a whole. -/
structure Footprint where
  memory : List Nat := []
  registers : List UInt8 := []
  index : Bool := false
  calls : Bool := false
  delayTimer : Bool := false
  soundTimer : Bool := false
  /-- The screen with its mark. -/
  screen : Bool := false
  random : Bool := false
  skipped : Bool := false
  activity : Bool := false

/-- The operation writes to `VF` after `VX`. -/
def AluOp.flags : AluOp → Bool
  | copy => false
  | or => false
  | and => false
  | xor => false
  | add => true
  | sub => true
  | shiftRight => true
  | subFrom => true
  | shiftLeft => true

/-- The parts of a session that an instruction may change.  The program counter is the subject of
`Machine.successor`. -/
def Instruction.footprint (m : Machine) (dialect : Dialect) : Instruction → Footprint
  | routine _ => { skipped := true }
  | clear => { screen := true }
  | ret => { calls := true }
  | jump _ => {}
  | call _ => { calls := true }
  | skipIf _ => {}
  | setByte x _ => { registers := [x] }
  | addByte x _ => { registers := [x] }
  | alu operation x _ => { registers := if operation.flags then [x, Registers.flag] else [x] }
  | setIndex _ => { index := true }
  | jumpOffset _ => {}
  | random x _ => { registers := [x], random := true }
  | draw _ _ _ => { registers := [Registers.flag], screen := true }
  | readDelay x => { registers := [x] }
  | awaitKey _ => { activity := true }
  | setDelay _ => { delayTimer := true }
  | setSound _ => { soundTimer := true }
  | addIndex _ =>
      { registers := if dialect.flagsIndex then [Registers.flag] else [], index := true }
  | glyph _ => { index := true }
  | decimal _ => { memory := List.range' m.index.toNat 3 }
  | dump x =>
      { memory := List.range' m.index.toNat (x.toNat + 1), index := dialect.advancesIndex }
  | restore x =>
      { registers := (List.range (x.toNat + 1)).map UInt8.ofNat, index := dialect.advancesIndex }

/-- Where the program goes on after an instruction. -/
def Machine.successor (m : Machine) : Instruction → UInt16
  | .ret => m.calls.frames.headD 0
  | .jump address => address
  | .call address => address
  | .jumpOffset address => (m.registers.get 0).toUInt16 + address
  | .skipIf condition => if condition.holds m then m.counter + 4 else m.counter + 2
  | _ => m.counter + 2

/-- A register has one of the numbers of a list, of which only the last digit counts. -/
def Registers.Named (numbers : List UInt8) (number : UInt8) : Prop :=
  ∃ named ∈ numbers, named.toNat % 16 = number.toNat % 16

/-- Nothing of a machine changed outside a footprint, the program counter apart. -/
structure Machine.ChangesOnly (footprint : Footprint) (before after : Machine) : Prop where
  memory : ∀ address, address ∉ footprint.memory →
    after.memory.peek address = before.memory.peek address
  registers : ∀ number, ¬ Registers.Named footprint.registers number →
    after.registers.get number = before.registers.get number
  index : footprint.index = false → after.index = before.index
  calls : footprint.calls = false → after.calls = before.calls
  delayTimer : footprint.delayTimer = false → after.delayTimer = before.delayTimer
  soundTimer : footprint.soundTimer = false → after.soundTimer = before.soundTimer
  screen : footprint.screen = false → after.screen = before.screen
  redraw : footprint.screen = false → after.redraw = before.redraw
  keypad : after.keypad = before.keypad

/-- Nothing of a session changed outside a footprint, the program counter apart. -/
structure Session.ChangesOnly (footprint : Footprint) (before after : Session) : Prop where
  machine : before.machine.ChangesOnly footprint after.machine
  dialect : after.dialect = before.dialect
  random : footprint.random = false → after.random = before.random
  activity : footprint.activity = false → after.activity = before.activity
  skipped : footprint.skipped = false → after.skipped = before.skipped

theorem AluOp.isSome_flag? (operation : AluOp) (dialect : Dialect) (vx vy : UInt8) :
    (operation.flag? dialect vx vy).isSome = operation.flags := by
  cases operation with
  | _ => rfl

namespace Registers

variable {numbers : List UInt8} {number : UInt8}

theorem get_set_of_not_named (r : Registers) {named : UInt8} (value : UInt8)
    (hnamed : named ∈ numbers) (hother : ¬ Named numbers number) :
    (r.set named value).get number = r.get number :=
  get_set_of_ne r value fun heq => hother ⟨named, hnamed, heq.symm⟩

theorem get_setAll_of_not_named (r : Registers) (start : UInt8) (values : List UInt8)
    (hother : ∀ i < values.length, (start.toNat + i) % 16 ≠ number.toNat % 16) :
    (r.setAll start values).get number = r.get number := by
  induction values generalizing r start with
  | nil => rfl
  | cons value rest ih =>
      have hfirst := hother 0 (Nat.zero_lt_succ _)
      rw [setAll, ih]
      · exact get_set_of_ne r value (Ne.symm hfirst)
      · intro i hi
        have hlater := hother (i + 1) (Nat.succ_lt_succ hi)
        rw [Nat.add_mod, toNat_next_mod, ← Nat.add_mod, Nat.add_assoc, Nat.add_comm 1 i]
        exact hlater

theorem get_combine_of_not_named (r : Registers) (dialect : Dialect) (operation : AluOp)
    (x y : UInt8) (hother : ¬ Named (if operation.flags then [x, flag] else [x]) number) :
    (r.combine dialect operation x y).get number = r.get number := by
  have hflags := operation.isSome_flag? dialect (r.get x) (r.get y)
  simp only [combine]
  cases hflag : operation.flag? dialect (r.get x) (r.get y) with
  | none =>
      rw [← hflags, hflag, Option.isSome_none, if_neg Bool.false_ne_true] at hother
      exact get_set_of_not_named r _ List.mem_cons_self hother
  | some raised =>
      rw [← hflags, hflag, Option.isSome_some, if_pos rfl] at hother
      have hflag : flag ∈ [x, flag] := List.mem_cons_of_mem x List.mem_cons_self
      exact (get_set_of_not_named _ _ hflag hother).trans
        (get_set_of_not_named r _ List.mem_cons_self hother)

end Registers

namespace Machine

namespace ChangesOnly

variable {footprint : Footprint} {m : Machine}

theorem refl (footprint : Footprint) (m : Machine) : m.ChangesOnly footprint m :=
  ⟨fun _ _ => rfl, fun _ _ => rfl, fun _ => rfl, fun _ => rfl, fun _ => rfl, fun _ => rfl,
    fun _ => rfl, fun _ => rfl, rfl⟩

theorem symm {after : Machine} (hchanges : m.ChangesOnly footprint after) :
    after.ChangesOnly footprint m where
  memory address h := (hchanges.memory address h).symm
  registers number h := (hchanges.registers number h).symm
  index h := (hchanges.index h).symm
  calls h := (hchanges.calls h).symm
  delayTimer h := (hchanges.delayTimer h).symm
  soundTimer h := (hchanges.soundTimer h).symm
  screen h := (hchanges.screen h).symm
  redraw h := (hchanges.redraw h).symm
  keypad := hchanges.keypad.symm

theorem trans {middle after : Machine} (hfirst : m.ChangesOnly footprint middle)
    (hsecond : middle.ChangesOnly footprint after) : m.ChangesOnly footprint after where
  memory address h := (hsecond.memory address h).trans (hfirst.memory address h)
  registers number h := (hsecond.registers number h).trans (hfirst.registers number h)
  index h := (hsecond.index h).trans (hfirst.index h)
  calls h := (hsecond.calls h).trans (hfirst.calls h)
  delayTimer h := (hsecond.delayTimer h).trans (hfirst.delayTimer h)
  soundTimer h := (hsecond.soundTimer h).trans (hfirst.soundTimer h)
  screen h := (hsecond.screen h).trans (hfirst.screen h)
  redraw h := (hsecond.redraw h).trans (hfirst.redraw h)
  keypad := hsecond.keypad.trans hfirst.keypad

/-- The program counter is in no footprint. -/
theorem goTo {after : Machine} (hafter : m.ChangesOnly footprint after) (address : UInt16) :
    m.ChangesOnly footprint (after.goTo address) :=
  { hafter with }

theorem advance {after : Machine} (hafter : m.ChangesOnly footprint after) :
    m.ChangesOnly footprint after.advance :=
  hafter.goTo _

theorem setRegisters (m : Machine) {registers : Registers}
    (hothers : ∀ number, ¬ Registers.Named footprint.registers number →
      registers.get number = m.registers.get number) :
    m.ChangesOnly footprint { m with registers } :=
  { refl footprint m with registers := hothers }

theorem put (m : Machine) {number : UInt8} (value : UInt8)
    (hnumber : number ∈ footprint.registers) : m.ChangesOnly footprint (m.put number value) :=
  setRegisters m fun _ hother => m.registers.get_set_of_not_named value hnumber hother

theorem setIndex (m : Machine) (index : UInt16) (hindex : footprint.index = true) :
    m.ChangesOnly footprint { m with index } :=
  { refl footprint m with index := fun h => absurd (hindex.symm.trans h) nofun }

theorem passBlock (m : Machine) (dialect : Dialect) (length : Nat)
    (hindex : footprint.index = dialect.advancesIndex) :
    m.ChangesOnly footprint (m.passBlock dialect length) := by
  unfold Machine.passBlock
  split
  · rename_i hadvances
    exact setIndex m _ (hindex.trans hadvances)
  · exact refl footprint m

theorem setCalls (m : Machine) (calls : CallStack) (hcalls : footprint.calls = true) :
    m.ChangesOnly footprint { m with calls } :=
  { refl footprint m with calls := fun h => absurd (hcalls.symm.trans h) nofun }

theorem setDelay (m : Machine) (delayTimer : UInt8) (hdelay : footprint.delayTimer = true) :
    m.ChangesOnly footprint { m with delayTimer } :=
  { refl footprint m with delayTimer := fun h => absurd (hdelay.symm.trans h) nofun }

theorem setSound (m : Machine) (soundTimer : UInt8) (hsound : footprint.soundTimer = true) :
    m.ChangesOnly footprint { m with soundTimer } :=
  { refl footprint m with soundTimer := fun h => absurd (hsound.symm.trans h) nofun }

theorem setScreen (m : Machine) (screen : Screen) (redraw : Bool)
    (hscreen : footprint.screen = true) :
    m.ChangesOnly footprint { m with screen, redraw } :=
  { refl footprint m with
    screen := fun h => absurd (hscreen.symm.trans h) nofun
    redraw := fun h => absurd (hscreen.symm.trans h) nofun }

theorem store {after : Machine} {start : UInt16} {bytes : List UInt8}
    (hstore : m.store start bytes = .ok after)
    (hcovered : ∀ i < bytes.length, start.toNat + i ∈ footprint.memory) :
    m.ChangesOnly footprint after := by
  obtain ⟨memory, hmemory, rfl⟩ := exists_of_map_eq_ok hstore
  refine { refl footprint m with memory := ?_ }
  intro address haddress
  rw [Memory.peek_of_store hmemory]
  split
  · rename_i hle
    have hbeyond : bytes.length ≤ address - start.toNat := by
      apply Nat.le_of_not_lt
      intro hlt
      have hmem := hcovered _ hlt
      rw [Nat.add_sub_cancel' hle] at hmem
      exact haddress hmem
    rw [List.getElem?_eq_none hbeyond]
    rfl
  · rfl

end ChangesOnly

theorem changesOnly_combine (m : Machine) (dialect : Dialect) (operation : AluOp) (x y : UInt8) :
    m.ChangesOnly ((Instruction.alu operation x y).footprint m dialect)
      { m with registers := m.registers.combine dialect operation x y } :=
  .setRegisters m fun _ hother =>
    m.registers.get_combine_of_not_named dialect operation x y hother

theorem changesOnly_addToIndex (m : Machine) (dialect : Dialect) (x : UInt8) :
    m.ChangesOnly ((Instruction.addIndex x).footprint m dialect) (m.addToIndex dialect x) := by
  refine (ChangesOnly.setIndex m (m.index + (m.registers.get x).toUInt16) rfl).trans ?_
  refine .setRegisters _ fun number hother => ?_
  dsimp only
  split
  · rename_i hflags
    rw [Instruction.footprint, if_pos hflags] at hother
    exact Registers.get_set_of_not_named _ _ List.mem_cons_self hother
  · rfl

theorem changesOnly_drawFromIndex {m after : Machine} (dialect : Dialect) {x y height : UInt8}
    (hdraw : m.drawFromIndex x y height = .ok after) :
    m.ChangesOnly ((Instruction.draw x y height).footprint m dialect) after := by
  obtain ⟨sprite, -, rfl⟩ := exists_of_map_eq_ok hdraw
  have hscreen := ChangesOnly.setScreen m
    (m.screen.draw (m.registers.get x) (m.registers.get y) sprite).screen true
    (show ((Instruction.draw x y height).footprint m dialect).screen = true from rfl)
  exact hscreen.trans (.put _ _ List.mem_cons_self)

theorem changesOnly_dump {m after : Machine} {dialect : Dialect} {x : UInt8}
    (hdump : m.dump dialect x = .ok after) :
    m.ChangesOnly ((Instruction.dump x).footprint m dialect) after := by
  unfold dump at hdump
  split at hdump
  · obtain ⟨stored, hstore, rfl⟩ := exists_of_map_eq_ok hdump
    refine (ChangesOnly.store hstore fun i hi => ?_).trans (.passBlock _ _ _ rfl)
    have hlength : i < x.toNat + 1 := by
      rw [Registers.length_first m.registers (by assumption)] at hi
      exact hi
    exact List.mem_range'_1.2 ⟨Nat.le_add_right _ _, Nat.add_lt_add_left hlength _⟩
  · cases hdump

theorem changesOnly_restore {m after : Machine} {dialect : Dialect} {x : UInt8}
    (hrestore : m.restore dialect x = .ok after) :
    m.ChangesOnly ((Instruction.restore x).footprint m dialect) after := by
  obtain ⟨values, hload, rfl⟩ := exists_of_map_eq_ok hrestore
  obtain ⟨-, rfl⟩ := (Memory.load_eq_ok_iff _ _ _ _).1 hload
  refine (ChangesOnly.setRegisters m fun number hother => ?_).trans (.passBlock _ _ _ rfl)
  apply Registers.get_setAll_of_not_named
  intro i hi heq
  rw [List.length_map, List.length_range'] at hi
  refine hother ⟨UInt8.ofNat i, List.mem_map_of_mem (List.mem_range.2 hi), ?_⟩
  rw [← heq, UInt8.toNat_ofNat', UInt8.toNat_zero, Nat.zero_add]
  omega

/-- An instruction changes nothing of the machine outside its footprint. -/
theorem changesOnly_of_execute {m after : Machine} {dialect : Dialect} {randomByte : UInt8}
    {instruction : Instruction}
    (hexecute : m.execute dialect randomByte instruction = .ok after) :
    m.ChangesOnly (instruction.footprint m dialect) after := by
  cases instruction with
  | routine address =>
      cases hexecute
      exact (ChangesOnly.refl _ m).advance
  | clear =>
      cases hexecute
      exact (ChangesOnly.setScreen m .blank true rfl).advance
  | ret =>
      obtain ⟨⟨address, returned⟩, hpop, rfl⟩ := exists_of_map_eq_ok hexecute
      obtain ⟨⟨_, calls⟩, -, hreturned⟩ := exists_of_map_eq_ok hpop
      cases hreturned
      exact (ChangesOnly.setCalls m calls rfl).goTo _
  | jump address =>
      cases hexecute
      exact (ChangesOnly.refl _ m).goTo _
  | call address =>
      obtain ⟨called, hpush, rfl⟩ := exists_of_map_eq_ok hexecute
      obtain ⟨calls, -, rfl⟩ := exists_of_map_eq_ok hpush
      exact (ChangesOnly.setCalls m calls rfl).goTo _
  | skipIf condition =>
      rw [execute] at hexecute
      cases hexecute
      split
      · exact (ChangesOnly.refl _ m).advance.advance
      · exact (ChangesOnly.refl _ m).advance
  | setByte x byte | addByte x byte | random x mask | readDelay x =>
      cases hexecute
      exact (ChangesOnly.put m _ List.mem_cons_self).advance
  | alu operation x y =>
      cases hexecute
      exact (m.changesOnly_combine dialect operation x y).advance
  | setIndex address | glyph x =>
      cases hexecute
      exact (ChangesOnly.setIndex m _ rfl).advance
  | jumpOffset address =>
      cases hexecute
      exact (ChangesOnly.refl _ m).goTo _
  | draw x y height =>
      obtain ⟨drawn, hdraw, rfl⟩ := exists_of_map_eq_ok hexecute
      exact (changesOnly_drawFromIndex dialect hdraw).advance
  | awaitKey x =>
      cases hexecute
      exact (ChangesOnly.refl _ m).advance
  | setDelay x =>
      cases hexecute
      exact (ChangesOnly.setDelay m _ rfl).advance
  | setSound x =>
      cases hexecute
      exact (ChangesOnly.setSound m _ rfl).advance
  | addIndex x =>
      cases hexecute
      exact (m.changesOnly_addToIndex dialect x).advance
  | decimal x =>
      obtain ⟨stored, hstore, rfl⟩ := exists_of_map_eq_ok hexecute
      refine (ChangesOnly.store hstore fun i hi => ?_).advance
      exact List.mem_range'_1.2 ⟨Nat.le_add_right _ _, Nat.add_lt_add_left hi _⟩
  | dump x =>
      obtain ⟨dumped, hdump, rfl⟩ := exists_of_map_eq_ok hexecute
      exact (changesOnly_dump hdump).advance
  | restore x =>
      obtain ⟨restored, hrestore, rfl⟩ := exists_of_map_eq_ok hexecute
      exact (changesOnly_restore hrestore).advance

/-- An instruction leads to its successor. -/
theorem counter_of_execute {m after : Machine} {dialect : Dialect} {randomByte : UInt8}
    {instruction : Instruction}
    (hexecute : m.execute dialect randomByte instruction = .ok after) :
    after.counter = m.successor instruction := by
  cases instruction with
  | ret =>
      obtain ⟨⟨address, returned⟩, hpop, rfl⟩ := exists_of_map_eq_ok hexecute
      obtain ⟨⟨_, calls⟩, hcalls, hreturned⟩ := exists_of_map_eq_ok hpop
      cases hreturned
      have hframes := (CallStack.pop_eq_ok_iff _ _ _).1 hcalls
      rw [successor, hframes]
      rfl
  | call address =>
      obtain ⟨called, hpush, rfl⟩ := exists_of_map_eq_ok hexecute
      rfl
  | skipIf condition =>
      rw [execute] at hexecute
      cases hexecute
      rw [successor]
      split
      · exact UInt16.add_assoc _ _ _
      · rfl
  | draw x y height =>
      obtain ⟨drawn, hdraw, rfl⟩ := exists_of_map_eq_ok hexecute
      obtain ⟨sprite, -, rfl⟩ := exists_of_map_eq_ok hdraw
      rfl
  | decimal x =>
      obtain ⟨stored, hstore, rfl⟩ := exists_of_map_eq_ok hexecute
      obtain ⟨memory, -, rfl⟩ := exists_of_map_eq_ok hstore
      rfl
  | dump x =>
      obtain ⟨dumped, hdump, rfl⟩ := exists_of_map_eq_ok hexecute
      unfold dump at hdump
      split at hdump
      · obtain ⟨stored, hstore, rfl⟩ := exists_of_map_eq_ok hdump
        obtain ⟨memory, -, rfl⟩ := exists_of_map_eq_ok hstore
        rw [advance, passBlock_counter]
        rfl
      · cases hdump
  | restore x =>
      obtain ⟨restored, hrestore, rfl⟩ := exists_of_map_eq_ok hexecute
      obtain ⟨values, -, rfl⟩ := exists_of_map_eq_ok hrestore
      rw [advance, passBlock_counter]
      rfl
  | _ =>
      cases hexecute
      rfl

end Machine

/-- Only two kinds of instruction have addresses in their footprint. -/
theorem Instruction.mem_footprint_iff (m : Machine) (dialect : Dialect) (instruction : Instruction)
    (address : Nat) :
    address ∈ (instruction.footprint m dialect).memory ↔
      (∃ x, instruction = .decimal x ∧ m.index.toNat ≤ address ∧ address < m.index.toNat + 3) ∨
        ∃ x, instruction = .dump x ∧ m.index.toNat ≤ address ∧
          address ≤ m.index.toNat + x.toNat := by
  cases instruction with
  | decimal x => simp [footprint, List.mem_range'_1]
  | dump x => simp [footprint, List.mem_range'_1, ← Nat.add_assoc, Nat.lt_succ_iff]
  | _ => simp [footprint]

namespace Session

variable {s : Session}

theorem changesOnly_of_execute {after : Session} {instruction : Instruction}
    (hexecute : s.execute instruction = .ok after) :
    s.ChangesOnly (instruction.footprint s.machine s.dialect) after := by
  obtain ⟨machine, hmachine, rfl⟩ := exists_of_map_eq_ok hexecute
  have hchanges := Machine.changesOnly_of_execute hmachine
  cases instruction with
  | routine address => exact ⟨hchanges, rfl, fun _ => rfl, fun _ => rfl, nofun⟩
  | random x mask => exact ⟨hchanges, rfl, nofun, fun _ => rfl, fun _ => rfl⟩
  | awaitKey x => exact ⟨hchanges, rfl, fun _ => rfl, nofun, fun _ => rfl⟩
  | _ => exact ⟨hchanges, rfl, fun _ => rfl, fun _ => rfl, fun _ => rfl⟩

/-- A step changes nothing outside the footprint of the instruction that it executes, and leads to
the successor of that instruction. -/
theorem changesOnly_step {instruction : Instruction}
    (hexecuted : s.executed? = some instruction) :
    s.ChangesOnly (instruction.footprint s.machine s.dialect) s.step.state ∧
      s.step.state.machine.counter = s.machine.successor instruction := by
  obtain ⟨-, -, after, hexecute, hstep⟩ := step_of_executed? hexecuted
  have hchanges := changesOnly_of_execute hexecute
  obtain ⟨machine, hmachine, rfl⟩ := exists_of_map_eq_ok hexecute
  rw [hstep]
  exact ⟨hchanges, Machine.counter_of_execute hmachine⟩

theorem memory_showKeys (s : Session) (keypad : Keypad) :
    (s.showKeys keypad).machine.memory = s.machine.memory := by
  obtain ⟨registers, activity, hshown⟩ := s.exists_showKeys_eq keypad
  rw [hshown]

theorem memory_present (s : Session) : s.present.2.machine.memory = s.machine.memory := by
  unfold present Machine.present
  split
  · rfl
  · rfl

/-- A byte of memory only changes in a step whose instruction has it in its footprint. -/
theorem executed_of_peek_ne {operation : Operation} {address : Nat}
    (hmemory : operation.FromMemory) (hgoing : operation.startsOver = false)
    (hchanged : (s.apply operation).2.machine.memory.peek address ≠
      s.machine.memory.peek address) :
    operation = .step ∧ ∃ instruction, s.executed? = some instruction ∧
      address ∈ (instruction.footprint s.machine s.dialect).memory := by
  cases operation with
  | boot program => cases hgoing
  | restart => cases hgoing
  | step =>
      refine ⟨rfl, ?_⟩
      change s.step.state.machine.memory.peek address ≠ _ at hchanged
      cases hexecuted : s.executed? with
      | none =>
          rw [step_of_executed?_eq_none hexecuted] at hchanged
          exact (hchanged rfl).elim
      | some instruction =>
          refine ⟨instruction, rfl, ?_⟩
          by_contra houtside
          exact hchanged ((changesOnly_step hexecuted).1.machine.memory address houtside)
  | perform instruction => exact hmemory.elim
  | performAll instructions => exact hmemory.elim
  | showKeys keypad =>
      exact (hchanged (congrArg (Memory.peek · address) (s.memory_showKeys keypad))).elim
  | countDown => exact (hchanged rfl).elim
  | present => exact (hchanged (congrArg (Memory.peek · address) s.memory_present)).elim

theorem exists_executed_of_peek_ne {history : List Operation} {address : Nat}
    (hmemory : ∀ operation ∈ history, operation.FromMemory)
    (hgoing : ∀ operation ∈ history, operation.startsOver = false)
    (hchanged : (s.run history).machine.memory.peek address ≠ s.machine.memory.peek address) :
    ∃ earlier later instruction, history = earlier ++ .step :: later ∧
      (s.run earlier).executed? = some instruction ∧
      address ∈ (instruction.footprint (s.run earlier).machine (s.run earlier).dialect).memory := by
  induction history generalizing s with
  | nil => exact (hchanged rfl).elim
  | cons operation rest ih =>
      by_cases hfirst : (s.apply operation).2.machine.memory.peek address =
          s.machine.memory.peek address
      · rw [← hfirst] at hchanged
        obtain ⟨earlier, later, instruction, rfl, hexecuted, hmem⟩ :=
          ih (fun later hlater => hmemory later (List.mem_cons_of_mem operation hlater))
            (fun later hlater => hgoing later (List.mem_cons_of_mem operation hlater)) hchanged
        exact ⟨operation :: earlier, later, instruction, rfl, hexecuted, hmem⟩
      · obtain ⟨rfl, instruction, hexecuted, hmem⟩ := executed_of_peek_ne
          (hmemory operation List.mem_cons_self) (hgoing operation List.mem_cons_self) hfirst
        exact ⟨[], rest, instruction, rfl, hexecuted, hmem⟩

/-- What executing an instruction may change.  A step changes nothing outside the footprint of its
instruction and goes on at the successor of it.  So over steps, with looks at the keypad, timer
ticks and frames between them, a byte of memory only differs if one of the instructions was a
decimal conversion or a dump that covered its address. -/
theorem footprint_of_steps :
    (∀ (s : Session) (instruction : Instruction), s.executed? = some instruction →
      s.ChangesOnly (instruction.footprint s.machine s.dialect) s.step.state ∧
        s.step.state.machine.counter = s.machine.successor instruction) ∧
    ∀ (s : Session) (history : List Operation) (address : Nat),
      (∀ operation ∈ history, operation.FromMemory ∧ operation.startsOver = false) →
      (s.run history).machine.memory.peek address ≠ s.machine.memory.peek address →
      ∃ earlier later x, history = earlier ++ .step :: later ∧
        let t := s.run earlier
        let start := t.machine.index.toNat
        (t.executed? = some (.decimal x) ∧ start ≤ address ∧ address < start + 3 ∨
          t.executed? = some (.dump x) ∧ start ≤ address ∧ address ≤ start + x.toNat) := by
  constructor
  · intro s instruction hexecuted
    exact changesOnly_step hexecuted
  · intro s history address hhistory hchanged
    obtain ⟨earlier, later, instruction, hsplit, hexecuted, hmem⟩ := exists_executed_of_peek_ne
      (fun operation hoperation => (hhistory operation hoperation).1)
      (fun operation hoperation => (hhistory operation hoperation).2) hchanged
    rcases (Instruction.mem_footprint_iff _ _ _ _).1 hmem with ⟨x, rfl, hcovers⟩ | ⟨x, rfl, hcovers⟩
    · exact ⟨earlier, later, x, hsplit, .inl ⟨hexecuted, hcovers⟩⟩
    · exact ⟨earlier, later, x, hsplit, .inr ⟨hexecuted, hcovers⟩⟩

/-- A program that puts `7` into `V1` and dumps `V0` and `V1` behind itself. -/
def dumpingProgram : List UInt8 :=
  [0x61, 0x07, 0xA2, 0x06, 0xF1, 0x55]

theorem footprint_of_steps_dump :
    let start := (plain.boot dumpingProgram).state
    let history := [Operation.step, .countDown, .step, .step]
    start.executed? = some (.setByte 1 7) ∧
      start.ChangesOnly { registers := [1] } start.step.state ∧
      start.step.state.machine.counter = 0x202 ∧
      (∀ operation ∈ history, operation.FromMemory ∧ operation.startsOver = false) ∧
      (start.run history).machine.memory.peek 0x207 ≠ start.machine.memory.peek 0x207 ∧
      ∃ earlier later x, history = earlier ++ .step :: later ∧
        let t := start.run earlier
        let index := t.machine.index.toNat
        (t.executed? = some (.decimal x) ∧ index ≤ 0x207 ∧ 0x207 < index + 3 ∨
          t.executed? = some (.dump x) ∧ index ≤ 0x207 ∧ 0x207 ≤ index + x.toNat) := by
  intro start history
  have hexecuted : start.executed? = some (.setByte 1 7) := by decide +kernel
  have hhistory : ∀ operation ∈ history,
      operation.FromMemory ∧ operation.startsOver = false := by decide
  have hchanged : (start.run history).machine.memory.peek 0x207 ≠
      start.machine.memory.peek 0x207 := by decide +kernel
  obtain ⟨hchanges, hcounter⟩ := footprint_of_steps.1 start _ hexecuted
  exact ⟨hexecuted, hchanges, hcounter, hhistory, hchanged,
    footprint_of_steps.2 start history 0x207 hhistory hchanged⟩

end Session

end Chip8
