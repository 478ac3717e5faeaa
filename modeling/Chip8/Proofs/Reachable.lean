import Chip8.Proofs.Decoding
import Chip8.Proofs.Procedure
import Chip8.Session.Operation

/-!
What holds of every session whose instructions all come out of memory.

`Machine.Continues` says once where an instruction goes on and what it does to the calls in
progress.  A fetch bounds the address of the instruction, decoding bounds its operands, and so
every part of `Session.Sound` follows from all of them together: an operation keeps it, and so does
a history.
-/

namespace Chip8

/-- The operation executes no instruction other than the next one in memory. -/
def Operation.FromMemory : Operation → Prop
  | perform _ => False
  | performAll _ => False
  | _ => True

instance (operation : Operation) : Decidable operation.FromMemory :=
  match operation with
  | .perform _ => .isFalse id
  | .performAll _ => .isFalse id
  | .boot _ => .isTrue trivial
  | .restart => .isTrue trivial
  | .step => .isTrue trivial
  | .showKeys _ => .isTrue trivial
  | .countDown => .isTrue trivial
  | .present => .isTrue trivial

/-- Where an instruction takes a machine, and what becomes of the calls in progress. -/
inductive Machine.Continues (m after : Machine) : Instruction → Prop
  | next {instruction : Instruction} (hcounter : after.counter = m.counter + instructionSize)
      (hcalls : after.calls = m.calls) : Continues m after instruction
  | skip {condition : Condition}
      (hcounter : after.counter = m.counter + instructionSize + instructionSize)
      (hcalls : after.calls = m.calls) : Continues m after (.skipIf condition)
  | jump {address : UInt16} (hcounter : after.counter = address)
      (hcalls : after.calls = m.calls) : Continues m after (.jump address)
  | jumpOffset {address : UInt16}
      (hcounter : after.counter = (m.registers.get 0).toUInt16 + address)
      (hcalls : after.calls = m.calls) : Continues m after (.jumpOffset address)
  | call {address : UInt16} (hcounter : after.counter = address)
      (hframes : after.calls.frames = (m.counter + instructionSize) :: m.calls.frames) :
      Continues m after (.call address)
  | ret (hframes : m.calls.frames = after.counter :: after.calls.frames) : Continues m after .ret

theorem exists_of_map_eq_ok {Before After : Type} {change : Before → After}
    {attempt : Except Fault Before} {after : After} (hmap : attempt.map change = .ok after) :
    ∃ before, attempt = .ok before ∧ change before = after := by
  cases attempt with
  | error fault => cases hmap
  | ok before =>
      cases hmap
      exact ⟨before, rfl, rfl⟩

namespace Machine

theorem passBlock_counter (m : Machine) (dialect : Dialect) (length : Nat) :
    (m.passBlock dialect length).counter = m.counter := by
  rw [passBlock]
  split
  · rfl
  · rfl

theorem passBlock_calls (m : Machine) (dialect : Dialect) (length : Nat) :
    (m.passBlock dialect length).calls = m.calls := by
  rw [passBlock]
  split
  · rfl
  · rfl

theorem continues_of_execute {m after : Machine} {dialect : Dialect} {randomByte : UInt8}
    {instruction : Instruction}
    (hexecute : m.execute dialect randomByte instruction = .ok after) :
    m.Continues after instruction := by
  cases instruction with
  | ret =>
      obtain ⟨⟨address, returned⟩, hpop, rfl⟩ := exists_of_map_eq_ok hexecute
      obtain ⟨⟨_, calls⟩, hcalls, hreturned⟩ := exists_of_map_eq_ok hpop
      cases hreturned
      exact .ret ((CallStack.pop_eq_ok_iff _ _ _).1 hcalls)
  | jump address =>
      cases hexecute
      exact .jump rfl rfl
  | call address =>
      obtain ⟨called, hpush, rfl⟩ := exists_of_map_eq_ok hexecute
      obtain ⟨calls, hcalls, rfl⟩ := exists_of_map_eq_ok hpush
      exact .call rfl ((CallStack.push_eq_ok_iff _ _ _).1 hcalls)
  | skipIf condition =>
      rw [execute] at hexecute
      cases hexecute
      split
      · exact .skip rfl rfl
      · exact .next rfl rfl
  | jumpOffset address =>
      cases hexecute
      exact .jumpOffset rfl rfl
  | draw x y height =>
      obtain ⟨drawn, hdraw, rfl⟩ := exists_of_map_eq_ok hexecute
      obtain ⟨sprite, -, rfl⟩ := exists_of_map_eq_ok hdraw
      exact .next rfl rfl
  | decimal x =>
      obtain ⟨stored, hstore, rfl⟩ := exists_of_map_eq_ok hexecute
      obtain ⟨memory, -, rfl⟩ := exists_of_map_eq_ok hstore
      exact .next rfl rfl
  | dump x =>
      obtain ⟨dumped, hdump, rfl⟩ := exists_of_map_eq_ok hexecute
      rw [dump] at hdump
      split at hdump
      · obtain ⟨stored, hstore, rfl⟩ := exists_of_map_eq_ok hdump
        obtain ⟨memory, -, rfl⟩ := exists_of_map_eq_ok hstore
        refine .next ?_ ?_
        · rw [advance, passBlock_counter]
        · rw [advance, passBlock_calls]
      · cases hdump
  | restore x =>
      obtain ⟨restored, hrestore, rfl⟩ := exists_of_map_eq_ok hexecute
      obtain ⟨values, -, rfl⟩ := exists_of_map_eq_ok hrestore
      refine .next ?_ ?_
      · rw [advance, passBlock_counter]
      · rw [advance, passBlock_calls]
  | _ =>
      cases hexecute
      exact .next rfl rfl

end Machine

/-- The program counter and the addresses to return to are near the address space. -/
structure Machine.InRange (m : Machine) : Prop where
  counter : m.counter.toNat ≤ 0x10FE
  returns : ∀ address ∈ m.calls.frames, 0x0002 ≤ address.toNat ∧ address.toNat ≤ 0x1000

/-- What holds of a session as long as its instructions come out of memory. -/
structure Session.Sound (s : Session) : Prop where
  machine : s.machine.InRange
  register : ∀ register, s.activity = .awaitingKey register → register.toNat ≤ 15
  skipped : ∀ address ∈ s.skipped, address.toNat ≤ 0xFFF ∧ address ≠ 0x0E0 ∧ address ≠ 0x0EE

namespace Machine

theorem toNat_add_instructionSize {address : UInt16} (haddress : address.toNat < 0xFFFE) :
    (address + instructionSize).toNat = address.toNat + 2 := by
  rw [UInt16.toNat_add]
  exact Nat.mod_eq_of_lt (Nat.add_lt_add_right haddress 2)

theorem counter_le_of_fetch {m : Machine} {word : Word} (hfetch : m.fetch = .ok word) :
    m.counter.toNat ≤ 0xFFE := by
  unfold fetch Memory.loadWord at hfetch
  split at hfetch
  · rename_i hfits
    exact Nat.le_of_add_le_add_right hfits
  · cases hfetch

/-- An instruction that was fetched and decoded leads from addresses in range to such again. -/
theorem inRange_of_continues {m after : Machine} {instruction : Instruction} (hm : m.InRange)
    (hfetched : m.counter.toNat ≤ 0xFFE) (hencodable : instruction.Encodable)
    (hcontinues : m.Continues after instruction) : after.InRange := by
  have hnext : (m.counter + instructionSize).toNat = m.counter.toNat + 2 :=
    toNat_add_instructionSize (by omega)
  cases hcontinues with
  | next hcounter hcalls =>
      refine ⟨?_, by rw [hcalls]; exact hm.returns⟩
      rw [hcounter, hnext]
      omega
  | skip hcounter hcalls =>
      refine ⟨?_, by rw [hcalls]; exact hm.returns⟩
      rw [hcounter, toNat_add_instructionSize (by omega), hnext]
      omega
  | @jump address hcounter hcalls =>
      have haddress : address.toNat < 4096 := hencodable.2
      refine ⟨?_, by rw [hcalls]; exact hm.returns⟩
      rw [hcounter]
      omega
  | @jumpOffset address hcounter hcalls =>
      have haddress : address.toNat < 4096 := hencodable.2
      have hoffset := (m.registers.get 0).toNat_lt
      refine ⟨?_, by rw [hcalls]; exact hm.returns⟩
      rw [hcounter, UInt16.toNat_add, UInt8.toNat_toUInt16]
      omega
  | @call address hcounter hframes =>
      have haddress : address.toNat < 4096 := hencodable.2
      refine ⟨?_, ?_⟩
      · rw [hcounter]
        omega
      · rw [hframes]
        intro back hback
        rcases List.mem_cons.1 hback with rfl | hearlier
        · rw [hnext]
          omega
        · exact hm.returns back hearlier
  | ret hframes =>
      have hreturns := hm.returns
      rw [hframes] at hreturns
      have hcounter := hreturns after.counter List.mem_cons_self
      refine ⟨?_, fun address haddress => hreturns address (List.mem_cons_of_mem _ haddress)⟩
      omega

theorem inRange_initial : initial.InRange :=
  ⟨by decide, nofun⟩

end Machine

namespace Session

theorem sound_new (dialect : Dialect) (random : RandomBytes) : (new dialect random).Sound :=
  ⟨Machine.inRange_initial, nofun, nofun⟩

theorem sound_boot (s : Session) (program : List UInt8) : (s.boot program).state.Sound := by
  have hrestart : s.restart.Sound := sound_new s.dialect s.random
  obtain ⟨memory, hbooted⟩ := s.exists_boot_eq program
  rw [hbooted]
  exact ⟨⟨hrestart.machine.counter, hrestart.machine.returns⟩, hrestart.register, hrestart.skipped⟩

theorem register_of_account {s : Session} {instruction : Instruction} (hsound : s.Sound)
    (hencodable : instruction.Encodable) (register : UInt8)
    (hactivity : (s.account instruction).activity = .awaitingKey register) :
    register.toNat ≤ 15 := by
  cases instruction with
  | awaitKey x =>
      cases hactivity
      have hx : register.toNat < 16 := hencodable.1 register List.mem_cons_self
      exact Nat.le_of_lt_succ hx
  | _ => exact hsound.register register hactivity

theorem skipped_of_account {s : Session} {instruction : Instruction} (hsound : s.Sound)
    (hencodable : instruction.Encodable) (address : UInt16)
    (hskipped : address ∈ (s.account instruction).skipped) :
    address.toNat ≤ 0xFFF ∧ address ≠ 0x0E0 ∧ address ≠ 0x0EE := by
  cases instruction with
  | routine new =>
      rcases (mem_insertAscending new address s.skipped).1 hskipped with rfl | hold
      · obtain ⟨-, haddress, hclear, hret⟩ := hencodable
        have hlt : address.toNat < 4096 := haddress
        exact ⟨Nat.le_of_lt_succ hlt, hclear, hret⟩
      · exact hsound.skipped address hold
  | _ => exact hsound.skipped address hskipped

theorem sound_of_execute {s after : Session} {instruction : Instruction} (hsound : s.Sound)
    (hfetched : s.machine.counter.toNat ≤ 0xFFE) (hencodable : instruction.Encodable)
    (hexecute : s.execute instruction = .ok after) : after.Sound := by
  obtain ⟨machine, hmachine, rfl⟩ := exists_of_map_eq_ok hexecute
  have hcontinues := Machine.continues_of_execute hmachine
  refine ⟨?_, ?_, ?_⟩
  · exact Machine.inRange_of_continues hsound.machine hfetched hencodable hcontinues
  · exact register_of_account hsound hencodable
  · exact skipped_of_account hsound hencodable

theorem sound_step {s : Session} (hsound : s.Sound) : s.step.state.Sound := by
  rcases s.step_cases with hdone | ⟨fault, hstopped⟩ |
    ⟨word, instruction, after, hfetch, hdecode, hexecute, hdone⟩
  · rw [hdone]
    exact hsound
  · rw [hstopped]
    exact hsound
  · rw [hdone]
    have hfetched := Machine.counter_le_of_fetch hfetch
    have hencodable := Instruction.encodable_of_decode hdecode
    exact sound_of_execute hsound hfetched hencodable hexecute

theorem sound_showKeys {s : Session} (hsound : s.Sound) (keypad : Keypad) :
    (s.showKeys keypad).Sound := by
  obtain ⟨⟨hcounter, hreturns⟩, hregister, hskipped⟩ := hsound
  rw [showKeys]
  split
  · exact ⟨⟨hcounter, hreturns⟩, hregister, hskipped⟩
  · split
    · exact ⟨⟨hcounter, hreturns⟩, hregister, hskipped⟩
    · exact ⟨⟨hcounter, hreturns⟩, nofun, hskipped⟩

theorem sound_present {s : Session} (hsound : s.Sound) : s.present.2.Sound := by
  obtain ⟨⟨hcounter, hreturns⟩, hregister, hskipped⟩ := hsound
  refine ⟨?_, hregister, hskipped⟩
  unfold present Machine.present
  split
  · exact ⟨hcounter, hreturns⟩
  · exact ⟨hcounter, hreturns⟩

theorem sound_apply {s : Session} {operation : Operation} (hsound : s.Sound)
    (hmemory : operation.FromMemory) : (s.apply operation).2.Sound := by
  cases operation with
  | boot program => exact sound_boot s program
  | restart => exact sound_new s.dialect s.random
  | step => exact sound_step hsound
  | perform instruction => exact hmemory.elim
  | performAll instructions => exact hmemory.elim
  | showKeys keypad => exact sound_showKeys hsound keypad
  | countDown =>
      exact ⟨⟨hsound.machine.counter, hsound.machine.returns⟩, hsound.register, hsound.skipped⟩
  | present => exact sound_present hsound

theorem sound_run {s : Session} {history : List Operation} (hsound : s.Sound)
    (hmemory : ∀ operation ∈ history, operation.FromMemory) : (s.run history).Sound := by
  induction history generalizing s with
  | nil => exact hsound
  | cons operation rest ih =>
      have hfirst := sound_apply hsound (hmemory operation List.mem_cons_self)
      exact ih hfirst fun later hlater => hmemory later (List.mem_cons_of_mem operation hlater)

/-- Wherever a history whose instructions all come out of memory leads a new session, every part
of the session is in its range; in particular the address behind an instruction is an address two
or four further on, without wrapping around. -/
theorem ranges_of_run (dialect : Dialect) (random : RandomBytes) (history : List Operation)
    (hmemory : ∀ operation ∈ history, operation.FromMemory) :
    let s := (new dialect random).run history
    s.machine.calls.frames.length ≤ 16 ∧
      (∀ address ∈ s.machine.calls.frames, 0x0002 ≤ address ∧ address ≤ 0x1000) ∧
      s.machine.counter ≤ 0x10FE ∧
      (s.machine.counter + Machine.instructionSize).toNat = s.machine.counter.toNat + 2 ∧
      (s.machine.counter + Machine.instructionSize + Machine.instructionSize).toNat =
        s.machine.counter.toNat + 4 ∧
      (∀ register, s.activity = .awaitingKey register → register ≤ 15) ∧
      (∀ address ∈ s.skipped, address ≤ 0xFFF ∧ address ≠ 0x0E0 ∧ address ≠ 0x0EE) ∧
      ∀ cell ∈ s.machine.screen.cells, cell = 0 ∨ cell = 1 := by
  intro s
  have hsound : s.Sound := sound_run (sound_new dialect random) hmemory
  have hcounter := hsound.machine.counter
  have hnext : (s.machine.counter + Machine.instructionSize).toNat = s.machine.counter.toNat + 2 :=
    Machine.toNat_add_instructionSize (by omega)
  refine ⟨?_, ?_, ?_, hnext, ?_, ?_, ?_, ?_⟩
  · exact s.machine.calls.depth_le
  · exact hsound.machine.returns
  · exact hcounter
  · rw [Machine.toNat_add_instructionSize (by omega), hnext]
  · exact hsound.register
  · exact hsound.skipped
  · exact s.machine.screen.binary

theorem ranges_of_run_standard :
    let history := [Operation.boot [0xF3, 0x0A], .step, .countDown, .step, .present]
    let s := (new .standard (.ofBytes [])).run history
    (∀ operation ∈ history, operation.FromMemory) ∧
      s.machine.counter ≤ 0x10FE ∧
      ∀ register, s.activity = .awaitingKey register → register ≤ 15 := by
  intro history s
  have hmemory : ∀ operation ∈ history, operation.FromMemory := by decide
  obtain ⟨-, -, hcounter, -, -, hregister, -, -⟩ :=
    ranges_of_run .standard (.ofBytes []) history hmemory
  exact ⟨hmemory, hcounter, hregister⟩

end Session

end Chip8
