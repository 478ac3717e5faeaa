import Chip8.Proofs.Decoding
import Chip8.Proofs.Procedure

/-!
When a step fails, and with which fault.

`Instruction.fault?` names the fault of an instruction, `Machine.wordFault?` says the same of the
word it comes from in terms of the digits of that word alone, and `Session.stepFault?` adds what
comes before there is a word.  A step fails with just that fault, and else it succeeds.
-/

namespace Chip8

/-- The fault of a block of bytes that does not lie inside memory. -/
def Memory.blockFault? (start : UInt16) (length : Nat) : Option Fault :=
  if 4096 < start.toNat + length then some (.addressOutOfRange (max start.toNat 4096)) else none

/-- The fault of an instruction. -/
def Instruction.fault? (m : Machine) : Instruction → Option Fault
  | ret => if m.calls.depth = 0 then some .stackUnderflow else none
  | call _ => if m.calls.depth = 16 then some .stackOverflow else none
  | draw _ _ height => Memory.blockFault? m.index height.toNat
  | decimal _ => Memory.blockFault? m.index 3
  | dump x =>
      if x < 16 then Memory.blockFault? m.index (x.toNat + 1) else some (.noSuchRegister x)
  | restore x => Memory.blockFault? m.index (x.toNat + 1)
  | _ => none

/-- The fault of the instruction that a word holds, or of a word that holds none. -/
def Machine.wordFault? (m : Machine) (w : Word) : Option Fault :=
  if w.Unknown then some (.unknownWord w)
  else if w = 0x00EE ∧ m.calls.depth = 0 then some .stackUnderflow
  else if w.family = 0x2 ∧ m.calls.depth = 16 then some .stackOverflow
  else if w.family = 0xD then Memory.blockFault? m.index w.n.toNat
  else if w.family = 0xF ∧ w.nn = 0x33 then Memory.blockFault? m.index 3
  else if w.family = 0xF ∧ (w.nn = 0x55 ∨ w.nn = 0x65) then
    Memory.blockFault? m.index (w.x.toNat + 1)
  else none

/-- The fault of a step. -/
def Session.stepFault? (s : Session) : Option Fault :=
  let m := s.machine
  if s.activity ≠ .running then none
  else if 0xFFE < m.counter.toNat then some (.addressOutOfRange (max m.counter.toNat 0x1000))
  else
    m.wordFault? (Word.ofBytes (m.memory.peek m.counter.toNat)
      (m.memory.peek (m.counter.toNat + 1)))

/-- The faults that executing words can end with. -/
inductive Fault.OfWord : Fault → Prop
  | addressOutOfRange (address : Nat) : OfWord (.addressOutOfRange address)
  | stackOverflow : OfWord .stackOverflow
  | stackUnderflow : OfWord .stackUnderflow
  | unknownWord (word : UInt16) : OfWord (.unknownWord word)

/-- The fault that an attempt ended with. -/
def Fault.of? {Result : Type} : Except Fault Result → Option Fault
  | .ok _ => none
  | .error fault => some fault

theorem Fault.of?_map {Before After : Type} (change : Before → After)
    (attempt : Except Fault Before) : Fault.of? (attempt.map change) = Fault.of? attempt := by
  cases attempt with
  | ok result => rfl
  | error fault => rfl

theorem Fault.of?_ofExcept (s : Session) (attempt : Except Fault Session) :
    (Outcome.ofExcept s attempt).fault = Fault.of? attempt := by
  cases attempt with
  | ok after => rfl
  | error fault => rfl

namespace Memory

theorem blockFault?_eq (start : UInt16) {length : Nat} (hlength : length ≤ 256) :
    blockFault? start length =
      if Fits start length then none else some (refusal start length) := by
  rw [blockFault?, refusal_of_le start hlength]
  by_cases hfits : Fits start length
  · have hinside : ¬ 4096 < start.toNat + length := Nat.not_lt.2 hfits
    rw [if_pos hfits, if_neg hinside]
  · have houtside : 4096 < start.toNat + length := Nat.lt_of_not_le hfits
    rw [if_neg hfits, if_pos houtside]
    rfl

theorem fault_load (m : Memory) (start : UInt16) {length : Nat} (hlength : length ≤ 256) :
    Fault.of? (m.load start length) = blockFault? start length := by
  rw [blockFault?_eq start hlength, load]
  split
  · rfl
  · rfl

theorem fault_store (m : Memory) (start : UInt16) {bytes : List UInt8}
    (hlength : bytes.length ≤ 256) :
    Fault.of? (m.store start bytes) = blockFault? start bytes.length := by
  rw [blockFault?_eq start hlength, store]
  split
  · rfl
  · rfl

end Memory

namespace CallStack

theorem fault_push (calls : CallStack) (address : UInt16) :
    Fault.of? (calls.push address) =
      if calls.depth = 16 then some .stackOverflow else none := by
  have hdepth := calls.depth_le
  by_cases hfull : calls.frames.length < limit
  · have hroom : ¬ calls.depth = 16 := Nat.ne_of_lt hfull
    rw [push, dif_pos hfull, if_neg hroom]
    rfl
  · have hlast : calls.depth = 16 := Nat.le_antisymm hdepth (Nat.le_of_not_lt hfull)
    rw [push, dif_neg hfull, if_pos hlast]
    rfl

theorem fault_pop (calls : CallStack) :
    Fault.of? calls.pop = if calls.depth = 0 then some .stackUnderflow else none := by
  obtain ⟨_ | ⟨address, rest⟩, hdepth⟩ := calls
  · rfl
  · rfl

end CallStack

/-- An instruction fails with the fault that `Instruction.fault?` names. -/
theorem Machine.fault_execute (m : Machine) (dialect : Dialect) (randomByte : UInt8)
    (instruction : Instruction) :
    Fault.of? (m.execute dialect randomByte instruction) = instruction.fault? m := by
  cases instruction with
  | ret =>
      rw [execute, Fault.of?_map, pop, Fault.of?_map]
      exact CallStack.fault_pop m.calls
  | call address =>
      rw [execute, Fault.of?_map, push, Fault.of?_map]
      exact CallStack.fault_push m.calls _
  | draw x y height =>
      rw [execute, Fault.of?_map, drawFromIndex, Fault.of?_map]
      exact Memory.fault_load m.memory m.index (Nat.le_of_lt height.toNat_lt)
  | decimal x =>
      rw [execute, Fault.of?_map, store, Fault.of?_map]
      exact Memory.fault_store m.memory m.index (show 3 ≤ 256 by decide)
  | dump x =>
      rw [execute, Fault.of?_map, dump, Instruction.fault?]
      split
      · rename_i hregister
        have hlength : (m.registers.first (x.toNat + 1)).length = x.toNat + 1 :=
          Registers.length_first m.registers hregister
        have hshort : (m.registers.first (x.toNat + 1)).length ≤ 256 := by
          rw [hlength]
          exact x.toNat_lt
        rw [Fault.of?_map, store, Fault.of?_map, Memory.fault_store _ _ hshort, hlength]
      · rfl
  | restore x =>
      rw [execute, Fault.of?_map, restore, Fault.of?_map]
      exact Memory.fault_load m.memory m.index x.toNat_lt
  | _ => rfl

theorem Session.fault_perform (s : Session) (instruction : Instruction) :
    (s.perform instruction).fault = instruction.fault? s.machine := by
  rw [perform_eq, Fault.of?_ofExcept, execute, Fault.of?_map, Machine.fault_execute]

theorem Instruction.fault?_of_decode {w : Word} {instruction : Instruction} (m : Machine)
    (hdecode : decode w = some instruction) : instruction.fault? m = m.wordFault? w := by
  have hknown : ¬ w.Unknown := by
    intro hunknown
    rw [(decode_eq_none_iff w).2 hunknown] at hdecode
    cases hdecode
  have hreturn := w.eq_return_iff
  simp only [Machine.wordFault?, if_neg hknown, hreturn]
  rw [decode] at hdecode
  split at hdecode
  case h_1 hfamily =>
    cases hdecode
    unfold decodeRoutine
    split
    case h_3 hclear hret =>
      simp [fault?, hfamily, show w.nnn ≠ 0x0EE from hret]
    all_goals simp [fault?, *]
  case h_9 hfamily =>
    obtain ⟨operation, -, rfl⟩ := Option.map_eq_some_iff.1 hdecode
    simp [fault?, hfamily]
  case h_15 hfamily =>
    unfold decodeKey? at hdecode
    split at hdecode
    case h_3 => cases hdecode
    all_goals
      cases hdecode
      simp [fault?, hfamily]
  case h_16 =>
    have hfamily : w.family = 0xF := w.family_eq_last (by simp_all)
    have hx : w.x < 16 := w.x_lt
    unfold decodeMisc? at hdecode
    split at hdecode
    case h_10 => cases hdecode
    all_goals
      rename_i hbyte
      cases hdecode
      simp [fault?, hfamily, hbyte, hx]
  all_goals
    rename_i hfamily
    cases hdecode
    simp [fault?, hfamily]

theorem Machine.fetch_eq (m : Machine) :
    m.fetch =
      if 0xFFE < m.counter.toNat then .error (.addressOutOfRange (max m.counter.toNat 0x1000))
      else .ok (Word.ofBytes (m.memory.peek m.counter.toNat)
        (m.memory.peek (m.counter.toNat + 1))) := by
  rw [fetch, Memory.loadWord]
  by_cases hfits : Memory.Fits m.counter 2
  · have hinside : ¬ 0xFFE < m.counter.toNat := Nat.not_lt.2 (Nat.le_of_add_le_add_right hfits)
    rw [if_pos hfits, if_neg hinside]
  · have houtside : 0xFFE < m.counter.toNat := by
      apply Nat.lt_of_not_le
      intro hinside
      exact hfits (Nat.add_le_add_right hinside 2)
    rw [if_neg hfits, if_pos houtside]
    rfl

namespace Session

theorem fault_step_of_fetch {s : Session} {w : Word} (hactivity : s.activity = .running)
    (hfetch : s.machine.fetch = .ok w) : s.step.fault = s.machine.wordFault? w := by
  rw [step_of_running hactivity, Machine.nextInstruction, hfetch]
  cases hdecode : Instruction.decode w with
  | none =>
      have hunknown : w.Unknown := (Instruction.decode_eq_none_iff w).1 hdecode
      simp only [hdecode, Machine.wordFault?, if_pos hunknown]
      rfl
  | some instruction =>
      simp only [hdecode]
      rw [fault_perform]
      exact Instruction.fault?_of_decode s.machine hdecode

theorem fault_step (s : Session) : s.step.fault = s.stepFault? := by
  cases hactivity : s.activity with
  | awaitingKey register =>
      rw [step_of_awaiting hactivity, stepFault?, if_pos (by rw [hactivity]; nofun)]
      rfl
  | running =>
      have hfetch := s.machine.fetch_eq
      rw [stepFault?, if_neg (not_not_intro hactivity)]
      split at hfetch
      · rename_i houtside
        rw [if_pos houtside, step_of_running hactivity, Machine.nextInstruction, hfetch]
        rfl
      · rename_i hinside
        rw [if_neg hinside]
        exact fault_step_of_fetch hactivity hfetch

end Session

theorem Memory.ofWord_of_blockFault? {start : UInt16} {length : Nat} {fault : Fault}
    (hfault : blockFault? start length = some fault) : fault.OfWord := by
  rw [blockFault?, Option.ite_none_right_eq_some, Option.some.injEq] at hfault
  obtain ⟨-, rfl⟩ := hfault
  exact .addressOutOfRange _

theorem Machine.ofWord_of_wordFault? {m : Machine} {w : Word} {fault : Fault}
    (hfault : m.wordFault? w = some fault) : fault.OfWord := by
  rw [wordFault?] at hfault
  repeat' split at hfault
  · cases hfault
    exact .unknownWord w
  · cases hfault
    exact .stackUnderflow
  · cases hfault
    exact .stackOverflow
  · exact Memory.ofWord_of_blockFault? hfault
  · exact Memory.ofWord_of_blockFault? hfault
  · exact Memory.ofWord_of_blockFault? hfault
  · cases hfault

namespace Session

theorem ofWord_of_fault_step {s : Session} {fault : Fault} (hfault : s.step.fault = some fault) :
    fault.OfWord := by
  rw [fault_step, stepFault?] at hfault
  split at hfault
  · cases hfault
  · split at hfault
    · cases hfault
      exact .addressOutOfRange _
    · exact Machine.ofWord_of_wordFault? hfault

theorem fault_step_ne_programTooLarge (s : Session) (size limit : Nat) :
    s.step.fault ≠ some (.programTooLarge size limit) :=
  fun hfault => nomatch ofWord_of_fault_step hfault

/-- Drawing no rows reads nothing, and yet the place it would read from has to exist. -/
theorem fault_step_of_empty_draw {s : Session} {w : Word} (hactivity : s.activity = .running)
    (hfetch : s.machine.fetch = .ok w) (hfamily : w.family = 0xD) (hn : w.n = 0) :
    s.step.fault =
      if 0x1000 < s.machine.index.toNat then some (.addressOutOfRange s.machine.index.toNat)
      else none := by
  have hknown : ¬ w.Unknown := by simp [Word.Unknown, hfamily]
  have hreturn : w ≠ 0x00EE := by
    intro hw
    rw [hw] at hfamily
    cases hfamily
  have hdraw : s.machine.wordFault? w = Memory.blockFault? s.machine.index 0 := by
    simp [Machine.wordFault?, hknown, hreturn, hfamily, hn]
  rw [fault_step_of_fetch hactivity hfetch, hdraw, Memory.blockFault?, Nat.add_zero]
  by_cases houtside : 0x1000 < s.machine.index.toNat
  · rw [if_pos houtside, if_pos houtside, Nat.max_eq_left (Nat.le_of_lt houtside)]
  · rw [if_neg houtside, if_neg houtside]

/-- What makes a step fail, and with which fault. -/
theorem step_fault (s : Session) :
    s.step.fault = s.stepFault? ∧
      (∀ size limit, s.step.fault ≠ some (.programTooLarge size limit)) ∧
      ∀ w, s.activity = .running → s.machine.fetch = .ok w → w.family = 0xD → w.n = 0 →
        s.step.fault =
          if 0x1000 < s.machine.index.toNat then some (.addressOutOfRange s.machine.index.toNat)
          else none :=
  ⟨fault_step s, fault_step_ne_programTooLarge s,
    fun _ hactivity hfetch hfamily hn => fault_step_of_empty_draw hactivity hfetch hfamily hn⟩

theorem step_fault_beyond_memory :
    let start : Session :=
      { plain with
        machine :=
          { Machine.initial with
            memory := Memory.zero.poke 0 0xD0
            counter := 0
            index := 0x1001 } }
    start.machine.fetch = .ok 0xD000 ∧
      start.step.fault = some (.addressOutOfRange 0x1001) := by
  intro start
  have hfetch : start.machine.fetch = .ok 0xD000 := by
    rw [Machine.fetch_eq, if_neg (by decide)]
    show Except.ok (Word.ofBytes ((Memory.zero.poke 0 0xD0).peek 0)
      ((Memory.zero.poke 0 0xD0).peek 1)) = _
    rw [Memory.peek_poke _ _ _ _ (by decide), Memory.peek_poke _ _ _ _ (by decide),
      Memory.peek_zero]
    rfl
  exact ⟨hfetch, (step_fault start).2.2 0xD000 rfl hfetch rfl rfl⟩

end Session

end Chip8
