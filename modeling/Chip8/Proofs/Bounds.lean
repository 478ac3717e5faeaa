import Chip8.Proofs.Encoding
import Chip8.Proofs.Guarded
import Chip8.Proofs.RandomDraws

/-!
Steps with every bound asked for.

Guarded execution does the work of an instruction with guarded parts.  For operands that come from a
word it comes to the same as `Machine.execute`, whatever the machine is, and so a guarded step ends
as a step does.  For other operands just two instructions can crash: a dump of registers that do not
exist, and a jump whose target does not fit.  An instruction is handed its random byte; that the
place of this byte is in reach is a property of whole runs.
-/

namespace Chip8

open Guarded

namespace Machine

def guardedFetch (m : Machine) : Guarded Word := do
  let bytes ← m.memory.guardedLoad m.counter 2
  let high ← entry bytes 0
  let low ← entry bytes 1
  return Word.ofBytes high low

/-- Instructions that take no part, look at no entry and add nothing of fixed width are executed as
they are; a register number names a register whatever it is. -/
def guardedExecute (m : Machine) (dialect : Dialect) (randomByte : UInt8) :
    Instruction → Guarded Machine
  | .ret => do
      let (address, calls) ← m.calls.guardedPop
      return ({ m with calls }).goTo address
  | .call address => do
      let calls ← m.calls.guardedPush (m.counter + instructionSize)
      return ({ m with calls }).goTo address
  | .jumpOffset address => do
      let target ← sum UInt16.size (m.registers.get 0).toNat address.toNat
      return m.goTo (UInt16.ofNat target)
  | .draw x y height => do
      let sprite ← m.memory.guardedLoad m.index height.toNat
      let drawing ← m.screen.guardedDraw (m.registers.get x) (m.registers.get y) sprite
      return ({ m with
        screen := drawing.screen
        redraw := true
        registers := m.registers.setFlag drawing.collides }).advance
  | .addIndex x => do
      let index ← sum UInt32.size m.index.toNat (m.registers.get x).toNat
      return ({ m with
        index := UInt16.ofNat index
        registers :=
          if dialect.flagsIndex then m.registers.setFlag (decide (0xFFF < index))
          else m.registers }).advance
  | .glyph x => do
      let offset ← product UInt16.size Font.glyphHeight.toNat (m.registers.get x).toNat
      let index ← sum UInt16.size Font.base.toNat offset
      return ({ m with index := UInt16.ofNat index }).advance
  | .decimal x => do
      let memory ← m.memory.guardedStore m.index (decimalDigits (m.registers.get x))
      return ({ m with memory }).advance
  | .dump x => do
      let count ← sum placeLimit x.toNat 1
      let values ← part m.registers.toList 0 count
      let memory ← m.memory.guardedStore m.index values
      return (({ m with memory }).passBlock dialect count).advance
  | .restore x => do
      let count ← sum placeLimit x.toNat 1
      let values ← m.memory.guardedLoad m.index count
      return (({ m with registers := m.registers.setAll 0 values }).passBlock dialect count).advance
  | instruction => lift (m.execute dialect randomByte instruction)

end Machine

/-- A step with every bound asked for. -/
def Session.guardedStep (s : Session) : Guarded Session :=
  match s.activity with
  | .awaitingKey _ => return s
  | .running => do
      let word ← s.machine.guardedFetch
      match Instruction.decode word with
      | some instruction =>
          let machine ←
            s.machine.guardedExecute s.dialect (s.randomByteFor instruction) instruction
          return { s.account instruction with machine }
      | none => throw (.fault (.unknownWord word))

theorem Font.toNat_lt (number : UInt8) :
    base.toNat + glyphHeight.toNat * number.toNat < 65536 := by
  have hnumber := number.toNat_lt
  simp only [show base.toNat = 0 from rfl, show glyphHeight.toNat = 5 from rfl]
  omega

/-- What keeps an instruction within its bounds, beyond what the machine itself asks for. -/
def Instruction.Bounded (m : Machine) : Instruction → Prop
  | dump x => x < 16
  | jumpOffset address => (m.registers.get 0).toNat + address.toNat < 65536
  | _ => True

theorem Instruction.bounded_of_decode {w : Word} {instruction : Instruction} (m : Machine)
    (hdecode : decode w = some instruction) : instruction.Bounded m := by
  have hencodable := encodable_of_decode hdecode
  cases instruction with
  | dump x => exact hencodable.1 x List.mem_cons_self
  | jumpOffset address =>
      have haddress : address.toNat < 4096 := hencodable.2
      have hregister := (m.registers.get 0).toNat_lt
      show (m.registers.get 0).toNat + address.toNat < 65536
      omega
  | _ => trivial

namespace Machine

theorem guardedFetch_eq (m : Machine) : m.guardedFetch = lift m.fetch := by
  rw [guardedFetch, Memory.guardedLoad_eq m.memory m.counter (by decide), fetch,
    Memory.loadWord_eq]
  cases hload : m.memory.load m.counter 2 with
  | ok bytes =>
      obtain ⟨-, rfl⟩ := (Memory.load_eq_ok_iff _ _ _ _).1 hload
      rfl
  | error fault => rfl

theorem sum_one (x : UInt8) : sum placeLimit x.toNat 1 = .ok (x.toNat + 1) := by
  have hx := x.toNat_lt
  exact placeSum_of_le (by omega)

/-- Within its bounds a guarded instruction is that instruction. -/
theorem guardedExecute_eq {m : Machine} {instruction : Instruction} (dialect : Dialect)
    (randomByte : UInt8) (hbounded : instruction.Bounded m) :
    m.guardedExecute dialect randomByte instruction =
      lift (m.execute dialect randomByte instruction) := by
  cases instruction with
  | ret =>
      rw [guardedExecute, CallStack.guardedPop_eq, execute, pop]
      cases m.calls.pop with
      | ok popped => rfl
      | error fault => rfl
  | call address =>
      rw [guardedExecute, CallStack.guardedPush_eq, execute, push]
      cases m.calls.push (m.counter + instructionSize) with
      | ok calls => rfl
      | error fault => rfl
  | jumpOffset address =>
      have htarget : UInt16.ofNat ((m.registers.get 0).toNat + address.toNat) =
          (m.registers.get 0).toUInt16 + address := by
        apply UInt16.toNat_inj.1
        simp
      have hsum : sum UInt16.size (m.registers.get 0).toNat address.toNat =
          .ok ((m.registers.get 0).toNat + address.toNat) := sum_of_lt hbounded
      rw [guardedExecute, bind_of_ok _ hsum, htarget]
      rfl
  | draw x y height =>
      have hheight := Nat.le_of_lt height.toNat_lt
      rw [guardedExecute, Memory.guardedLoad_eq _ _ hheight, execute, drawFromIndex]
      cases hload : m.memory.load m.index height.toNat with
      | ok sprite =>
          obtain ⟨-, rfl⟩ := (Memory.load_eq_ok_iff _ _ _ _).1 hload
          rw [bind_of_ok _ (lift_ok _),
            bind_of_ok _ (Screen.guardedDraw_eq _ _ _ (by simpa using hheight))]
          rfl
      | error fault => rfl
  | addIndex x =>
      have hindex := m.index.toNat_lt
      have hregister := (m.registers.get x).toNat_lt
      have hsum : m.index.toNat + (m.registers.get x).toNat < UInt32.size := by
        rw [UInt32.size]
        omega
      have hwrap : UInt16.ofNat (m.index.toNat + (m.registers.get x).toNat) =
          m.index + (m.registers.get x).toUInt16 := by
        apply UInt16.toNat_inj.1
        simp
      rw [guardedExecute, bind_of_ok _ (sum_of_lt hsum), hwrap]
      rfl
  | glyph x =>
      have hindex := Font.toNat_lt (m.registers.get x)
      have hoffset := Nat.lt_of_le_of_lt (Nat.le_add_left _ Font.base.toNat) hindex
      have haddress :
          UInt16.ofNat (Font.base.toNat + Font.glyphHeight.toNat * (m.registers.get x).toNat) =
            Font.address (m.registers.get x) := by
        apply UInt16.toNat_inj.1
        simp [Font.address]
      rw [guardedExecute, bind_of_ok _ (product_of_lt hoffset), bind_of_ok _ (sum_of_lt hindex),
        haddress]
      rfl
  | decimal x =>
      rw [guardedExecute, Memory.guardedStore_eq _ _ (by simp [decimalDigits]), execute, store]
      cases m.memory.store m.index (decimalDigits (m.registers.get x)) with
      | ok memory => rfl
      | error fault => rfl
  | dump x =>
      have hx : x < 16 := hbounded
      have hregister : x.toNat + 1 ≤ 16 := hx
      have hpart : part m.registers.toList 0 (x.toNat + 1) =
          .ok (m.registers.first (x.toNat + 1)) :=
        part_of_le (Nat.zero_le _) (by simpa using hregister)
      have hlength := m.registers.length_first hregister
      rw [guardedExecute, bind_of_ok _ (sum_one x), bind_of_ok _ hpart,
        Memory.guardedStore_eq _ _ (by omega), execute, dump, if_pos hx, store]
      cases m.memory.store m.index (m.registers.first (x.toNat + 1)) with
      | ok memory => rfl
      | error fault => rfl
  | restore x =>
      have hlength : x.toNat + 1 ≤ 256 := x.toNat_lt
      rw [guardedExecute, bind_of_ok _ (sum_one x), Memory.guardedLoad_eq _ _ hlength, execute,
        restore]
      cases m.memory.load m.index (x.toNat + 1) with
      | ok values => rfl
      | error fault => rfl
  | _ => rfl

/-- Beyond its bounds a guarded instruction crashes. -/
theorem crashes_of_not_bounded {m : Machine} {instruction : Instruction} (dialect : Dialect)
    (randomByte : UInt8) (hbeyond : ¬ instruction.Bounded m) :
    Crashes (m.guardedExecute dialect randomByte instruction) := by
  cases instruction with
  | dump x =>
      have hregister : ¬ (0 ≤ x.toNat + 1 ∧ x.toNat + 1 ≤ m.registers.toList.length) := by
        rw [Registers.length_toList]
        exact fun ⟨_, hx⟩ => hbeyond hx
      have hpart : part m.registers.toList 0 (x.toNat + 1) =
          .error (.outOfBounds (x.toNat + 1) m.registers.toList.length) :=
        bind_of_error _ (if_neg hregister)
      refine ⟨.outOfBounds (x.toNat + 1) m.registers.toList.length, ?_, nofun⟩
      rw [guardedExecute, bind_of_ok _ (sum_one x), bind_of_error _ hpart]
  | jumpOffset address =>
      let target := (m.registers.get 0).toNat + address.toNat
      have hsum : sum UInt16.size (m.registers.get 0).toNat address.toNat =
          .error (.overflow UInt16.size target) := if_neg hbeyond
      exact ⟨.overflow UInt16.size target, bind_of_error _ hsum, nofun⟩
  | _ => exact (hbeyond trivial).elim

/-- Only a dump of registers that do not exist and a jump beyond the last address crash. -/
theorem crashes_iff_not_bounded (m : Machine) (dialect : Dialect) (randomByte : UInt8)
    (instruction : Instruction) :
    Crashes (m.guardedExecute dialect randomByte instruction) ↔ ¬ instruction.Bounded m := by
  refine ⟨fun hcrashes hbounded => ?_, crashes_of_not_bounded dialect randomByte⟩
  rw [guardedExecute_eq dialect randomByte hbounded] at hcrashes
  exact not_crashes_lift _ hcrashes

end Machine

namespace RandomBytes

/-- The next byte, with its place asked for where the bytes are given and there are any. -/
def guardedPeek : RandomBytes → Guarded UInt8
  | cycle bytes position => if bytes.isEmpty then return 0 else entry bytes position
  | stream key drawn => return (stream key drawn).peek

/-- However many bytes have been drawn, the place of the next one lies in the list. -/
theorem guardedPeek_iterate_rest (bytes : List UInt8) (count : Nat) :
    (rest^[count] (ofBytes bytes)).guardedPeek = .ok (rest^[count] (ofBytes bytes)).peek := by
  by_cases hbytes : bytes = []
  · subst hbytes
    rw [iterate_rest_nil]
    rfl
  · have hnonempty : bytes.isEmpty = false := by simpa using hbytes
    have hentry := getElem?_eq_peek_iterate_rest hbytes count
    rw [iterate_rest_ofBytes hbytes] at hentry ⊢
    rw [guardedPeek, hnonempty, if_neg Bool.false_ne_true, entry_of_getElem? hentry]

end RandomBytes

namespace Session

/-- Whatever has been done to a session with given bytes, the place of its next one is in reach. -/
theorem guardedPeek_run (dialect : Dialect) (bytes : List UInt8) (history : List Operation) :
    let s := (new dialect (.ofBytes bytes)).run history
    s.random.guardedPeek = .ok s.random.peek := by
  intro s
  have hlast := ((new dialect (.ofBytes bytes)).handedOn_run history).last_eq
  change s.random = RandomBytes.rest^[_] (.ofBytes bytes) at hlast
  rw [hlast]
  exact RandomBytes.guardedPeek_iterate_rest bytes _

/-- A guarded step comes to the same as a step. -/
theorem guardedStep_eq (s : Session) :
    s.guardedStep =
      match s.step with
      | ⟨after, none⟩ => .ok after
      | ⟨_, some fault⟩ => .error (.fault fault) := by
  unfold guardedStep
  cases hactivity : s.activity with
  | awaitingKey register =>
      rw [step_of_awaiting hactivity]
      rfl
  | running =>
      rw [step_of_running hactivity, Machine.nextInstruction, Machine.guardedFetch_eq]
      cases s.machine.fetch with
      | error fault => rfl
      | ok word =>
          dsimp only
          rw [bind_of_ok _ (lift_ok _)]
          cases hdecode : Instruction.decode word with
          | none => rfl
          | some instruction =>
              have hbounded := Instruction.bounded_of_decode s.machine hdecode
              simp only [perform_eq, execute, Machine.guardedExecute_eq _ _ hbounded]
              cases s.machine.execute s.dialect (s.randomByteFor instruction) instruction with
              | ok machine => rfl
              | error fault => rfl

/-- No step reaches beyond a bound.  A guarded step ends as a step does, with a session or with a
fault that a word can cause, and so does the guarded execution of whatever instruction a word holds:
the registers of a dump exist, and a jump with an offset and the address of a glyph are sums of
sixteen bits.  Where random bytes are given, the place of the next one is always in reach. -/
theorem step_within_bounds :
    (∀ s : Session,
      (s.step.fault = none ∧ s.guardedStep = .ok s.step.state) ∨
        ∃ fault, s.step.fault = some fault ∧ s.guardedStep = .error (.fault fault) ∧
          (∀ register, fault ≠ .noSuchRegister register) ∧
          ∀ start length, fault ≠ .endOverflow start length) ∧
    (∀ (dialect : Dialect) (bytes : List UInt8) (history : List Operation),
      let s := (new dialect (.ofBytes bytes)).run history
      s.random.guardedPeek = .ok s.random.peek) ∧
    ∀ (m : Machine) (w : Word),
      (∀ instruction dialect randomByte, Instruction.decode w = some instruction →
        m.guardedExecute dialect randomByte instruction =
          lift (m.execute dialect randomByte instruction)) ∧
      (∀ x, Instruction.decode w = some (.dump x) → x.toNat + 1 ≤ 16) ∧
      (∀ address, Instruction.decode w = some (.jumpOffset address) →
        (m.registers.get 0).toNat + address.toNat < 65536) ∧
      ∀ x, Instruction.decode w = some (.glyph x) →
        Font.base.toNat + Font.glyphHeight.toNat * (m.registers.get x).toNat < 65536 := by
  refine ⟨fun s => ?_, guardedPeek_run, fun m w =>
    ⟨fun instruction dialect randomByte hdecode => ?_, fun x hdecode => ?_,
      fun address hdecode => ?_, fun x _ => Font.toNat_lt _⟩⟩
  · have hguarded := s.guardedStep_eq
    rcases hstep : s.step with ⟨after, _ | fault⟩
    · rw [hstep] at hguarded
      exact .inl ⟨rfl, hguarded⟩
    · rw [hstep] at hguarded
      have hword : fault.OfWord := ofWord_of_fault_step (congrArg Outcome.fault hstep)
      refine .inr ⟨fault, rfl, hguarded, ?_, ?_⟩
      · rintro register rfl
        cases hword
      · rintro start length rfl
        cases hword
  · exact Machine.guardedExecute_eq dialect randomByte (Instruction.bounded_of_decode m hdecode)
  · exact Instruction.bounded_of_decode m hdecode
  · exact Instruction.bounded_of_decode m hdecode

theorem step_within_bounds_highest :
    let m : Machine := { Machine.initial with registers := Registers.zero.set 0 0xFF }
    Instruction.decode 0xFF55 = some (.dump 0xF) ∧
      m.guardedExecute .standard 0 (.dump 0xF) = lift (m.execute .standard 0 (.dump 0xF)) ∧
      (0xF : UInt8).toNat + 1 ≤ 16 ∧
      Instruction.decode 0xBFFF = some (.jumpOffset 0xFFF) ∧
      (m.registers.get 0).toNat + (0xFFF : UInt16).toNat < 65536 ∧
      Instruction.decode 0xF029 = some (.glyph 0) ∧
      Font.base.toNat + Font.glyphHeight.toNat * (m.registers.get 0).toNat < 65536 := by
  intro m
  have hdump : Instruction.decode 0xFF55 = some (.dump 0xF) := by decide
  have hjump : Instruction.decode 0xBFFF = some (.jumpOffset 0xFFF) := by decide
  have hglyph : Instruction.decode 0xF029 = some (.glyph 0) := by decide
  exact ⟨hdump, (step_within_bounds.2.2 m 0xFF55).1 _ .standard 0 hdump,
    (step_within_bounds.2.2 m 0xFF55).2.1 _ hdump, hjump,
    (step_within_bounds.2.2 m 0xBFFF).2.2.1 _ hjump, hglyph,
    (step_within_bounds.2.2 m 0xF029).2.2.2 _ hglyph⟩

end Session

end Chip8
