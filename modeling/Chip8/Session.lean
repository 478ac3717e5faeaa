import Chip8.Instruction.Coding
import Chip8.Machine.Execute
import Chip8.Outcome
import Chip8.RandomBytes

/-!
A session: a machine with its dialect, its source of random bytes, and what it is waiting for.

`execute` gives the session after an instruction, or the fault that kept it from being executed.
How instructions work on a session in place is the subject of `Chip8.Session.Procedure`.  A
program that does not fit leaves a restarted session.
-/

namespace Chip8

/-- Whether instructions are executed, or a key is waited for and goes to a register. -/
inductive Activity
  | running
  | awaitingKey (register : UInt8)
  deriving DecidableEq, Repr

structure Session where
  machine : Machine
  dialect : Dialect
  random : RandomBytes
  activity : Activity
  /-- The native routines that were called and skipped, in ascending order. -/
  skipped : List UInt16
  deriving DecidableEq, Repr

/-- Put a number into an ascending list, once. -/
def insertAscending (number : UInt16) : List UInt16 → List UInt16
  | [] => [number]
  | first :: rest =>
      if number < first then number :: first :: rest
      else if number = first then first :: rest
      else first :: insertAscending number rest

theorem mem_insertAscending (number other : UInt16) (numbers : List UInt16) :
    other ∈ insertAscending number numbers ↔ other = number ∨ other ∈ numbers := by
  induction numbers with
  | nil => simp [insertAscending]
  | cons first rest ih =>
      unfold insertAscending
      split
      · simp
      · split
        · rename_i _ heq
          subst heq
          simp
        · simp only [List.mem_cons, ih]
          constructor
          · rintro (h | h | h)
            · exact .inr (.inl h)
            · exact .inl h
            · exact .inr (.inr h)
          · rintro (h | h | h)
            · exact .inr (.inl h)
            · exact .inl h
            · exact .inr (.inr h)

namespace Machine

def nextInstruction (m : Machine) : Except Fault Instruction :=
  match m.fetch with
  | .error fault => .error fault
  | .ok word =>
      match Instruction.decode word with
      | some instruction => .ok instruction
      | none => .error (.unknownWord word)

end Machine

namespace Session

/-- A session with a machine just switched on. -/
def new (dialect : Dialect) (random : RandomBytes) : Session where
  machine := .initial
  dialect := dialect
  random := random
  activity := .running
  skipped := []

/-- A session in the standard dialect, without random bytes. -/
def plain : Session :=
  new .standard (.ofBytes [])

/-- Start over with a machine just switched on; the random bytes go on where they were. -/
def restart (s : Session) : Session :=
  new s.dialect s.random

/-- Start over and copy a program into memory. -/
def boot (s : Session) (program : List UInt8) : Outcome Session :=
  .ofExcept s.restart
    ((s.restart.machine.storeProgram program).map fun machine => { s.restart with machine })

/-- Whether the program fits or not, only the memory can differ from a session just restarted. -/
theorem exists_boot_eq (s : Session) (program : List UInt8) :
    ∃ memory, (s.boot program).state =
      { s.restart with machine := { s.restart.machine with memory } } := by
  rw [boot, Machine.storeProgram]
  generalize s.restart = started
  cases started.machine.memory.storeProgram program with
  | ok memory => exact ⟨memory, rfl⟩
  | error fault => exact ⟨started.machine.memory, rfl⟩

/-- The random byte that an instruction gets to see. -/
def randomByteFor (s : Session) : Instruction → UInt8
  | .random _ _ => s.random.peek
  | _ => 0

/-- What an instruction means for the session beyond the machine. -/
def account (s : Session) : Instruction → Session
  | .routine address => { s with skipped := insertAscending address s.skipped }
  | .random _ _ => { s with random := s.random.rest }
  | .awaitKey x => { s with activity := .awaitingKey x }
  | _ => s

/-- The session after an instruction. -/
def execute (s : Session) (instruction : Instruction) : Except Fault Session :=
  (s.machine.execute s.dialect (s.randomByteFor instruction) instruction).map fun machine =>
    { s.account instruction with machine }

/-- Take a new look at the keypad.  If a key is waited for and one went down since the last look,
the lowest such key goes to the register and instructions are executed again. -/
def showKeys (s : Session) (keypad : Keypad) : Session :=
  let seen := { s with machine := { s.machine with keypad } }
  match s.activity with
  | .running => seen
  | .awaitingKey register =>
      match Keypad.firstPressed? s.machine.keypad keypad with
      | none => seen
      | some key =>
          { seen with
            machine := seen.machine.put register (UInt8.ofNat key)
            activity := .running }

/-- A look at the keypad can change a register, what the session waits for, and nothing else. -/
theorem exists_showKeys_eq (s : Session) (keypad : Keypad) :
    ∃ registers activity,
      s.showKeys keypad = { s with machine := { s.machine with registers, keypad }, activity } := by
  unfold showKeys
  split
  · exact ⟨_, _, rfl⟩
  · split
    · exact ⟨_, _, rfl⟩
    · exact ⟨_, _, rfl⟩

def countDown (s : Session) : Session :=
  { s with machine := s.machine.countDown }

/-- The tone is on while the sound timer runs. -/
def sounds (s : Session) : Bool :=
  s.machine.sounds

/-- The screen, if it changed since it was last taken, and the session with it taken. -/
def present (s : Session) : Option Screen × Session :=
  (s.machine.present.1, { s with machine := s.machine.present.2 })

end Session

end Chip8
