import Chip8.CallStack
import Chip8.Font
import Chip8.Keypad
import Chip8.Registers
import Chip8.Screen.Sprite

/-!
The machine: memory, registers, call stack, timers, screen and keys.

The operations here are the parts that instructions are made of, and what happens to a machine
from outside: timer ticks, new looks at the keypad, and taking a changed screen.  None of them
fails except those that touch memory or the call stack.
-/

namespace Chip8

structure Machine where
  memory : Memory
  registers : Registers
  /-- The address that memory instructions work from. -/
  index : UInt16
  /-- The address of the next instruction. -/
  counter : UInt16
  calls : CallStack
  delayTimer : UInt8
  soundTimer : UInt8
  screen : Screen
  /-- The screen changed since it was last taken. -/
  redraw : Bool
  keypad : Keypad
  deriving DecidableEq, Repr

namespace Machine

def initial : Machine where
  memory := .initial
  registers := .zero
  index := 0
  counter := Memory.programStart
  calls := .empty
  delayTimer := 0
  soundTimer := 0
  screen := .blank
  redraw := false
  keypad := .released

def fetch (m : Machine) : Except Fault Word :=
  m.memory.loadWord m.counter

/-- Copy a program into memory and change nothing else. -/
def storeProgram (m : Machine) (program : List UInt8) : Except Fault Machine :=
  (m.memory.storeProgram program).map fun memory => { m with memory }

def store (m : Machine) (start : UInt16) (bytes : List UInt8) : Except Fault Machine :=
  (m.memory.store start bytes).map fun memory => { m with memory }

def put (m : Machine) (number value : UInt8) : Machine :=
  { m with registers := m.registers.set number value }

/-- Begin a call that returns to an address. -/
def push (m : Machine) (address : UInt16) : Except Fault Machine :=
  (m.calls.push address).map fun calls => { m with calls }

/-- End the latest call: the address to return to, and the machine afterwards. -/
def pop (m : Machine) : Except Fault (UInt16 × Machine) :=
  m.calls.pop.map fun (address, calls) => (address, { m with calls })

def wipe (m : Machine) : Machine :=
  { m with screen := .blank, redraw := true }

/-- Draw a sprite; the flag tells whether it hit a lit pixel. -/
def draw (m : Machine) (x y : UInt8) (sprite : Sprite) : Machine × Bool :=
  let drawing := m.screen.draw x y sprite
  ({ m with screen := drawing.screen, redraw := true }, drawing.collides)

def keyDown (m : Machine) (key : UInt8) : Bool :=
  m.keypad.isDown key.toNat

/-- A timer after one tick: it stops at zero. -/
def tick (timer : UInt8) : UInt8 :=
  if timer = 0 then 0 else timer - 1

/-- A timer after a number of ticks. -/
def ticked (timer : UInt8) (count : Nat) : UInt8 :=
  UInt8.ofNat (timer.toNat - count)

def countDown (m : Machine) : Machine :=
  { m with delayTimer := tick m.delayTimer, soundTimer := tick m.soundTimer }

def sounds (m : Machine) : Bool :=
  decide (0 < m.soundTimer)

/-- The screen, if it changed since it was last taken, and the machine with it taken. -/
def present (m : Machine) : Option Screen × Machine :=
  if m.redraw then (some m.screen, { m with redraw := false }) else (none, m)

theorem toNat_tick (timer : UInt8) : (tick timer).toNat = timer.toNat - 1 := by
  unfold tick
  split
  · subst timer
    rfl
  · rename_i h
    have hpos : timer.toNat ≠ 0 := fun hzero => h (UInt8.toNat_inj.1 hzero)
    have hone : (1 : UInt8) ≤ timer := by
      rw [UInt8.le_iff_toNat_le]
      change 1 ≤ timer.toNat
      omega
    rw [UInt8.toNat_sub_of_le _ _ hone]
    rfl

@[simp] theorem ticked_zero (timer : UInt8) : ticked timer 0 = timer :=
  UInt8.ofNat_toNat

@[simp] theorem ticked_tick (timer : UInt8) (count : Nat) :
    ticked (tick timer) count = ticked timer (count + 1) := by
  rw [ticked, ticked, toNat_tick, Nat.sub_sub, Nat.add_comm]

end Machine

end Chip8
