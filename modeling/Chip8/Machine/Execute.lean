import Chip8.Instruction.Arithmetic
import Chip8.Machine

/-!
What an instruction does to a machine.

`execute` takes an instruction as if it had just been fetched at the program counter.  It gives
the machine afterwards, or the fault that kept the instruction from being executed; whatever can
fail is tried before anything is written.  Of the outside world an instruction sees the dialect
and one random byte.  What goes beyond the machine is left to the session: here a native routine
does nothing, and waiting for a key only goes on to the next instruction.
-/

namespace Chip8

def Condition.holds (m : Machine) : Condition → Bool
  | equalsByte x byte => m.registers.get x == byte
  | differsByte x byte => m.registers.get x != byte
  | equalsRegister x y => m.registers.get x == m.registers.get y
  | differsRegister x y => m.registers.get x != m.registers.get y
  | keyDown x => m.keyDown (m.registers.get x)
  | keyUp x => !m.keyDown (m.registers.get x)

namespace Machine

def instructionSize : UInt16 := 2

def advance (m : Machine) : Machine :=
  { m with counter := m.counter + instructionSize }

def goTo (m : Machine) (address : UInt16) : Machine :=
  { m with counter := address }

/-- The three decimal digits of a byte, hundreds first. -/
def decimalDigits (value : UInt8) : List UInt8 :=
  [value / 100, value / 10 % 10, value % 10]

/-- Move the index behind a block that starts at it, if the dialect says so. -/
def passBlock (m : Machine) (dialect : Dialect) (length : Nat) : Machine :=
  if dialect.advancesIndex then { m with index := m.index + UInt16.ofNat length } else m

/-- Add a register to the index; the dialect may ask whether the sum is beyond `0xFFF`. -/
def addToIndex (m : Machine) (dialect : Dialect) (x : UInt8) : Machine :=
  let vx := (m.registers.get x).toUInt16
  let sum := m.index.toNat + vx.toNat
  { m with
    index := m.index + vx
    registers :=
      if dialect.flagsIndex then m.registers.setFlag (decide (0xFFF < sum)) else m.registers }

/-- Draw `height` rows from the index at column `VX` and row `VY`; `VF` tells of a hit. -/
def drawFromIndex (m : Machine) (x y height : UInt8) : Except Fault Machine :=
  (m.memory.load m.index height.toNat).map fun sprite =>
    let (drawn, hit) := m.draw (m.registers.get x) (m.registers.get y) sprite
    { drawn with registers := drawn.registers.setFlag hit }

/-- Write `V0` to `VX` from the index. -/
def dump (m : Machine) (dialect : Dialect) (x : UInt8) : Except Fault Machine :=
  if x < 16 then
    (m.store m.index (m.registers.first (x.toNat + 1))).map fun stored =>
      stored.passBlock dialect (x.toNat + 1)
  else
    .error (.noSuchRegister x)

/-- Read `V0` to `VX` from the index. -/
def restore (m : Machine) (dialect : Dialect) (x : UInt8) : Except Fault Machine :=
  (m.memory.load m.index (x.toNat + 1)).map fun values =>
    ({ m with registers := m.registers.setAll 0 values }).passBlock dialect (x.toNat + 1)

/-- Execute an instruction as if it had been fetched at the program counter. -/
def execute (m : Machine) (dialect : Dialect) (randomByte : UInt8) :
    Instruction → Except Fault Machine
  | .routine _ => .ok m.advance
  | .clear => .ok m.wipe.advance
  | .ret => m.pop.map fun (address, returned) => returned.goTo address
  | .jump address => .ok (m.goTo address)
  | .call address =>
      (m.push (m.counter + instructionSize)).map fun called => called.goTo address
  | .skipIf condition => .ok (if condition.holds m then m.advance.advance else m.advance)
  | .setByte x byte => .ok (m.put x byte).advance
  | .addByte x byte => .ok (m.put x (m.registers.get x + byte)).advance
  | .alu operation x y =>
      .ok ({ m with registers := m.registers.combine dialect operation x y }).advance
  | .setIndex address => .ok ({ m with index := address }).advance
  | .jumpOffset address => .ok (m.goTo ((m.registers.get 0).toUInt16 + address))
  | .random x mask => .ok (m.put x (randomByte &&& mask)).advance
  | .draw x y height => (m.drawFromIndex x y height).map advance
  | .readDelay x => .ok (m.put x m.delayTimer).advance
  | .awaitKey _ => .ok m.advance
  | .setDelay x => .ok ({ m with delayTimer := m.registers.get x }).advance
  | .setSound x => .ok ({ m with soundTimer := m.registers.get x }).advance
  | .addIndex x => .ok (m.addToIndex dialect x).advance
  | .glyph x => .ok ({ m with index := Font.address (m.registers.get x) }).advance
  | .decimal x => (m.store m.index (decimalDigits (m.registers.get x))).map advance
  | .dump x => (m.dump dialect x).map advance
  | .restore x => (m.restore dialect x).map advance

end Machine

end Chip8
