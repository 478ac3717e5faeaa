import Chip8.Word

/-!
The instructions of CHIP-8.

Operands are bytes and addresses of full width, so that an instruction can also be built by hand
with an operand that no word can hold; `Chip8.Instruction.Coding` says which ones words do hold.
Instructions that differ only in a test or in an operation share a constructor.
-/

namespace Chip8

/-- The test of a skip instruction. -/
inductive Condition
  | equalsByte (x byte : UInt8)
  | differsByte (x byte : UInt8)
  | equalsRegister (x y : UInt8)
  | differsRegister (x y : UInt8)
  | keyDown (x : UInt8)
  | keyUp (x : UInt8)
  deriving DecidableEq, Repr

/-- An operation on two registers, `VX` and `VY`, with its result in `VX`. -/
inductive AluOp
  | copy
  | or
  | and
  | xor
  | add
  | sub
  | shiftRight
  | subFrom
  | shiftLeft
  deriving DecidableEq, Repr

/-- An instruction. -/
inductive Instruction
  /-- Word `0NNN`: call a routine in the native code of the host, which no session can run. -/
  | routine (address : UInt16)
  /-- Word `00E0`: clear the screen. -/
  | clear
  /-- Word `00EE`: go back to where the last call came from. -/
  | ret
  /-- Word `1NNN`: go to an address. -/
  | jump (address : UInt16)
  /-- Word `2NNN`: go to an address and remember the way back. -/
  | call (address : UInt16)
  /-- Words `3XNN`, `4XNN`, `5XY0`, `9XY0`, `EX9E`, `EXA1`: skip the next instruction if a test
  holds. -/
  | skipIf (condition : Condition)
  /-- Word `6XNN`: put a byte into `VX`. -/
  | setByte (x byte : UInt8)
  /-- Word `7XNN`: add a byte to `VX`; the carry is lost. -/
  | addByte (x byte : UInt8)
  /-- Words `8XY0` to `8XY7` and `8XYE`: combine `VX` and `VY`. -/
  | alu (operation : AluOp) (x y : UInt8)
  /-- Word `ANNN`: put an address into the index. -/
  | setIndex (address : UInt16)
  /-- Word `BNNN`: go to an address plus `V0`. -/
  | jumpOffset (address : UInt16)
  /-- Word `CXNN`: put a random byte, masked with `NN`, into `VX`. -/
  | random (x mask : UInt8)
  /-- Word `DXYN`: draw `N` rows of a sprite from the index at column `VX` and row `VY`. -/
  | draw (x y height : UInt8)
  /-- Word `FX07`: copy the delay timer into `VX`. -/
  | readDelay (x : UInt8)
  /-- Word `FX0A`: wait for a key to go down and put it into `VX`. -/
  | awaitKey (x : UInt8)
  /-- Word `FX15`: copy `VX` into the delay timer. -/
  | setDelay (x : UInt8)
  /-- Word `FX18`: copy `VX` into the sound timer. -/
  | setSound (x : UInt8)
  /-- Word `FX1E`: add `VX` to the index. -/
  | addIndex (x : UInt8)
  /-- Word `FX29`: point the index at the glyph of the digit in `VX`. -/
  | glyph (x : UInt8)
  /-- Word `FX33`: write the three decimal digits of `VX` from the index. -/
  | decimal (x : UInt8)
  /-- Word `FX55`: write `V0` to `VX` from the index. -/
  | dump (x : UInt8)
  /-- Word `FX65`: read `V0` to `VX` from the index. -/
  | restore (x : UInt8)
  deriving DecidableEq, Repr

end Chip8
