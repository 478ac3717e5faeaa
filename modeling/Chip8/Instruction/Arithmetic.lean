import Chip8.Dialect
import Chip8.Instruction
import Chip8.Registers

/-!
What the operations on two registers compute: a result, and for some of them a flag.

Both are functions of the two operands alone.  `Registers.combine` writes the result to `VX` and
the flag to `VF` after it, so that the flag stands when `VX` is `VF`.
-/

namespace Chip8

namespace AluOp

/-- The operand that a shift moves. -/
def shifted (dialect : Dialect) (vx vy : UInt8) : UInt8 :=
  if dialect.shiftsY then vy else vx

/-- The result of an operation, modulo 256. -/
def result (dialect : Dialect) (vx vy : UInt8) : AluOp → UInt8
  | copy => vy
  | or => vx ||| vy
  | and => vx &&& vy
  | xor => vx ^^^ vy
  | add => vx + vy
  | sub => vx - vy
  | shiftRight => shifted dialect vx vy / 2
  | subFrom => vy - vx
  | shiftLeft => 2 * shifted dialect vx vy

/-- The flag of an operation: the carry of an addition, no borrow for a subtraction, the bit
shifted out for a shift, and none for the others. -/
def flag? (dialect : Dialect) (vx vy : UInt8) : AluOp → Option Bool
  | copy => none
  | or => none
  | and => none
  | xor => none
  | add => some (decide (255 < vx.toNat + vy.toNat))
  | sub => some (decide (vy ≤ vx))
  | shiftRight => some (decide (shifted dialect vx vy % 2 = 1))
  | subFrom => some (decide (vx ≤ vy))
  | shiftLeft => some (decide (128 ≤ shifted dialect vx vy))

end AluOp

namespace Registers

/-- Put one for `true` and zero for `false` into `VF`. -/
def setFlag (r : Registers) (raised : Bool) : Registers :=
  r.set flag raised.toUInt8

/-- Combine `VX` and `VY`: the result goes to `VX`, then the flag, if there is one, to `VF`. -/
def combine (r : Registers) (dialect : Dialect) (operation : AluOp) (x y : UInt8) : Registers :=
  let vx := r.get x
  let vy := r.get y
  let combined := r.set x (operation.result dialect vx vy)
  match operation.flag? dialect vx vy with
  | some raised => combined.setFlag raised
  | none => combined

end Registers

end Chip8
