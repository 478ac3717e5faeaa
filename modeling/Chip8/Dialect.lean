/-!
The choices that interpreters of CHIP-8 make differently.
-/

namespace Chip8

/-- How three kinds of instructions behave. -/
structure Dialect where
  /-- Shifts, `8XY6` and `8XYE`, move `VY` into `VX`; otherwise they move `VX` itself. -/
  shiftsY : Bool
  /-- Block transfers, `FX55` and `FX65`, leave the index behind the bytes they touched; otherwise
  it stays. -/
  advancesIndex : Bool
  /-- Adding to the index, `FX1E`, reports in `VF` whether it went past `0xFFF`; otherwise `VF`
  stays. -/
  flagsIndex : Bool
  deriving DecidableEq, Repr

namespace Dialect

/-- The first interpreter, of the COSMAC VIP computer. -/
def cosmac : Dialect :=
  ⟨true, true, false⟩

/-- What most programs expect that were written for later interpreters. -/
def modern : Dialect :=
  ⟨false, false, false⟩

/-- The dialect in use where none is chosen. -/
def standard : Dialect :=
  cosmac

end Dialect

end Chip8
