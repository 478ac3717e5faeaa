import Chip8.Clock
import Chip8.Dialect
import Chip8.RandomBytes

/-!
The choices a person makes when starting a program.
-/

namespace Chip8

/-- What is told about a run while it goes on. -/
inductive LogLevel
  | warnings
  | information
  | details
  | everything
  deriving DecidableEq, Repr

def LogLevel.name : LogLevel → String
  | warnings => "WARN"
  | information => "INFO"
  | details => "DEBUG"
  | everything => "TRACE"

/-- The choices for a run. -/
structure Options where
  /-- Instructions per second; zero stands for the standard rate. -/
  rate : UInt32
  /-- Shifts move `VX` itself. -/
  shiftVx : Bool
  /-- Dumping and restoring registers leaves the index where it is. -/
  keepIndex : Bool
  /-- An index beyond `0xFFF` is reported in `VF`. -/
  indexOverflow : Bool
  /-- The seed of the random bytes; without one they differ from run to run. -/
  seed : Option UInt64
  /-- How many milliseconds to run; without a number, until something stops the program. -/
  duration : Option UInt64
  /-- How often more detail was asked for. -/
  verbosity : UInt8
  input : String
  deriving DecidableEq, Repr

namespace Options

def dialect (o : Options) : Dialect where
  shiftsY := !o.shiftVx
  advancesIndex := !o.keepIndex
  flagsIndex := o.indexOverflow

/-- The number of instructions per second to run at. -/
def instructionRate (o : Options) : Nat :=
  if o.rate = 0 then Clock.standardRate else o.rate.toNat

/-- The random bytes of a run: those of the chosen seed, or else of a fresh one. -/
def randomBytes (o : Options) (fresh : UInt64) : RandomBytes :=
  .ofSeed (o.seed.getD fresh)

/-- How much is told about the run. -/
def level (o : Options) : LogLevel :=
  match o.verbosity with
  | 0 => .warnings
  | 1 => .information
  | 2 => .details
  | _ => .everything

/-- When to stop, in nanoseconds from the start. -/
def limit? (o : Options) : Option Nat :=
  o.duration.map fun milliseconds => milliseconds.toNat * 1000000

end Options

end Chip8
