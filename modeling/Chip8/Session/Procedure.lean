import Chip8.Session

/-!
How instructions work on a session in place.

A `Procedure` reads and writes a session one part after another.  Every write stands as soon as it
is made: a procedure that a fault stops leaves the session as it was at that moment, and nothing
is taken back.  `perform`, `performAll` and `step` run procedures, and their `Outcome` is the
session that was left together with the fault, if there was one.
-/

namespace Chip8

/-- What works on a session in place. -/
abbrev Procedure (Result : Type) := EStateM Fault Session Result

/-- Where the program goes on after an instruction. -/
inductive Flow
  | next
  | skip
  | jump (address : UInt16)
  /-- At the next instruction, once a key has gone down for a register. -/
  | await (register : UInt8)
  deriving DecidableEq, Repr

namespace Procedure

/-- What running a procedure leaves behind. -/
def outcome (procedure : Procedure Unit) (s : Session) : Outcome Session :=
  match procedure.run s with
  | .ok _ after => .done after
  | .error fault after => .stopped after fault

def machine : Procedure Machine :=
  return (← get).machine

def edit (change : Machine → Machine) : Procedure Unit :=
  modify fun s => { s with machine := change s.machine }

/-- Stop with a fault unless a condition holds. -/
def require (condition : Prop) [Decidable condition] (fault : Fault) : Procedure Unit :=
  if condition then pure () else throw fault

def readRegister (number : UInt8) : Procedure UInt8 :=
  return (← machine).registers.get number

def writeRegister (number value : UInt8) : Procedure Unit :=
  edit fun m => m.put number value

def writeIndex (address : UInt16) : Procedure Unit :=
  edit fun m => { m with index := address }

def goTo (address : UInt16) : Procedure Unit :=
  edit fun m => m.goTo address

def readBytes (start : UInt16) (length : Nat) : Procedure (List UInt8) := do
  require (Memory.Fits start length) (Memory.refusal start length)
  return (List.range' start.toNat length).map (← machine).memory.peek

def writeBytes (start : UInt16) (bytes : List UInt8) : Procedure Unit := do
  require (Memory.Fits start bytes.length) (Memory.refusal start bytes.length)
  edit fun m => { m with memory := m.memory.pokeAll start.toNat bytes }

def push (address : UInt16) : Procedure Unit := do
  match (← machine).calls.push address with
  | .ok calls => edit fun m => { m with calls }
  | .error fault => throw fault

def pop : Procedure UInt16 := do
  match (← machine).calls.pop with
  | .ok (address, calls) =>
      edit fun m => { m with calls }
      return address
  | .error fault => throw fault

/-- Draw a sprite on the screen and tell whether it hit a lit pixel. -/
def drawSprite (x y : UInt8) (sprite : Sprite) : Procedure Bool := do
  let (drawn, hit) := (← machine).draw x y sprite
  edit fun _ => drawn
  return hit

/-- Draw a random byte from the source. -/
def nextByte : Procedure UInt8 :=
  modifyGet fun s => (s.random.peek, { s with random := s.random.rest })

def skipRoutine (address : UInt16) : Procedure Unit :=
  modify fun s => { s with skipped := insertAscending address s.skipped }

/-- Move the index behind a block that starts at it, if the dialect says so. -/
def passBlock (length : Nat) : Procedure Unit := do
  if (← get).dialect.advancesIndex then
    writeIndex ((← machine).index + UInt16.ofNat length)

def fetch : Procedure Word := do
  let bytes ← readBytes (← machine).counter 2
  return Word.ofBytes (bytes.getD 0 0) (bytes.getD 1 0)

/-- Do what an instruction says, except for going on: `next` is the address behind it. -/
def carryOut (next : UInt16) : Instruction → Procedure Flow
  | .routine address => do
      skipRoutine address
      return .next
  | .clear => do
      edit Machine.wipe
      return .next
  | .ret => return .jump (← pop)
  | .jump address => return .jump address
  | .call address => do
      push next
      return .jump address
  | .skipIf condition => return if condition.holds (← machine) then .skip else .next
  | .setByte x byte => do
      writeRegister x byte
      return .next
  | .addByte x byte => do
      writeRegister x ((← readRegister x) + byte)
      return .next
  | .alu operation x y => do
      let vx ← readRegister x
      let vy ← readRegister y
      let dialect := (← get).dialect
      writeRegister x (operation.result dialect vx vy)
      match operation.flag? dialect vx vy with
      | some raised => writeRegister Registers.flag raised.toUInt8
      | none => pure ()
      return .next
  | .setIndex address => do
      writeIndex address
      return .next
  | .jumpOffset address => return .jump ((← readRegister 0).toUInt16 + address)
  | .random x mask => do
      writeRegister x ((← nextByte) &&& mask)
      return .next
  | .draw x y height => do
      let sprite ← readBytes (← machine).index height.toNat
      let hit ← drawSprite (← readRegister x) (← readRegister y) sprite
      writeRegister Registers.flag hit.toUInt8
      return .next
  | .readDelay x => do
      writeRegister x (← machine).delayTimer
      return .next
  | .awaitKey x => return .await x
  | .setDelay x => do
      let vx ← readRegister x
      edit fun m => { m with delayTimer := vx }
      return .next
  | .setSound x => do
      let vx ← readRegister x
      edit fun m => { m with soundTimer := vx }
      return .next
  | .addIndex x => do
      let index := (← machine).index
      let vx := (← readRegister x).toUInt16
      writeIndex (index + vx)
      if (← get).dialect.flagsIndex then
        writeRegister Registers.flag (decide (0xFFF < index.toNat + vx.toNat)).toUInt8
      return .next
  | .glyph x => do
      writeIndex (Font.address (← readRegister x))
      return .next
  | .decimal x => do
      let value ← readRegister x
      writeBytes (← machine).index (Machine.decimalDigits value)
      return .next
  | .dump x => do
      require (x < 16) (.noSuchRegister x)
      writeBytes (← machine).index ((← machine).registers.first (x.toNat + 1))
      passBlock (x.toNat + 1)
      return .next
  | .restore x => do
      let values ← readBytes (← machine).index (x.toNat + 1)
      edit fun m => { m with registers := m.registers.setAll 0 values }
      passBlock (x.toNat + 1)
      return .next

/-- Go on after an instruction; `next` is the address behind it. -/
def follow (next : UInt16) : Flow → Procedure Unit
  | .next => goTo next
  | .skip => goTo (next + Machine.instructionSize)
  | .jump address => goTo address
  | .await register => do
      goTo next
      modify fun s => { s with activity := .awaitingKey register }

/-- Execute an instruction, as if it had been fetched at the program counter. -/
def execute (instruction : Instruction) : Procedure Unit := do
  let next := (← machine).counter + Machine.instructionSize
  let flow ← carryOut next instruction
  follow next flow

/-- Execute instructions up to the first that fails. -/
def executeAll : List Instruction → Procedure Unit
  | [] => pure ()
  | instruction :: rest => do
      execute instruction
      executeAll rest

/-- Fetch the instruction at the program counter and execute it; while a key is waited for,
nothing happens. -/
def step : Procedure Unit := do
  match (← get).activity with
  | .awaitingKey _ => pure ()
  | .running =>
      let word ← fetch
      match Instruction.decode word with
      | some instruction => execute instruction
      | none => throw (.unknownWord word)

end Procedure

namespace Session

/-- Execute an instruction, as if it had been fetched at the program counter. -/
def perform (s : Session) (instruction : Instruction) : Outcome Session :=
  Procedure.outcome (Procedure.execute instruction) s

/-- Execute instructions up to the first that fails. -/
def performAll (s : Session) (instructions : List Instruction) : Outcome Session :=
  Procedure.outcome (Procedure.executeAll instructions) s

/-- Execute the instruction at the program counter. -/
def step (s : Session) : Outcome Session :=
  Procedure.outcome Procedure.step s

end Session

end Chip8
