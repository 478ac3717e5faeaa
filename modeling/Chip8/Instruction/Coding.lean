import Chip8.Instruction

/-!
Instruction words: reading an instruction from a word and writing it as one.

`decode` reads every word of the families `0` to `7`, `9` and `A` to `D`, and in the families `8`,
`E` and `F` those whose last digits name an operation.  `encode` writes the word that the pattern
of an instruction gives it.  The last digit of the words `5XYN` and `9XYN` carries no meaning, and
`encode` writes it as zero.
-/

namespace Chip8

namespace AluOp

/-- The last digit of the words of an operation. -/
def code : AluOp → UInt8
  | copy => 0x0
  | or => 0x1
  | and => 0x2
  | xor => 0x3
  | add => 0x4
  | sub => 0x5
  | shiftRight => 0x6
  | subFrom => 0x7
  | shiftLeft => 0xE

/-- The operation that a last digit names. -/
def ofCode? : UInt8 → Option AluOp
  | 0x0 => some copy
  | 0x1 => some or
  | 0x2 => some and
  | 0x3 => some xor
  | 0x4 => some add
  | 0x5 => some sub
  | 0x6 => some shiftRight
  | 0x7 => some subFrom
  | 0xE => some shiftLeft
  | _ => none

@[simp] theorem ofCode?_code (operation : AluOp) : ofCode? operation.code = some operation := by
  cases operation <;> rfl

theorem code_of_ofCode? {digit : UInt8} {operation : AluOp} (h : ofCode? digit = some operation) :
    operation.code = digit := by
  unfold ofCode? at h
  split at h <;> cases h <;> rfl

theorem code_lt (operation : AluOp) : operation.code < 16 := by
  cases operation <;> decide

end AluOp

namespace Instruction

def decodeKey? (x byte : UInt8) : Option Instruction :=
  match byte with
  | 0x9E => some (.skipIf (.keyDown x))
  | 0xA1 => some (.skipIf (.keyUp x))
  | _ => none

def decodeMisc? (x byte : UInt8) : Option Instruction :=
  match byte with
  | 0x07 => some (.readDelay x)
  | 0x0A => some (.awaitKey x)
  | 0x15 => some (.setDelay x)
  | 0x18 => some (.setSound x)
  | 0x1E => some (.addIndex x)
  | 0x29 => some (.glyph x)
  | 0x33 => some (.decimal x)
  | 0x55 => some (.dump x)
  | 0x65 => some (.restore x)
  | _ => none

/-- The instruction of a word `0NNN`: two of them have a meaning of their own. -/
def decodeRoutine (address : UInt16) : Instruction :=
  match address with
  | 0x0E0 => .clear
  | 0x0EE => .ret
  | _ => .routine address

/-- The instruction that a word holds, if it holds one. -/
def decode (w : Word) : Option Instruction :=
  match w.family with
  | 0x0 => some (decodeRoutine w.nnn)
  | 0x1 => some (.jump w.nnn)
  | 0x2 => some (.call w.nnn)
  | 0x3 => some (.skipIf (.equalsByte w.x w.nn))
  | 0x4 => some (.skipIf (.differsByte w.x w.nn))
  | 0x5 => some (.skipIf (.equalsRegister w.x w.y))
  | 0x6 => some (.setByte w.x w.nn)
  | 0x7 => some (.addByte w.x w.nn)
  | 0x8 => (AluOp.ofCode? w.n).map fun operation => .alu operation w.x w.y
  | 0x9 => some (.skipIf (.differsRegister w.x w.y))
  | 0xA => some (.setIndex w.nnn)
  | 0xB => some (.jumpOffset w.nnn)
  | 0xC => some (.random w.x w.nn)
  | 0xD => some (.draw w.x w.y w.n)
  | 0xE => decodeKey? w.x w.nn
  | _ => decodeMisc? w.x w.nn

def encode : Instruction → Word
  | routine address => Word.ofAddress 0x0 address
  | clear => 0x00E0
  | ret => 0x00EE
  | jump address => Word.ofAddress 0x1 address
  | call address => Word.ofAddress 0x2 address
  | skipIf (.equalsByte x byte) => Word.ofByte 0x3 x byte
  | skipIf (.differsByte x byte) => Word.ofByte 0x4 x byte
  | skipIf (.equalsRegister x y) => Word.ofDigits 0x5 x y 0x0
  | setByte x byte => Word.ofByte 0x6 x byte
  | addByte x byte => Word.ofByte 0x7 x byte
  | alu operation x y => Word.ofDigits 0x8 x y operation.code
  | skipIf (.differsRegister x y) => Word.ofDigits 0x9 x y 0x0
  | setIndex address => Word.ofAddress 0xA address
  | jumpOffset address => Word.ofAddress 0xB address
  | random x mask => Word.ofByte 0xC x mask
  | draw x y height => Word.ofDigits 0xD x y height
  | skipIf (.keyDown x) => Word.ofByte 0xE x 0x9E
  | skipIf (.keyUp x) => Word.ofByte 0xE x 0xA1
  | readDelay x => Word.ofByte 0xF x 0x07
  | awaitKey x => Word.ofByte 0xF x 0x0A
  | setDelay x => Word.ofByte 0xF x 0x15
  | setSound x => Word.ofByte 0xF x 0x18
  | addIndex x => Word.ofByte 0xF x 0x1E
  | glyph x => Word.ofByte 0xF x 0x29
  | decimal x => Word.ofByte 0xF x 0x33
  | dump x => Word.ofByte 0xF x 0x55
  | restore x => Word.ofByte 0xF x 0x65

/-- The registers an instruction names, in the order of its word. -/
def registers : Instruction → List UInt8
  | skipIf (.equalsByte x _) => [x]
  | skipIf (.differsByte x _) => [x]
  | skipIf (.equalsRegister x y) => [x, y]
  | skipIf (.differsRegister x y) => [x, y]
  | skipIf (.keyDown x) => [x]
  | skipIf (.keyUp x) => [x]
  | setByte x _ => [x]
  | addByte x _ => [x]
  | alu _ x y => [x, y]
  | random x _ => [x]
  | draw x y _ => [x, y]
  | readDelay x => [x]
  | awaitKey x => [x]
  | setDelay x => [x]
  | setSound x => [x]
  | addIndex x => [x]
  | glyph x => [x]
  | decimal x => [x]
  | dump x => [x]
  | restore x => [x]
  | _ => []

/-- A word can hold the operands of the instruction: registers and heights of one digit,
addresses of three, and no routine address that stands for another instruction. -/
def Encodable (i : Instruction) : Prop :=
  (∀ register ∈ i.registers, register < 16) ∧
    match i with
    | routine address => address < 4096 ∧ address ≠ 0x0E0 ∧ address ≠ 0x0EE
    | jump address => address < 4096
    | call address => address < 4096
    | setIndex address => address < 4096
    | jumpOffset address => address < 4096
    | draw _ _ height => height < 16
    | _ => True

instance (i : Instruction) : Decidable i.Encodable := by
  unfold Encodable
  cases i <;> exact @instDecidableAnd _ _ (List.decidableBAll _ _) inferInstance

end Instruction

end Chip8
