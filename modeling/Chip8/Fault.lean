import Chip8.Hex

/-!
What can stop a program, and how each cause is worded.

`Fault.message` is the sentence a person reads.  `Fault.diagnosis` names the cause and its data,
the form in which a run without a screen reports why it ended.
-/

namespace Chip8

inductive Fault
  /-- A program of `size` bytes, where no more than `limit` fit into memory. -/
  | programTooLarge (size limit : Nat)
  /-- A memory access that leaves the address space; `address` is the first one outside it. -/
  | addressOutOfRange (address : Nat)
  /-- A memory access of so many bytes that its end is no number of 64 bits. -/
  | endOverflow (start : UInt16) (length : Nat)
  /-- A call at the deepest level of the call stack. -/
  | stackOverflow
  /-- A return with no call to return from. -/
  | stackUnderflow
  /-- A word that is no instruction. -/
  | unknownWord (word : UInt16)
  /-- A dump that asks for registers beyond the last one. -/
  | noSuchRegister (register : UInt8)
  deriving DecidableEq, Repr

namespace Fault

/-- The sentence that explains a fault. -/
def message : Fault → String
  | programTooLarge size limit =>
      "ROM is too large (" ++ Nat.repr size ++ " bytes), at most " ++ Nat.repr limit ++
        " bytes fit in memory"
  | addressOutOfRange address => "memory access out of range at address " ++ Hex.address address
  | endOverflow start length =>
      "no number of 64 bits is the end of " ++ Nat.repr length ++ " bytes at address " ++
        Hex.address start.toNat
  | stackOverflow => "stack overflow: more than 16 nested calls"
  | stackUnderflow => "stack underflow: return with an empty call stack"
  | unknownWord word => "unknown opcode " ++ Hex.address word.toNat
  | noSuchRegister register => "no register has the number " ++ Nat.repr register.toNat

/-- Named data between braces. -/
def braced (fields : String) : String :=
  String.singleton '{' ++ " " ++ fields ++ " " ++ String.singleton '}'

/-- The name of a fault followed by its data. -/
def diagnosis : Fault → String
  | programTooLarge size limit =>
      "RomTooLarge " ++ braced ("size: " ++ Nat.repr size ++ ", max: " ++ Nat.repr limit)
  | addressOutOfRange address => "AddressOutOfRange " ++ braced ("address: " ++ Nat.repr address)
  | endOverflow start length =>
      "EndOverflow " ++
        braced ("start: " ++ Nat.repr start.toNat ++ ", length: " ++ Nat.repr length)
  | stackOverflow => "StackOverflow"
  | stackUnderflow => "StackUnderflow"
  | unknownWord word => "UnknownOpcode(" ++ Nat.repr word.toNat ++ ")"
  | noSuchRegister register => "NoSuchRegister(" ++ Nat.repr register.toNat ++ ")"

end Fault

end Chip8
