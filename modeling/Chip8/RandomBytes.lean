import Chip8.RandomBytes.ChaCha

/-!
Where the bytes of the random number instruction come from.

A source is a list of bytes repeated without end, or the stream of a seed.  Both are deterministic:
a source is a value, and drawing a byte gives the source that remains.
-/

namespace Chip8

inductive RandomBytes
  /-- The given bytes over and over, the one at `position` next; without bytes, zeros. -/
  | cycle (bytes : List UInt8) (position : Nat)
  /-- The low bytes of the words of a stream, after `drawn` of them. -/
  | stream (key : ChaCha.Key) (drawn : Nat)
  deriving DecidableEq, Repr

namespace RandomBytes

/-- The given bytes over and over, from the first. -/
def ofBytes (bytes : List UInt8) : RandomBytes :=
  .cycle bytes 0

def ofSeed (seed : UInt64) : RandomBytes :=
  .stream (ChaCha.Key.ofSeed seed) 0

def peek : RandomBytes → UInt8
  | cycle bytes position => bytes.getD position 0
  | stream key drawn => (ChaCha.word key drawn).toUInt8

def rest : RandomBytes → RandomBytes
  | cycle bytes position =>
      .cycle bytes (if bytes.isEmpty then position else (position + 1) % bytes.length)
  | stream key drawn => .stream key (drawn + 1)

/-- The next bytes, as many as asked for. -/
def take (e : RandomBytes) : Nat → List UInt8
  | 0 => []
  | count + 1 => e.peek :: e.rest.take count

end RandomBytes

end Chip8
