/-!
The ChaCha stream cipher with twenty rounds, as a generator of words.

A block is sixteen words computed from a key of eight words and a 64-bit block number, with the
number split over two words and two further words zero.  `Key.ofSeed` spreads a 64-bit seed over a
key with a linear congruential generator whose output is permuted.
-/

namespace Chip8

namespace ChaCha

def rotateLeft (word : UInt32) (count : Nat) : UInt32 :=
  ⟨word.toBitVec.rotateLeft count⟩

def rotateRight (word : UInt32) (count : Nat) : UInt32 :=
  ⟨word.toBitVec.rotateRight count⟩

/-- The sixteen words that a block is computed in. -/
abbrev State := Vector UInt32 16

/-- Mix the four words at the given places. -/
def quarterRound (s : State) (a b c d : Fin 16) : State :=
  let s := s.set a (s[a] + s[b])
  let s := s.set d (rotateLeft (s[d] ^^^ s[a]) 16)
  let s := s.set c (s[c] + s[d])
  let s := s.set b (rotateLeft (s[b] ^^^ s[c]) 12)
  let s := s.set a (s[a] + s[b])
  let s := s.set d (rotateLeft (s[d] ^^^ s[a]) 8)
  let s := s.set c (s[c] + s[d])
  s.set b (rotateLeft (s[b] ^^^ s[c]) 7)

/-- Mix the four columns, then the four diagonals. -/
def doubleRound (s : State) : State :=
  let s := quarterRound s 0 4 8 12
  let s := quarterRound s 1 5 9 13
  let s := quarterRound s 2 6 10 14
  let s := quarterRound s 3 7 11 15
  let s := quarterRound s 0 5 10 15
  let s := quarterRound s 1 6 11 12
  let s := quarterRound s 2 7 8 13
  quarterRound s 3 4 9 14

def mix : Nat → State → State
  | 0, s => s
  | count + 1, s => mix count (doubleRound s)

abbrev Key := Vector UInt32 8

/-- The state that block number `block` starts from. -/
def start (key : Key) (block : UInt64) : State :=
  #v[0x61707865, 0x3320646e, 0x79622d32, 0x6b206574,
    key[0], key[1], key[2], key[3], key[4], key[5], key[6], key[7],
    block.toUInt32, (block >>> 32).toUInt32, 0, 0]

/-- Block number `block` of the stream of a key. -/
def block (key : Key) (block : UInt64) : State :=
  let first := start key block
  Vector.zipWith (· + ·) first (mix 10 first)

/-- Word number `index` of the stream of a key. -/
def word (key : Key) (index : Nat) : UInt32 :=
  (block key (UInt64.ofNat (index / 16))).get (.ofNat 16 index)

/-- One step of the linear congruential generator. -/
def spreadStep (state : UInt64) : UInt64 :=
  state * 6364136223846793005 + 11634580027462260723

/-- The word that a state of the generator gives out: a fold of its high bits, rotated by the
highest five. -/
def spreadWord (state : UInt64) : UInt32 :=
  let folded := (((state >>> 18) ^^^ state) >>> 27).toUInt32
  rotateRight folded (state >>> 59).toNat

/-- The state of the generator after `count` steps. -/
def spread (seed : UInt64) : Nat → UInt64
  | 0 => seed
  | count + 1 => spreadStep (spread seed count)

def Key.ofSeed (seed : UInt64) : Key :=
  Vector.ofFn fun i => spreadWord (spread seed (i + 1))

end ChaCha

end Chip8
