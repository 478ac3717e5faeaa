import Chip8.Memory

/-!
The built-in glyphs of the sixteen hexadecimal digits, five rows each, at the start of memory.
-/

namespace Chip8

namespace Font

def base : UInt16 := 0x000

def glyphHeight : UInt16 := 5

/-- The rows of the glyphs of `0` to `F`. -/
def rows : List UInt8 :=
  [0xF0, 0x90, 0x90, 0x90, 0xF0,
   0x20, 0x60, 0x20, 0x20, 0x70,
   0xF0, 0x10, 0xF0, 0x80, 0xF0,
   0xF0, 0x10, 0xF0, 0x10, 0xF0,
   0x90, 0x90, 0xF0, 0x10, 0x10,
   0xF0, 0x80, 0xF0, 0x10, 0xF0,
   0xF0, 0x80, 0xF0, 0x90, 0xF0,
   0xF0, 0x10, 0x20, 0x40, 0x40,
   0xF0, 0x90, 0xF0, 0x90, 0xF0,
   0xF0, 0x90, 0xF0, 0x10, 0xF0,
   0xF0, 0x90, 0xF0, 0x90, 0x90,
   0xE0, 0x90, 0xE0, 0x90, 0xE0,
   0xF0, 0x80, 0x80, 0x80, 0xF0,
   0xE0, 0x90, 0x90, 0x90, 0xE0,
   0xF0, 0x80, 0xF0, 0x80, 0xF0,
   0xF0, 0x80, 0xF0, 0x80, 0x80]

/-- The address of the glyph of a number; numbers beyond `F` point past the last glyph. -/
def address (number : UInt8) : UInt16 :=
  base + glyphHeight * number.toUInt16

theorem length_rows : rows.length = 80 :=
  rfl

end Font

/-- Memory that holds the font and zeros. -/
def Memory.initial : Memory :=
  Memory.zero.pokeAll Font.base.toNat Font.rows

theorem Memory.peek_initial (address : Nat) :
    Memory.initial.peek address = (Font.rows[address]?).getD 0 := by
  rw [Memory.initial, Memory.peek_pokeAll _ _ _ _ (by decide), Memory.peek_zero]
  rfl

end Chip8
