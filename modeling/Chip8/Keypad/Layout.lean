import Chip8.Keypad

/-!
Where the keys of the hexadecimal keypad lie on a typewriter keyboard: in four rows of four, on
the left side.
-/

namespace Chip8.Keypad

/-- The keyboard characters of the four rows, each with its key, from the top left. -/
def keyboardRows : List (Char × UInt8) :=
  [('1', 0x1), ('2', 0x2), ('3', 0x3), ('4', 0xC),
   ('q', 0x4), ('w', 0x5), ('e', 0x6), ('r', 0xD),
   ('a', 0x7), ('s', 0x8), ('d', 0x9), ('f', 0xE),
   ('z', 0xA), ('x', 0x0), ('c', 0xB), ('v', 0xF)]

/-- The key that a character types; a capital letter types the key of its small letter. -/
def ofKeyboard? (character : Char) : Option UInt8 :=
  keyboardRows.lookup character.toLower

/-- Every key can be typed. -/
theorem exists_ofKeyboard? (key : Fin 16) :
    ∃ character, ofKeyboard? character = some (UInt8.ofNat key) := by
  have h : ∀ k : Fin 16, ∃ entry ∈ keyboardRows,
      ofKeyboard? entry.1 = some (UInt8.ofNat k) := by decide
  obtain ⟨entry, -, hentry⟩ := h key
  exact ⟨entry.1, hentry⟩

end Chip8.Keypad
