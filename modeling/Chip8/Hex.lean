/-!
Numbers in lower-case hexadecimal digits, padded with zeros on the left to a least width.
-/

namespace Chip8.Hex

/-- The digits of a number, at least `width` of them. -/
def digits (width number : Nat) : List Char :=
  let significant := Nat.toDigits 16 number
  List.replicate (width - significant.length) '0' ++ significant

/-- A number with at least four digits after the sign `0x`, the way addresses and words are
shown. -/
def address (number : Nat) : String :=
  "0x" ++ String.ofList (digits 4 number)

theorem width_le_length_digits (width number : Nat) :
    width ≤ (digits width number).length := by
  simp only [digits, List.length_append, List.length_replicate]
  omega

end Chip8.Hex
