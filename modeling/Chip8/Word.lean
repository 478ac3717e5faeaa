/-!
Instruction words and their hexadecimal digits.

A word is two bytes, the high byte first.  Written in hexadecimal its first digit names a family
of instructions; the other three hold registers `X` and `Y`, a digit `N`, a byte `NN` or an
address `NNN`.  Every field is a quotient or a remainder of the word, so that
`toNat_eq_digits` and the other lemmas below are all that arithmetic on fields needs.  The words
`FNNN`, `FXNN` and `FXYN` are built from their fields, and have them as long as each is within its
digits.
-/

namespace Chip8

abbrev Word := UInt16

namespace Word

def ofBytes (high low : UInt8) : Word :=
  high.toUInt16 * 256 + low.toUInt16

/-- The byte a word has at the lower of its two addresses. -/
def high (w : Word) : UInt8 :=
  (w / 256).toUInt8

/-- The byte a word has at the higher of its two addresses. -/
def low (w : Word) : UInt8 :=
  w.toUInt8

/-- The first digit, which names the family of the instruction. -/
def family (w : Word) : UInt8 :=
  (w / 4096).toUInt8

def x (w : Word) : UInt8 :=
  (w / 256 % 16).toUInt8

def y (w : Word) : UInt8 :=
  (w / 16 % 16).toUInt8

def n (w : Word) : UInt8 :=
  (w % 16).toUInt8

def nn (w : Word) : UInt8 :=
  w.low

def nnn (w : Word) : UInt16 :=
  w % 4096

def digits (w : Word) : List UInt8 :=
  [w.family, w.x, w.y, w.n]

/-- The word `FNNN` for a first digit `F`. -/
def ofAddress (family : UInt8) (address : UInt16) : Word :=
  4096 * family.toUInt16 + address

def ofByte (family x byte : UInt8) : Word :=
  4096 * family.toUInt16 + 256 * x.toUInt16 + byte.toUInt16

def ofDigits (family x y n : UInt8) : Word :=
  4096 * family.toUInt16 + 256 * x.toUInt16 + 16 * y.toUInt16 + n.toUInt16

theorem toNat_ofBytes (high low : UInt8) :
    (ofBytes high low).toNat = 256 * high.toNat + low.toNat := by
  have hh := high.toNat_lt
  have hl := low.toNat_lt
  simp only [ofBytes, UInt16.toNat_add, UInt16.toNat_mul, UInt8.toNat_toUInt16]
  change (high.toNat * 256 % 65536 + low.toNat) % 65536 = _
  omega

theorem toNat_high (w : Word) : w.high.toNat = w.toNat / 256 := by
  have hw := w.toNat_lt
  simp only [high, UInt16.toNat_toUInt8, UInt16.toNat_div]
  change w.toNat / 256 % 256 = _
  omega

theorem toNat_low (w : Word) : w.low.toNat = w.toNat % 256 := by
  simp [low]

theorem toNat_family (w : Word) : w.family.toNat = w.toNat / 4096 := by
  have hw := w.toNat_lt
  simp only [family, UInt16.toNat_toUInt8, UInt16.toNat_div]
  change w.toNat / 4096 % 256 = _
  omega

theorem toNat_x (w : Word) : w.x.toNat = w.toNat / 256 % 16 := by
  simp only [x, UInt16.toNat_toUInt8, UInt16.toNat_mod, UInt16.toNat_div]
  change w.toNat / 256 % 16 % 256 = _
  omega

theorem toNat_y (w : Word) : w.y.toNat = w.toNat / 16 % 16 := by
  simp only [y, UInt16.toNat_toUInt8, UInt16.toNat_mod, UInt16.toNat_div]
  change w.toNat / 16 % 16 % 256 = _
  omega

theorem toNat_n (w : Word) : w.n.toNat = w.toNat % 16 := by
  simp only [n, UInt16.toNat_toUInt8, UInt16.toNat_mod]
  change w.toNat % 16 % 256 = _
  omega

theorem toNat_nn (w : Word) : w.nn.toNat = w.toNat % 256 :=
  toNat_low w

theorem toNat_nnn (w : Word) : w.nnn.toNat = w.toNat % 4096 := by
  simp only [nnn, UInt16.toNat_mod]
  rfl

/-- A word is the number that its four digits write. -/
theorem toNat_eq_digits (w : Word) :
    w.toNat =
      4096 * w.family.toNat + 256 * w.x.toNat + 16 * w.y.toNat + w.n.toNat := by
  rw [toNat_family, toNat_x, toNat_y, toNat_n]
  have hw := w.toNat_lt
  omega

@[simp] theorem high_ofBytes (high low : UInt8) : (ofBytes high low).high = high := by
  apply UInt8.toNat_inj.1
  have hl := low.toNat_lt
  rw [toNat_high, toNat_ofBytes]
  omega

@[simp] theorem low_ofBytes (high low : UInt8) : (ofBytes high low).low = low := by
  apply UInt8.toNat_inj.1
  have hl := low.toNat_lt
  rw [toNat_low, toNat_ofBytes]
  omega

@[simp] theorem ofBytes_high_low (w : Word) : ofBytes w.high w.low = w := by
  apply UInt16.toNat_inj.1
  rw [toNat_ofBytes, toNat_high, toNat_low]
  omega

theorem toNat_ofAddress {family : UInt8} {address : UInt16} (hf : family < 16)
    (ha : address < 4096) :
    (ofAddress family address).toNat = 4096 * family.toNat + address.toNat := by
  have hf' : family.toNat < 16 := hf
  have ha' : address.toNat < 4096 := ha
  simp only [ofAddress, UInt16.toNat_add, UInt16.toNat_mul, UInt8.toNat_toUInt16]
  change (4096 * family.toNat % 65536 + address.toNat) % 65536 = _
  omega

theorem toNat_ofByte {family x byte : UInt8} (hf : family < 16) (hx : x < 16) :
    (ofByte family x byte).toNat = 4096 * family.toNat + 256 * x.toNat + byte.toNat := by
  have hf' : family.toNat < 16 := hf
  have hx' : x.toNat < 16 := hx
  have hb := byte.toNat_lt
  simp only [ofByte, UInt16.toNat_add, UInt16.toNat_mul, UInt8.toNat_toUInt16]
  change ((4096 * family.toNat % 65536 + 256 * x.toNat % 65536) % 65536 + byte.toNat) % 65536 = _
  omega

theorem toNat_ofDigits {family x y n : UInt8} (hf : family < 16) (hx : x < 16) (hy : y < 16)
    (hn : n < 16) :
    (ofDigits family x y n).toNat =
      4096 * family.toNat + 256 * x.toNat + 16 * y.toNat + n.toNat := by
  have hf' : family.toNat < 16 := hf
  have hx' : x.toNat < 16 := hx
  have hy' : y.toNat < 16 := hy
  have hn' : n.toNat < 16 := hn
  simp only [ofDigits, UInt16.toNat_add, UInt16.toNat_mul, UInt8.toNat_toUInt16]
  change (((4096 * family.toNat % 65536 + 256 * x.toNat % 65536) % 65536 +
    16 * y.toNat % 65536) % 65536 + n.toNat) % 65536 = _
  omega

theorem family_ofAddress {family : UInt8} {address : UInt16} (hf : family < 16)
    (ha : address < 4096) : (ofAddress family address).family = family := by
  have ha' : address.toNat < 4096 := ha
  apply UInt8.toNat_inj.1
  rw [toNat_family, toNat_ofAddress hf ha]
  omega

theorem nnn_ofAddress {family : UInt8} {address : UInt16} (hf : family < 16)
    (ha : address < 4096) : (ofAddress family address).nnn = address := by
  have ha' : address.toNat < 4096 := ha
  apply UInt16.toNat_inj.1
  rw [toNat_nnn, toNat_ofAddress hf ha]
  omega

theorem fields_ofByte {family x byte : UInt8} (hf : family < 16) (hx : x < 16) :
    (ofByte family x byte).family = family ∧ (ofByte family x byte).x = x ∧
      (ofByte family x byte).nn = byte := by
  have hx' : x.toNat < 16 := hx
  have hb := byte.toNat_lt
  refine ⟨UInt8.toNat_inj.1 ?_, UInt8.toNat_inj.1 ?_, UInt8.toNat_inj.1 ?_⟩
  · rw [toNat_family, toNat_ofByte hf hx]
    omega
  · rw [toNat_x, toNat_ofByte hf hx]
    omega
  · rw [toNat_nn, toNat_ofByte hf hx]
    omega

theorem fields_ofDigits {family x y n : UInt8} (hf : family < 16) (hx : x < 16) (hy : y < 16)
    (hn : n < 16) :
    (ofDigits family x y n).family = family ∧ (ofDigits family x y n).x = x ∧
      (ofDigits family x y n).y = y ∧ (ofDigits family x y n).n = n := by
  have hx' : x.toNat < 16 := hx
  have hy' : y.toNat < 16 := hy
  have hn' : n.toNat < 16 := hn
  refine ⟨UInt8.toNat_inj.1 ?_, UInt8.toNat_inj.1 ?_, UInt8.toNat_inj.1 ?_,
    UInt8.toNat_inj.1 ?_⟩
  · rw [toNat_family, toNat_ofDigits hf hx hy hn]
    omega
  · rw [toNat_x, toNat_ofDigits hf hx hy hn]
    omega
  · rw [toNat_y, toNat_ofDigits hf hx hy hn]
    omega
  · rw [toNat_n, toNat_ofDigits hf hx hy hn]
    omega

end Word

end Chip8
