/-!
The sixteen byte registers `V0` to `VF`.

A register number is a byte of which only the last hexadecimal digit counts, so every number
names a register.  The view is `get`; `get_set` and `get_setAll` say what the writes do to it.
-/

namespace Chip8

@[ext]
structure Registers where
  values : Vector UInt8 16
  deriving DecidableEq, Repr

namespace Registers

def zero : Registers :=
  ⟨Vector.replicate 16 0⟩

/-- The register that receives carries, borrows and collisions. -/
def flag : UInt8 := 0xF

theorem last_digit_lt (number : UInt8) : number.toNat % 16 < 16 := by
  omega

/-- The place of the register that a number names. -/
def place (number : UInt8) : Fin 16 :=
  ⟨number.toNat % 16, last_digit_lt number⟩

def get (r : Registers) (number : UInt8) : UInt8 :=
  r.values[place number]

def set (r : Registers) (number value : UInt8) : Registers :=
  ⟨r.values.set (place number) value⟩

/-- Put values into consecutive registers; after `VF` comes `V0` again. -/
def setAll (r : Registers) (number : UInt8) : List UInt8 → Registers
  | [] => r
  | value :: rest => (r.set number value).setAll (number + 1) rest

/-- The number behind another names the register behind that one's. -/
theorem toNat_next_mod (number : UInt8) : (number + 1).toNat % 16 = (number.toNat + 1) % 16 := by
  rw [UInt8.toNat_add]
  change (number.toNat + 1) % 256 % 16 = _
  omega

/-- The values of all registers, `V0` first. -/
def toList (r : Registers) : List UInt8 :=
  r.values.toList

def first (r : Registers) (count : Nat) : List UInt8 :=
  r.toList.take count

@[simp] theorem get_zero (number : UInt8) : zero.get number = 0 := by
  simp [get, zero]

theorem get_set (r : Registers) (number other value : UInt8) :
    (r.set number value).get other =
      if other.toNat % 16 = number.toNat % 16 then value else r.get other := by
  simp only [get, set, place, Fin.getElem_fin, Vector.getElem_set, eq_comm]

@[simp] theorem get_set_self (r : Registers) (number value : UInt8) :
    (r.set number value).get number = value := by
  simp [get_set]

theorem get_set_of_ne (r : Registers) {number other : UInt8} (value : UInt8)
    (h : other.toNat % 16 ≠ number.toNat % 16) :
    (r.set number value).get other = r.get other := by
  simp [get_set, h]

/-- Only the last digit of a register number counts. -/
theorem get_mod (r : Registers) (number : UInt8) : r.get (number % 16) = r.get number := by
  simp [get, place]

theorem set_mod (r : Registers) (number value : UInt8) :
    r.set (number % 16) value = r.set number value := by
  simp [set, place]

theorem get_ofNat (r : Registers) (i : Nat) (h : i < 16) :
    r.get (UInt8.ofNat i) = r.values[i] := by
  have hmod : i % 16 = i := Nat.mod_eq_of_lt h
  simp [get, place, hmod]

theorem ext_get {r r' : Registers} (h : ∀ number : UInt8, r.get number = r'.get number) :
    r = r' := by
  apply Registers.ext
  apply Vector.ext
  intro i hi
  rw [← get_ofNat r i hi, ← get_ofNat r' i hi]
  exact h _

@[simp] theorem length_toList (r : Registers) : r.toList.length = 16 := by
  simp [toList]

theorem length_first (r : Registers) {count : Nat} (h : count ≤ 16) :
    (r.first count).length = count := by
  simp [first, h]

theorem getElem?_first (r : Registers) {count i : Nat} (h : i < count) (hi : i < 16) :
    (r.first count)[i]? = some (r.get (UInt8.ofNat i)) := by
  rw [get_ofNat r i hi]
  simp [first, toList, h, hi]

end Registers

end Chip8
