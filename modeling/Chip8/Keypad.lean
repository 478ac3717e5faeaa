/-!
The keypad: sixteen keys, each up or down.

A keypad is a bit per key.  Keys beyond the sixteenth are never down.  `firstPressed?` compares
two looks at the keypad and gives the lowest key that went down between them.
-/

namespace Chip8

/-- A look at the keypad; bit `k` is set when key `k` is down. -/
@[ext]
structure Keypad where
  down : BitVec 16
  deriving DecidableEq, Repr

namespace Keypad

def released : Keypad :=
  ⟨0⟩

/-- Only one key is down; of its number the last hexadecimal digit counts. -/
def single (key : UInt8) : Keypad :=
  ⟨BitVec.twoPow 16 (key.toNat % 16)⟩

def isDown (keypad : Keypad) (key : Nat) : Bool :=
  keypad.down.getLsbD key

/-- The keypad on which the keys that satisfy a test are down. -/
def ofPredicate (test : Nat → Bool) : Keypad :=
  ⟨(BitVec.ofBoolListLE ((List.range 16).map test)).setWidth 16⟩

/-- The key was up before and is down now. -/
def wentDown (before now : Keypad) (key : Nat) : Bool :=
  now.isDown key && !before.isDown key

/-- The lowest key that was up before and is down now. -/
def firstPressed? (before now : Keypad) : Option Nat :=
  (List.range 16).find? (wentDown before now)

@[simp] theorem isDown_released (key : Nat) : released.isDown key = false := by
  simp [isDown, released]

theorem isDown_of_sixteen_le (keypad : Keypad) {key : Nat} (h : 16 ≤ key) :
    keypad.isDown key = false :=
  BitVec.getLsbD_of_ge keypad.down key h

theorem isDown_single (key : UInt8) (other : Nat) :
    (single key).isDown other = decide (other = key.toNat % 16) := by
  have h : key.toNat % 16 < 16 := Nat.mod_lt _ (by decide)
  simp [isDown, single, BitVec.getLsbD_twoPow, h, eq_comm]

theorem isDown_ofPredicate (test : Nat → Bool) {key : Nat} (h : key < 16) :
    (ofPredicate test).isDown key = test key := by
  simp only [isDown, ofPredicate, BitVec.getLsbD_setWidth, BitVec.getLsbD_ofBoolListLE]
  simp [h]

theorem ext_isDown {p q : Keypad} (h : ∀ key, key < 16 → p.isDown key = q.isDown key) :
    p = q := by
  apply Keypad.ext
  apply BitVec.eq_of_getLsbD_eq
  intro key hkey
  exact h key hkey

theorem firstPressed?_eq_none_iff (before now : Keypad) :
    firstPressed? before now = none ↔ ∀ key, wentDown before now key = false := by
  constructor
  · intro h key
    by_cases hkey : key < 16
    · have := (List.find?_eq_none.1 h) key (List.mem_range.2 hkey)
      simpa using this
    · simp [wentDown, isDown_of_sixteen_le now (Nat.le_of_not_lt hkey)]
  · intro h
    apply List.find?_eq_none.2
    intro key _
    simp [h key]

end Keypad

end Chip8
