import Chip8.Keypad

/-!
Keys that count as down for a while after each press.

Some input devices report when a key is pressed and never when it is let go.  A `KeyHold` keeps
the latest press of each key; a key counts as down for less than `timeout` after it.  Instants and
the timeout are nanoseconds on one time line.
-/

namespace Chip8

/-- The latest press of each key, and how long a press lasts. -/
structure KeyHold where
  timeout : Nat
  pressedAt : Vector (Option Nat) 16
  deriving DecidableEq, Repr

namespace KeyHold

/-- No key has been pressed yet. -/
def ofTimeout (timeout : Nat) : KeyHold :=
  ⟨timeout, Vector.replicate 16 none⟩

/-- A key is pressed at an instant; of its number the last hexadecimal digit counts. -/
def press (hold : KeyHold) (key : UInt8) (instant : Nat) : KeyHold :=
  { hold with pressedAt := hold.pressedAt.set (key.toNat % 16) (some instant) }

def lastPress? (hold : KeyHold) (key : Nat) : Option Nat :=
  hold.pressedAt[key % 16]

/-- The key was pressed less than the timeout before the instant `now`. -/
def holds (hold : KeyHold) (now key : Nat) : Bool :=
  match hold.lastPress? key with
  | some instant => decide (now - instant < hold.timeout)
  | none => false

/-- The keys that count as down at the instant `now`. -/
def keypad (hold : KeyHold) (now : Nat) : Keypad :=
  Keypad.ofPredicate (hold.holds now)

@[simp] theorem lastPress?_ofTimeout (timeout key : Nat) :
    (ofTimeout timeout).lastPress? key = none := by
  simp [lastPress?, ofTimeout]

theorem lastPress?_press (hold : KeyHold) (key : UInt8) (instant other : Nat) :
    (hold.press key instant).lastPress? other =
      if other % 16 = key.toNat % 16 then some instant else hold.lastPress? other := by
  simp only [lastPress?, press, Vector.getElem_set, eq_comm]

end KeyHold

end Chip8
