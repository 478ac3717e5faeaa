import Chip8.Keypad

/-!
A key script: looks at the keypad prepared in advance, handed out one per request.

When the script is used up the last look stays; before the first one all keys are up.  A device
without keys is the empty script.
-/

namespace Chip8

/-- The looks still to come, and the one handed out last. -/
structure KeyScript where
  pending : List Keypad
  held : Keypad
  deriving DecidableEq, Repr

namespace KeyScript

/-- The script of the given looks. -/
def ofList (looks : List Keypad) : KeyScript :=
  ⟨looks, .released⟩

/-- The script of a device without keys. -/
def silent : KeyScript :=
  ofList []

/-- The script after one request; the answer to the request is what it holds then. -/
def next : KeyScript → KeyScript
  | ⟨[], held⟩ => ⟨[], held⟩
  | ⟨look :: rest, _⟩ => ⟨rest, look⟩

/-- The answers to `count` requests. -/
def answers (script : KeyScript) : Nat → List Keypad
  | 0 => []
  | count + 1 => script.next.held :: script.next.answers count

end KeyScript

end Chip8
