import Chip8.Screen

/-!
A screen on a text terminal, two characters per pixel, inside a border one character wide.

The terminal remembers the screen it shows; drawing another one writes only the rows that differ.
A row is written by moving the cursor to where it starts and printing it.
-/

namespace Chip8

structure Terminal where
  shown : Screen
  deriving DecidableEq, Repr

structure RowWrite where
  row : Nat
  pixels : List Bool
  deriving DecidableEq, Repr

namespace Terminal

def blank : Terminal :=
  ⟨.blank⟩

/-- The rows to write to get from one screen to another, from top to bottom. -/
def changes (before after : Screen) : List RowWrite :=
  ((List.range Screen.height).filter fun y => after.row y != before.row y).map fun y =>
    ⟨y, after.row y⟩

/-- Draw a screen: the rows written, and the terminal afterwards. -/
def draw (t : Terminal) (screen : Screen) : List RowWrite × Terminal :=
  (changes t.shown screen, ⟨screen⟩)

def pixelText (lit : Bool) : String :=
  if lit then "██" else "  "

def rowText (pixels : List Bool) : String :=
  String.join (pixels.map pixelText)

/-- Start of a control sequence. -/
def control : String := "\x1b["

/-- Move the cursor to a line and a column, both counted from one. -/
def moveTo (line column : Nat) : String :=
  control ++ Nat.repr line ++ ";" ++ Nat.repr column ++ "H"

/-- What writing a row prints: the row of pixels `y` stands in line `y + 2` from column two, next
to the border. -/
def RowWrite.text (write : RowWrite) : String :=
  moveTo (write.row + 2) 2 ++ rowText write.pixels

def drawText (writes : List RowWrite) : String :=
  String.join (writes.map RowWrite.text)

/-- What a tone prints: a terminal can only beep, and does when the tone starts. -/
def toneText (on : Bool) : String :=
  if on then "\x07" else ""

/-- What closing prints: back to the ordinary screen, with the cursor visible. -/
def closingText : String :=
  control ++ "?1049l" ++ control ++ "?25h"

theorem mem_changes (before after : Screen) (write : RowWrite) :
    write ∈ changes before after ↔
      write.row < 32 ∧ after.row write.row ≠ before.row write.row ∧
        write.pixels = after.row write.row := by
  simp only [changes, List.mem_map, List.mem_filter, List.mem_range, Screen.height, bne_iff_ne]
  constructor
  · rintro ⟨y, ⟨hy, hne⟩, rfl⟩
    exact ⟨hy, hne, rfl⟩
  · rintro ⟨hy, hne, hpixels⟩
    exact ⟨write.row, ⟨hy, hne⟩, by rw [← hpixels]⟩

/-- Drawing what is on the terminal already writes nothing. -/
theorem changes_self (screen : Screen) : changes screen screen = [] := by
  simp [changes]

end Terminal

end Chip8
