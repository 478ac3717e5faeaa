import Chip8.Screen

/-!
A screen as text: a line per row, with a mark for each lit pixel and a blank for each dark one.

`ofText` reads such a text back cell by cell; `ofText_toText` says that nothing is lost.
-/

namespace Chip8.Screen

def mark (lit : Bool) : Char :=
  if lit then '#' else ' '

/-- The text of a row, with the end of its line. -/
def rowText (row : List Bool) : List Char :=
  row.map mark ++ ['\n']

def textChars (s : Screen) : List Char :=
  s.rows.flatMap rowText

def toText (s : Screen) : String :=
  String.ofList s.textChars

/-- The text of a screen under a line that tells how many pixels are lit. -/
def toTitledText (s : Screen) : String :=
  "Framebuffer(" ++ Nat.repr s.litCount ++ " lit)\n" ++ s.toText

/-- The screen that a text shows: where the mark stands at column `x` of line `y`, the pixel is
lit. -/
def ofText (text : String) : Screen :=
  let chars := text.toList
  ofPredicate fun x y => chars[65 * y + x]? == some (mark true)

theorem mark_inj {a b : Bool} (h : mark a = mark b) : a = b := by
  cases a <;> cases b <;> first | rfl | exact absurd h (by decide)

theorem length_rowText (s : Screen) (y : Nat) : (rowText (s.row y)).length = 65 := by
  simp [rowText]

/-- The character at column `x` of line `y`. -/
theorem getElem?_flatMap_rowText (s : Screen) (start count x y : Nat) (hx : x < 64)
    (hy : y < count) :
    ((List.range' start count).flatMap fun line => rowText (s.row line))[65 * y + x]? =
      some (mark (s.pixel ⟨x, start + y⟩)) := by
  induction count generalizing start y with
  | zero => omega
  | succ count ih =>
      rw [List.range'_succ, List.flatMap_cons]
      have hlength := length_rowText s start
      cases y with
      | zero =>
          rw [List.getElem?_append_left (by omega)]
          simp [rowText, List.getElem?_append, row, width, hx]
      | succ y =>
          rw [List.getElem?_append_right (by omega)]
          have hindex : 65 * (y + 1) + x - (rowText (s.row start)).length = 65 * y + x := by omega
          rw [hindex, ih (start + 1) y (by omega), Nat.add_assoc, Nat.add_comm 1 y]

theorem getElem?_textChars (s : Screen) {x y : Nat} (hx : x < 64) (hy : y < 32) :
    s.textChars[65 * y + x]? = some (mark (s.pixel ⟨x, y⟩)) := by
  have := getElem?_flatMap_rowText s 0 32 x y hx hy
  simpa [textChars, rows, height, List.range_eq_range', List.flatMap_map] using this

/-- Reading the text of a screen gives the screen. -/
theorem ofText_toText (s : Screen) : ofText s.toText = s := by
  apply ext_pixel
  intro x hx y hy
  simp only [ofText, toText, String.toList_ofList, pixel_ofPredicate _ hx hy,
    getElem?_textChars s hx hy]
  cases s.pixel ⟨x, y⟩ <;> decide

end Chip8.Screen
