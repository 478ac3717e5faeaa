import Chip8.Screen.Text

/-!
What the text of a screen tells.

The text has a line for each row and a character for each pixel, and each line ends with a character
of its own.  So the place of a pixel's character follows from its column and its row, there are as
many marks as lit pixels, and a screen can be read back from its text.
-/

namespace Chip8

/-- The places of a grid row by row. -/
theorem range_mul_eq_flatMap (width height : Nat) :
    List.range (width * height) =
      (List.range height).flatMap fun y => (List.range width).map fun x => width * y + x := by
  induction height with
  | zero => rfl
  | succ height ih =>
      rw [Nat.mul_succ, List.range_add, ih, List.range_succ, List.flatMap_append,
        List.flatMap_singleton]

namespace Screen

variable (s : Screen)

theorem mark_pixel (p : Point) : mark (s.pixel p) = if s.byte p = 1 then '#' else ' ' := by
  simp only [mark, ← pixel_eq_true_iff]

theorem getElem_cells {place : Nat} (hplace : place < 2048) :
    s.cells[place] = (s.pixel ⟨place % 64, place / 64⟩).toUInt8 := by
  have hcell : 64 * (place / 64 % 32) + place % 64 % 64 = place := by omega
  rw [← byte_eq_toUInt8]
  simp only [byte, Point.cell, Fin.getElem_fin, hcell]

/-- The display memory holds the rows one after another. -/
theorem toList_cells : s.cells.toList = s.rows.flatten.map Bool.toUInt8 := by
  have hplaces : s.cells.toList =
      (List.range (64 * 32)).map fun place => (s.pixel ⟨place % 64, place / 64⟩).toUInt8 := by
    apply List.ext_getElem
    · simp
    · intro place hplace _
      have hbound : place < 2048 := by simpa using hplace
      rw [Vector.getElem_toList, s.getElem_cells hbound, List.getElem_map, List.getElem_range]
  rw [hplaces, range_mul_eq_flatMap, List.map_flatMap, List.flatMap_def, rows, List.map_flatten,
    List.map_map]
  refine congrArg List.flatten (List.map_congr_left ?_)
  intro y _
  rw [Function.comp_apply, row, List.map_map, List.map_map]
  refine List.map_congr_left ?_
  intro x hx
  have hbound : x < 64 := List.mem_range.1 hx
  have hcolumn : (64 * y + x) % 64 = x := by omega
  have hrow : (64 * y + x) / 64 = y := by omega
  rw [Function.comp_apply, Function.comp_apply, hcolumn, hrow]

/-- The lit pixels are those of the rows. -/
theorem litCount_eq_count : s.litCount = s.rows.flatten.count true := by
  have hlit : ∀ lit : Bool, lit.toUInt8 == 1 ↔ lit == true := by decide
  rw [litCount, ← Vector.count_toList, toList_cells, List.count, List.count, List.countP_map]
  exact List.countP_congr fun lit _ => hlit lit

theorem count_rowText (row : List Bool) : (rowText row).count '#' = row.count true := by
  have hmark : ∀ lit : Bool, mark lit == '#' ↔ lit == true := by decide
  have hend : ['\n'].count '#' = 0 := by decide
  rw [rowText, List.count_append, hend, Nat.add_zero, List.count, List.count, List.countP_map]
  exact List.countP_congr fun lit _ => hmark lit

theorem count_flatMap_rowText (rows : List (List Bool)) :
    (rows.flatMap rowText).count '#' = rows.flatten.count true := by
  induction rows with
  | nil => rfl
  | cons row rest ih =>
      rw [List.flatMap_cons, List.count_append, count_rowText, ih, List.flatten_cons,
        List.count_append]

/-- The text of a screen has a mark for each lit pixel. -/
theorem count_toText : s.toText.toList.count '#' = s.litCount := by
  rw [toText, String.toList_ofList, textChars, count_flatMap_rowText, litCount_eq_count]

theorem getElem?_toText {x y : Nat} (hx : x < 64) (hy : y < 32) :
    s.toText.toList[65 * y + x]? = some (if s.byte ⟨x, y⟩ = 1 then '#' else ' ') := by
  rw [toText, String.toList_ofList, getElem?_textChars s hx hy, mark_pixel]

theorem exists_lines :
    ∃ lines : List (List Char), s.toText.toList = lines.flatMap (· ++ ['\n']) ∧
      lines.map List.length = List.replicate 32 64 ∧ '\n' ∉ lines.flatten := by
  refine ⟨s.rows.map (List.map mark), ?_, ?_, ?_⟩
  · rw [toText, String.toList_ofList, textChars, List.flatMap_map]
    rfl
  · rw [List.map_map, List.eq_replicate_iff]
    refine ⟨by rw [List.length_map, length_rows], ?_⟩
    intro length hlength
    obtain ⟨row, hrow, rfl⟩ := List.mem_map.1 hlength
    obtain ⟨y, -, rfl⟩ := List.mem_map.1 hrow
    rw [Function.comp_apply, List.length_map, length_row]
  · intro hend
    obtain ⟨line, hline, hmem⟩ := List.mem_flatten.1 hend
    obtain ⟨row, -, rfl⟩ := List.mem_map.1 hline
    obtain ⟨lit, -, hlit⟩ := List.mem_map.1 hmem
    revert lit
    decide

theorem toText_inj {s t : Screen} : s.toText = t.toText ↔ s = t := by
  constructor
  · intro htext
    rw [← ofText_toText s, htext, ofText_toText]
  · exact congrArg toText

/-- The text of a screen is 32 lines of 64 characters, each line with an end of its own.  The
character for column `x` of row `y` stands at place `65 * y + x` and is a mark just where the pixel
is lit, and a blank elsewhere; there are as many marks as lit pixels.  Read cell by cell the text
gives the screen again, so different screens have different texts. -/
theorem text_shows_screen (s : Screen) :
    (∃ lines : List (List Char), s.toText.toList = lines.flatMap (· ++ ['\n']) ∧
      lines.map List.length = List.replicate 32 64 ∧ '\n' ∉ lines.flatten) ∧
    (∀ (x : Fin 64) (y : Fin 32), s.toText.toList[65 * y.val + x.val]? =
      some (if s.byte ⟨x, y⟩ = 1 then '#' else ' ')) ∧
    s.toText.toList.count '#' = s.litCount ∧
    ofText s.toText = s ∧
    ∀ t : Screen, s.toText = t.toText ↔ s = t :=
  ⟨s.exists_lines, fun x y => s.getElem?_toText x.isLt y.isLt, s.count_toText, s.ofText_toText,
    fun _ => toText_inj⟩

end Screen

end Chip8
