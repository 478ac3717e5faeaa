import Chip8.Terminal
import Mathlib.Data.List.Induction

/-!
What a viewer of the terminal sees.

A display is a plane of characters with a cursor.  It puts each character it reads at the cursor,
except that a control sequence moves the cursor.  The terminal prints only the rows that differ
from the screen it showed last, and yet the display always shows the latest screen as if all of it
had been printed, because what the terminal remembers is what stands on the display.
-/

namespace Chip8

/-- What a display is reading: text, or a control sequence with some of its numbers read. -/
inductive Reading
  | text
  | escape
  | numbers (finished : List Nat) (number : Nat)
  deriving DecidableEq

/-- A character for each line and column, both counted from zero, and a cursor. -/
structure Display where
  cell : Nat → Nat → Char
  line : Nat
  column : Nat
  reading : Reading

namespace Display

/-- Put a character at the cursor, which goes on to the next column. -/
def put (d : Display) (character : Char) : Display :=
  { d with
    cell := fun line column =>
      if line = d.line ∧ column = d.column then character else d.cell line column
    column := d.column + 1 }

/-- End a control sequence.  With `H` the cursor goes to a line and a column, which are counted from
one there; no other sequence matters. -/
def command (d : Display) (name : Char) (numbers : List Nat) : Display :=
  match name, numbers with
  | 'H', [line, column] => { d with line := line - 1, column := column - 1, reading := .text }
  | _, _ => { d with reading := .text }

def read (d : Display) (character : Char) : Display :=
  match d.reading with
  | .text => if character = '\x1b' then { d with reading := .escape } else d.put character
  | .escape => { d with reading := if character = '[' then .numbers [] 0 else .text }
  | .numbers finished number =>
      if character.isDigit then
        { d with reading := .numbers finished (10 * number + (character.toNat - '0'.toNat)) }
      else if character = ';' then { d with reading := .numbers (finished ++ [number]) 0 }
      else d.command character (finished ++ [number])

def write (d : Display) (text : String) : Display :=
  text.toList.foldl read d

/-- The line and the column are inside the border. -/
def Inside (line column : Nat) : Prop :=
  (1 ≤ line ∧ line ≤ 32) ∧ 1 ≤ column ∧ column ≤ 128

instance (line column : Nat) : Decidable (Inside line column) :=
  inferInstanceAs (Decidable (_ ∧ _))

/-- Characters next to one another, laid over a plane from a place on. -/
def lay (cell : Nat → Nat → Char) (line column : Nat) (characters : List Char) :
    Nat → Nat → Char :=
  fun l c =>
    if l = line ∧ column ≤ c then (characters[c - column]?).getD (cell l c) else cell l c

def glyph (lit : Bool) : Char :=
  if lit then '█' else ' '

/-- All of a screen on a display: two full blocks for each lit pixel, two blanks for each dark one,
with the top left pixel at line and column one, and what stands around the screen. -/
def rendering (screen : Screen) (around : Nat → Nat → Char) (line column : Nat) : Char :=
  if Inside line column then glyph (screen.pixel ⟨(column - 1) / 2, line - 1⟩)
  else around line column

variable {d : Display}

theorem write_append (d : Display) (first second : String) :
    d.write (first ++ second) = (d.write first).write second := by
  rw [write, String.toList_append, List.foldl_append]
  rfl

/-- Digits make up the number that they write. -/
theorem foldl_read_digits {finished : List Nat} {number : Nat} {digits : List Char}
    (hreading : d.reading = .numbers finished number)
    (hdigits : ∀ digit ∈ digits, digit.isDigit = true) :
    digits.foldl read d =
      { d with reading := .numbers finished (Nat.ofDigitChars 10 digits number) } := by
  induction digits generalizing d number with
  | nil =>
      rw [List.foldl_nil, Nat.ofDigitChars_nil, ← hreading]
  | cons digit rest ih =>
      obtain ⟨hdigit, hrest⟩ := List.forall_mem_cons.1 hdigits
      have hread : d.read digit = { d with
          reading := .numbers finished (10 * number + (digit.toNat - '0'.toNat)) } := by
        rw [read, hreading]
        exact if_pos hdigit
      rw [List.foldl_cons, hread, ih rfl hrest, Nat.ofDigitChars_cons]

theorem write_repr {finished : List Nat} (hreading : d.reading = .numbers finished 0)
    (number : Nat) :
    d.write (Nat.repr number) = { d with reading := .numbers finished number } := by
  rw [write, Nat.toList_repr, foldl_read_digits hreading,
    Nat.ofDigitChars_toDigits (by decide) (by decide)]
  intro digit hdigit
  exact Nat.isDigit_of_mem_toDigits (by decide) (by decide) hdigit

/-- The control sequence for a line and a column moves the cursor there. -/
theorem write_moveTo (hreading : d.reading = .text) (line column : Nat) :
    d.write (Terminal.moveTo line column) = { d with line := line - 1, column := column - 1 } := by
  have hcontrol : d.write Terminal.control = { d with reading := .numbers [] 0 } := by
    rw [write, show Terminal.control.toList = ['\x1b', '['] from rfl]
    simp only [List.foldl_cons, List.foldl_nil, read, hreading, if_pos]
  have hsemicolon : ∀ e : Display, e.reading = .numbers [] line →
      e.write ";" = { e with reading := .numbers [line] 0 } := by
    intro e he
    rw [write, show ";".toList = [';'] from rfl, List.foldl_cons, List.foldl_nil, read, he]
    rfl
  have hend : ∀ e : Display, e.reading = .numbers [line] column →
      e.write "H" = { e with line := line - 1, column := column - 1, reading := .text } := by
    intro e he
    rw [write, show "H".toList = ['H'] from rfl, List.foldl_cons, List.foldl_nil, read, he]
    rfl
  rw [Terminal.moveTo, write_append, write_append, write_append, write_append, hcontrol,
    write_repr rfl line, hsemicolon _ rfl, write_repr rfl column, hend _ rfl, ← hreading]

theorem lay_nil (cell : Nat → Nat → Char) (line column : Nat) :
    lay cell line column [] = cell := by
  funext l c
  exact ite_self _

theorem lay_put (d : Display) (first : Char) (rest : List Char) :
    lay (d.put first).cell d.line (d.column + 1) rest =
      lay d.cell d.line d.column (first :: rest) := by
  funext l c
  simp only [lay, put]
  -- Left of the cursor nothing is put, at the cursor the first character, and behind it the rest.
  by_cases hline : l = d.line
  · rcases Nat.lt_trichotomy c d.column with hbefore | rfl | hbehind
    · have hnot : ¬ d.column ≤ c := Nat.not_le_of_lt hbefore
      have hnot' : ¬ d.column + 1 ≤ c := by omega
      simp only [hnot, hnot', Nat.ne_of_lt hbefore, and_false, if_false]
    · simp only [hline, Nat.not_succ_le_self, Nat.le_refl, Nat.sub_self, and_false, and_self,
        if_false, if_true, List.getElem?_cons_zero, Option.getD_some]
    · have hindex : c - d.column = c - (d.column + 1) + 1 := by omega
      have hle : d.column ≤ c := Nat.le_of_lt hbehind
      simp only [hline, hle, Nat.succ_le_of_lt hbehind, Nat.ne_of_gt hbehind, hindex, and_false,
        and_self, if_false, if_true, List.getElem?_cons_succ]
  · simp only [hline, false_and, if_false]

/-- Text without control sequences stands from the cursor on. -/
theorem foldl_read_plain {characters : List Char} (hreading : d.reading = .text)
    (hplain : ∀ character ∈ characters, character ≠ '\x1b') :
    characters.foldl read d =
      { d with
        cell := lay d.cell d.line d.column characters
        column := d.column + characters.length } := by
  induction characters generalizing d with
  | nil => rw [lay_nil]; rfl
  | cons first rest ih =>
      obtain ⟨hfirst, hrest⟩ := List.forall_mem_cons.1 hplain
      have hread : d.read first = d.put first := by
        rw [read, hreading]
        exact if_neg hfirst
      rw [List.foldl_cons, hread, ih (d := d.put first) hreading hrest, ← lay_put,
        List.length_cons, Nat.add_comm rest.length, ← Nat.add_assoc]
      rfl

theorem toList_pixelText (lit : Bool) :
    (Terminal.pixelText lit).toList = [glyph lit, glyph lit] := by
  cases lit with
  | _ => rfl

theorem toList_rowText (pixels : List Bool) :
    (Terminal.rowText pixels).toList = pixels.flatMap fun lit => [glyph lit, glyph lit] := by
  rw [Terminal.rowText, String.toList_join, List.flatMap_map]
  simp only [toList_pixelText]

theorem getElem?_rowText (pixels : List Bool) (k : Nat) :
    (Terminal.rowText pixels).toList[k]? = (pixels[k / 2]?).map glyph := by
  rw [toList_rowText]
  induction pixels generalizing k with
  | nil => rfl
  | cons lit rest ih =>
      rw [List.flatMap_cons]
      match k with
      | 0 => rfl
      | 1 => rfl
      | k + 2 =>
          have hhalf : (k + 2) / 2 = k / 2 + 1 := by omega
          rw [hhalf, List.getElem?_cons_succ, ← ih k]
          rfl

theorem glyph_ne_escape (lit : Bool) : glyph lit ≠ '\x1b' := by
  cases lit with
  | _ => decide

theorem ne_escape_of_mem_rowText {pixels : List Bool} :
    ∀ character ∈ (Terminal.rowText pixels).toList, character ≠ '\x1b' := by
  intro character hcharacter
  rw [toList_rowText, List.mem_flatMap] at hcharacter
  obtain ⟨lit, -, hglyph⟩ := hcharacter
  have heq : character = glyph lit := by simpa using hglyph
  rw [heq]
  exact glyph_ne_escape lit

/-- The rows of a screen that are written stand on the display, next to the border. -/
def overlay (screen : Screen) (rows : List Nat) (cell : Nat → Nat → Char) : Nat → Nat → Char :=
  fun line column =>
    if line - 1 ∈ rows ∧ 1 ≤ line ∧ 1 ≤ column ∧ column ≤ 128 then
      glyph (screen.pixel ⟨(column - 1) / 2, line - 1⟩)
    else cell line column

theorem lay_rowText (screen : Screen) (y : Nat) (cell : Nat → Nat → Char) :
    lay cell (y + 1) 1 (Terminal.rowText (screen.row y)).toList = overlay screen [y] cell := by
  funext line column
  rw [lay, overlay, getElem?_rowText]
  by_cases hline : line = y + 1 ∧ 1 ≤ column
  · obtain ⟨rfl, hstart⟩ := hline
    by_cases hstop : column ≤ 128
    · have hpixel : (column - 1) / 2 < 64 := by omega
      rw [if_pos ⟨rfl, hstart⟩, screen.getElem?_row hpixel,
        if_pos ⟨List.mem_singleton.2 (Nat.add_sub_cancel y 1), Nat.succ_pos y, hstart, hstop⟩]
      rfl
    · have hbeyond : (screen.row y).length ≤ (column - 1) / 2 := by
        rw [Screen.length_row]
        omega
      rw [if_pos ⟨rfl, hstart⟩, if_neg fun h => hstop h.2.2.2, List.getElem?_eq_none hbeyond]
      rfl
  · have hnot : ¬ (line - 1 ∈ [y] ∧ 1 ≤ line ∧ 1 ≤ column ∧ column ≤ 128) := by
      rw [List.mem_singleton]
      omega
    rw [if_neg hline, if_neg hnot]

theorem overlay_cons (screen : Screen) (y : Nat) (rest : List Nat) (cell : Nat → Nat → Char) :
    overlay screen rest (overlay screen [y] cell) = overlay screen (y :: rest) cell := by
  funext line column
  simp only [overlay, List.mem_cons, List.not_mem_nil, or_false]
  by_cases hrest : line - 1 ∈ rest
  · simp only [hrest, or_true, true_and]
    split
    · rfl
    · rename_i houtside
      rw [if_neg fun h => houtside h.2]
  · simp only [hrest, or_false, false_and, if_false]

/-- Writing a row of a screen puts it on the display. -/
theorem write_row (hreading : d.reading = .text) (screen : Screen) (y : Nat) :
    (d.write (Terminal.RowWrite.text ⟨y, screen.row y⟩)).reading = .text ∧
      (d.write (Terminal.RowWrite.text ⟨y, screen.row y⟩)).cell = overlay screen [y] d.cell := by
  have hmoved : d.write (Terminal.moveTo (y + 2) 2) = { d with line := y + 1, column := 1 } :=
    write_moveTo hreading (y + 2) 2
  have hplain : ∀ character ∈ (Terminal.rowText (screen.row y)).toList, character ≠ '\x1b' :=
    ne_escape_of_mem_rowText
  have hprinted := foldl_read_plain (d := { d with line := y + 1, column := 1 }) hreading hplain
  rw [Terminal.RowWrite.text, write_append, hmoved, write, hprinted]
  exact ⟨hreading, lay_rowText screen y d.cell⟩

theorem drawText_cons (first : RowWrite) (rest : List RowWrite) :
    Terminal.drawText (first :: rest) =
      Terminal.RowWrite.text first ++ Terminal.drawText rest := by
  apply String.toList_injective
  simp only [Terminal.drawText, List.map_cons, String.toList_join, List.flatMap_cons,
    String.toList_append]

theorem overlay_nil (screen : Screen) (cell : Nat → Nat → Char) :
    overlay screen [] cell = cell := by
  funext line column
  exact if_neg fun h => List.not_mem_nil h.1

/-- Writing rows of a screen puts them on the display and leaves everything else there. -/
theorem write_rows (hreading : d.reading = .text) (screen : Screen) (rows : List Nat) :
    (d.write (Terminal.drawText (rows.map fun y => ⟨y, screen.row y⟩))).reading = .text ∧
      (d.write (Terminal.drawText (rows.map fun y => ⟨y, screen.row y⟩))).cell =
        overlay screen rows d.cell := by
  induction rows generalizing d with
  | nil =>
      have hnothing : d.write (Terminal.drawText []) = d := by
        rw [write, Terminal.drawText, List.map_nil, String.toList_join, List.flatMap_nil,
          List.foldl_nil]
      rw [List.map_nil, hnothing, overlay_nil]
      exact ⟨hreading, rfl⟩
  | cons y rest ih =>
      obtain ⟨hrow, hcell⟩ := write_row hreading screen y
      obtain ⟨hafter, hcells⟩ := ih hrow
      rw [List.map_cons, drawText_cons, write_append]
      exact ⟨hafter, by rw [hcells, hcell, overlay_cons]⟩

end Display

namespace Terminal

variable {t : Terminal}

/-- Draw screens one after another: all that is printed, and the terminal afterwards. -/
def drawAll (t : Terminal) (screens : List Screen) : String × Terminal :=
  screens.foldl
    (fun (printed, t) screen => (printed ++ drawText (t.draw screen).1, (t.draw screen).2)) ("", t)

theorem drawAll_concat (t : Terminal) (earlier : List Screen) (screen : Screen) :
    t.drawAll (earlier ++ [screen]) =
      ((t.drawAll earlier).1 ++ drawText ((t.drawAll earlier).2.draw screen).1,
        ((t.drawAll earlier).2.draw screen).2) := by
  rw [drawAll, List.foldl_append]
  rfl

/-- The terminal remembers the screen that was drawn last. -/
theorem shown_drawAll (t : Terminal) (screens : List Screen) :
    (t.drawAll screens).2.shown = screens.getLastD t.shown := by
  induction screens using List.reverseRecOn with
  | nil => rfl
  | append_singleton earlier screen _ =>
      rw [drawAll_concat, List.getLastD_concat]
      rfl

theorem map_row_changes (before after : Screen) :
    (changes before after).map RowWrite.row =
      (List.range 32).filter fun y => after.row y != before.row y := by
  rw [changes, List.map_map]
  exact List.map_id _

/-- A row is written once when it differs and not at all when it does not. -/
theorem count_row_changes (before after : Screen) (y : Nat) :
    ((changes before after).map RowWrite.row).count y =
      if y < 32 ∧ after.row y ≠ before.row y then 1 else 0 := by
  have hnodup : ((List.range 32).filter fun y => after.row y != before.row y).Nodup :=
    List.nodup_range.filter _
  rw [map_row_changes, hnodup.count]
  simp only [List.mem_filter, List.mem_range, bne_iff_ne]

theorem pairwise_row_changes (before after : Screen) :
    ((changes before after).map RowWrite.row).Pairwise (· < ·) := by
  rw [map_row_changes]
  exact List.pairwise_lt_range.filter _

end Terminal

namespace Display

variable {d : Display} {t : Terminal} {around : Nat → Nat → Char}

/-- Nothing is left to read of a control sequence, and all of a screen is on the display. -/
structure Shows (d : Display) (screen : Screen) (around : Nat → Nat → Char) : Prop where
  reading : d.reading = .text
  cell : d.cell = rendering screen around

/-- A display with nothing inside the border shows the blank screen. -/
theorem shows_blank (hreading : d.reading = .text)
    (hblank : ∀ line column, Inside line column → d.cell line column = ' ') :
    d.Shows .blank d.cell := by
  refine ⟨hreading, ?_⟩
  funext line column
  rw [rendering, Screen.pixel_blank]
  split
  · exact hblank line column ‹_›
  · rfl

/-- Laying the rows that differ over one screen makes it the other. -/
theorem overlay_rendering {before after : Screen} {rows : List Nat}
    (hrows : ∀ y, y ∈ rows ↔ y < 32 ∧ after.row y ≠ before.row y) :
    overlay after rows (rendering before around) = rendering after around := by
  funext line column
  rw [overlay, rendering, rendering]
  by_cases hinside : Inside line column
  · obtain ⟨⟨hfirst, hlast⟩, hleft, hright⟩ := id hinside
    rw [if_pos hinside, if_pos hinside]
    by_cases hmem : line - 1 ∈ rows
    · rw [if_pos ⟨hmem, hfirst, hleft, hright⟩]
    · -- A row that is not written is the same on both screens.
      have hy : line - 1 < 32 := by omega
      have hx : (column - 1) / 2 < 64 := by omega
      have hrow : after.row (line - 1) = before.row (line - 1) := by
        by_contra hne
        exact hmem ((hrows _).2 ⟨hy, hne⟩)
      have hpixel : after.pixel ⟨(column - 1) / 2, line - 1⟩ =
          before.pixel ⟨(column - 1) / 2, line - 1⟩ := by
        rw [← Option.some.injEq, ← Screen.getElem?_row _ hx, ← Screen.getElem?_row _ hx, hrow]
      rw [if_neg fun h => hmem h.1, hpixel]
  · have hnot : ¬ (line - 1 ∈ rows ∧ 1 ≤ line ∧ 1 ≤ column ∧ column ≤ 128) := by
      rintro ⟨hmem, hfirst, hleft, hright⟩
      have hy := ((hrows _).1 hmem).1
      exact hinside ⟨⟨hfirst, by omega⟩, hleft, hright⟩
    rw [if_neg hinside, if_neg hinside, if_neg hnot]

/-- When the screen the terminal remembers is on the display, so is the one it draws next. -/
theorem Shows.draw (h : d.Shows t.shown around) (screen : Screen) :
    (d.write (Terminal.drawText (t.draw screen).1)).Shows screen around := by
  have hrows : ∀ y, y ∈ ((List.range 32).filter fun y => screen.row y != t.shown.row y) ↔
      y < 32 ∧ screen.row y ≠ t.shown.row y := by
    simp only [List.mem_filter, List.mem_range, bne_iff_ne, implies_true]
  obtain ⟨hreading, hcell⟩ := write_rows h.reading screen
    ((List.range 32).filter fun y => screen.row y != t.shown.row y)
  exact ⟨hreading, hcell.trans (by rw [h.cell, overlay_rendering hrows])⟩

theorem Shows.drawAll (h : d.Shows t.shown around) (screens : List Screen) :
    (d.write (t.drawAll screens).1).Shows (t.drawAll screens).2.shown around := by
  induction screens using List.reverseRecOn with
  | nil => exact h
  | append_singleton earlier screen ih =>
      rw [Terminal.drawAll_concat, write_append]
      exact ih.draw screen

/-- Printing only the rows that differ shows every screen as if all of it had been printed, in the
blank inside of a border.  After each of the screens drawn, however many came before it, the
display has all of it there and is otherwise as it was, and the terminal remembers it.  Drawing it
prints each row that differs from the screen before once, from top to bottom, and no other row. -/
theorem shows_every_draw (hreading : d.reading = .text)
    (hblank : ∀ line column, Inside line column → d.cell line column = ' ')
    (earlier : List Screen) (screen : Screen) :
    let before := earlier.getLastD .blank
    let writes := ((Terminal.blank.drawAll earlier).2.draw screen).1
    let all := Terminal.blank.drawAll (earlier ++ [screen])
    all.1 = (Terminal.blank.drawAll earlier).1 ++ Terminal.drawText writes ∧
      (d.write all.1).cell = rendering screen d.cell ∧
      all.2.shown = screen ∧
      (∀ y, (writes.map RowWrite.row).count y =
        if y < 32 ∧ screen.row y ≠ before.row y then 1 else 0) ∧
      (writes.map RowWrite.row).Pairwise (· < ·) ∧
      (∀ write ∈ writes, write.pixels = screen.row write.row) ∧
      (screen = before → writes = []) := by
  have hbefore : (Terminal.blank.drawAll earlier).2.shown = earlier.getLastD .blank :=
    Terminal.shown_drawAll _ _
  have hshows := (shows_blank hreading hblank).drawAll (t := .blank) (earlier ++ [screen])
  have hshown : (Terminal.blank.drawAll (earlier ++ [screen])).2.shown = screen := by
    rw [Terminal.shown_drawAll, List.getLastD_concat]
  intro before writes all
  have hwrites : writes = Terminal.changes before screen :=
    congrArg (Terminal.changes · screen) hbefore
  refine ⟨?_, ?_, hshown, ?_, ?_, ?_, ?_⟩
  · exact congrArg Prod.fst (Terminal.drawAll_concat _ _ _)
  · rw [hshows.cell, hshown]
  · rw [hwrites]
    exact Terminal.count_row_changes before screen
  · rw [hwrites]
    exact Terminal.pairwise_row_changes before screen
  · intro write hwrite
    rw [hwrites, Terminal.mem_changes] at hwrite
    exact hwrite.2.2
  · intro hsame
    rw [hwrites, ← hsame, Terminal.changes_self]

/-- One lit pixel in the last row, then another one instead of it in the first row. -/
theorem shows_every_draw_moved :
    let d : Display := ⟨fun _ _ => ' ', 7, 0, .text⟩
    let last : Screen := Screen.blank.flip ⟨63, 31⟩
    let first : Screen := Screen.blank.flip ⟨0, 0⟩
    let shown := (d.write (Terminal.blank.drawAll [last, first]).1).cell
    let writes := ((Terminal.blank.drawAll [last]).2.draw first).1
    d.reading = .text ∧ (∀ line column, Inside line column → d.cell line column = ' ') ∧
      shown 1 1 = '█' ∧ shown 1 2 = '█' ∧ shown 1 3 = ' ' ∧ shown 32 128 = ' ' ∧
      (writes.map RowWrite.row).count 0 = 1 ∧ (writes.map RowWrite.row).count 5 = 0 ∧
      (writes.map RowWrite.row).count 31 = 1 := by
  intro d last first shown writes
  have hblank : ∀ line column, Inside line column → d.cell line column = ' ' := fun _ _ _ => rfl
  obtain ⟨-, hcell, -, hcount, -⟩ := shows_every_draw (d := d) rfl hblank [last] first
  have hshown : shown = rendering first d.cell := hcell
  have hfirst : ∀ x y, first.pixel ⟨x, y⟩ = decide (x % 64 = 0 ∧ y % 32 = 0) := by
    simp [first, Screen.pixel_flip, Point.cell_eq_iff, eq_comm]
  have hlast : ∀ x y, last.pixel ⟨x, y⟩ = decide (x % 64 = 63 ∧ y % 32 = 31) := by
    simp [last, Screen.pixel_flip, Point.cell_eq_iff, eq_comm]
  have hbefore : [last].getLastD Screen.blank = last := rfl
  rw [hshown, hcount 0, hcount 5, hcount 31, hbefore]
  simp only [rendering, Screen.row, hfirst, hlast]
  refine ⟨rfl, hblank, ?_⟩
  decide +kernel

end Display

end Chip8
