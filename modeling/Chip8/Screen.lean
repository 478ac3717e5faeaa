/-!
The screen: 64 columns and 32 rows of pixels, each lit or dark.

The display memory has one byte per pixel, one for a lit pixel and zero for a dark one; a screen
carries the proof that it holds no other bytes.  A screen is addressed by points.  Both axes wrap,
so every point is on the screen, and points that differ by whole widths and heights are the same
pixel.  The view is `pixel`; `pixel_flip` and `litCount_flip` say what turning one pixel over does
to it and to the number of lit pixels.
-/

namespace Chip8

/-- A column and a row, counted from the top left. -/
structure Point where
  x : Nat
  y : Nat
  deriving DecidableEq, Repr

/-- The bytes of the display memory in reading order. -/
@[ext]
structure Screen where
  cells : Vector UInt8 2048
  binary : ∀ cell ∈ cells, cell = 0 ∨ cell = 1
  deriving DecidableEq, Repr

namespace Point

/-- The place of a point in reading order, with both axes wrapped. -/
def cell (p : Point) : Fin 2048 :=
  ⟨64 * (p.y % 32) + p.x % 64, by omega⟩

theorem cell_eq_iff (p q : Point) :
    p.cell = q.cell ↔ p.x % 64 = q.x % 64 ∧ p.y % 32 = q.y % 32 := by
  simp only [cell, Fin.mk.injEq]
  omega

end Point

namespace Screen

def width : Nat := 64

def height : Nat := 32

def blank : Screen where
  cells := Vector.replicate 2048 0
  binary := fun _ hcell => .inl (Vector.mem_replicate.1 hcell).2

def byte (s : Screen) (p : Point) : UInt8 :=
  s.cells[p.cell]

/-- The pixel at a point is lit. -/
def pixel (s : Screen) (p : Point) : Bool :=
  s.byte p == 1

theorem pixel_eq_true_iff (s : Screen) (p : Point) : s.pixel p = true ↔ s.byte p = 1 := by
  rw [pixel, beq_iff_eq]

theorem byte_binary (s : Screen) (p : Point) : s.byte p = 0 ∨ s.byte p = 1 :=
  s.binary _ (Vector.getElem_mem p.cell.isLt)

theorem byte_eq_toUInt8 (s : Screen) (p : Point) : s.byte p = (s.pixel p).toUInt8 := by
  rcases s.byte_binary p with hbyte | hbyte <;> simp only [pixel, hbyte] <;> rfl

/-- Turning a byte of the display memory over keeps all of them zero or one. -/
theorem binary_set_xor (s : Screen) (p : Point) :
    ∀ cell ∈ s.cells.set p.cell (s.byte p ^^^ 1), cell = 0 ∨ cell = 1 := by
  intro cell hcell
  obtain ⟨i, hi, rfl⟩ := Vector.getElem_of_mem hcell
  rw [Vector.getElem_set]
  split
  · rcases s.byte_binary p with hbyte | hbyte
    · exact .inr (by rw [hbyte]; rfl)
    · exact .inl (by rw [hbyte]; rfl)
  · exact s.binary _ (Vector.getElem_mem hi)

def flip (s : Screen) (p : Point) : Screen where
  cells := s.cells.set p.cell (s.byte p ^^^ 1)
  binary := s.binary_set_xor p

/-- The pixels of a row from left to right. -/
def row (s : Screen) (y : Nat) : List Bool :=
  (List.range width).map fun x => s.pixel ⟨x, y⟩

/-- The rows from top to bottom. -/
def rows (s : Screen) : List (List Bool) :=
  (List.range height).map s.row

def litCount (s : Screen) : Nat :=
  s.cells.count 1

/-- The screen whose pixel at column `x` and row `y` is `test x y`. -/
def ofPredicate (test : Nat → Nat → Bool) : Screen where
  cells := Vector.ofFn fun cell : Fin 2048 => (test (cell % 64) (cell / 64)).toUInt8
  binary := by
    intro cell hcell
    obtain ⟨i, hi, rfl⟩ := Vector.getElem_of_mem hcell
    rw [Vector.getElem_ofFn]
    cases test (i % 64) (i / 64)
    · exact .inl rfl
    · exact .inr rfl

@[simp] theorem pixel_blank (p : Point) : blank.pixel p = false := by
  simp [pixel, byte, blank]

theorem pixel_congr (s : Screen) {p q : Point} (h : p.cell = q.cell) : s.pixel p = s.pixel q := by
  simp only [pixel, byte, h]

theorem pixel_flip (s : Screen) (p q : Point) :
    (s.flip p).pixel q = (s.pixel q ^^ decide (p.cell = q.cell)) := by
  by_cases h : p.cell = q.cell
  · have hbyte : (s.flip p).byte q = s.byte q ^^^ 1 := by
      simp only [byte, flip, ← h, Fin.getElem_fin, Vector.getElem_set_self]
    rw [pixel, hbyte, s.byte_eq_toUInt8 q]
    cases s.pixel q <;> simp [h, Bool.toUInt8]
  · have hbyte : (s.flip p).byte q = s.byte q := by
      simp only [byte, flip, Fin.getElem_fin]
      exact Vector.getElem_set_ne _ _ fun hval => h (Fin.ext hval)
    simp [pixel, hbyte, h]

theorem pixel_ofPredicate (test : Nat → Nat → Bool) {x y : Nat} (hx : x < 64) (hy : y < 32) :
    (ofPredicate test).pixel ⟨x, y⟩ = test x y := by
  have hcolumn : (64 * (y % 32) + x % 64) % 64 = x := by omega
  have hrow : (64 * (y % 32) + x % 64) / 64 = y := by omega
  simp only [pixel, byte, ofPredicate, Fin.getElem_fin, Vector.getElem_ofFn, Point.cell, hcolumn,
    hrow]
  cases test x y <;> rfl

theorem ext_pixel {s t : Screen}
    (h : ∀ x < 64, ∀ y < 32, s.pixel ⟨x, y⟩ = t.pixel ⟨x, y⟩) : s = t := by
  apply Screen.ext
  apply Vector.ext
  intro i hi
  have hpixel := h (i % 64) (Nat.mod_lt _ (by decide)) (i / 64) (by omega)
  have hcell : 64 * (i / 64 % 32) + i % 64 % 64 = i := by omega
  have hbyte := congrArg Bool.toUInt8 hpixel
  rw [← byte_eq_toUInt8, ← byte_eq_toUInt8] at hbyte
  simpa only [byte, Fin.getElem_fin, Point.cell, hcell] using hbyte

theorem ext_pixel_iff {s t : Screen} : s = t ↔ ∀ p, s.pixel p = t.pixel p :=
  ⟨fun h _ => h ▸ rfl, fun h => ext_pixel fun x _ y _ => h ⟨x, y⟩⟩

theorem flip_flip_comm (s : Screen) (p q : Point) : (s.flip p).flip q = (s.flip q).flip p := by
  apply ext_pixel
  intro x _ y _
  simp only [pixel_flip]
  cases s.pixel ⟨x, y⟩ <;> cases decide (p.cell = (Point.mk x y).cell) <;>
    cases decide (q.cell = (Point.mk x y).cell) <;> rfl

theorem flip_flip_self (s : Screen) (p : Point) : (s.flip p).flip p = s := by
  apply ext_pixel
  intro x _ y _
  simp [pixel_flip]

@[simp] theorem litCount_blank : blank.litCount = 0 := by
  simp [litCount, blank, Vector.count_replicate]

theorem litCount_le (s : Screen) : s.litCount ≤ 2048 :=
  Vector.count_le_size

/-- Turning a lit pixel over loses one, turning a dark pixel over gains one. -/
theorem litCount_flip (s : Screen) (p : Point) :
    (s.flip p).litCount + (s.pixel p).toNat = s.litCount + (!s.pixel p).toNat := by
  have hcount : (s.flip p).litCount =
      s.litCount - (if s.byte p == 1 then 1 else 0) + if (s.byte p ^^^ 1) == 1 then 1 else 0 :=
    Vector.count_set p.cell.isLt
  have hpos : s.byte p = 1 → 0 < s.litCount := by
    intro hlit
    apply Vector.count_pos_iff.2
    rw [← hlit]
    exact Vector.getElem_mem _
  rcases s.byte_binary p with hdark | hlit
  · simp [hcount, pixel, hdark]
  · have := hpos hlit
    simp only [hcount, pixel, hlit]
    simp
    omega

@[simp] theorem length_row (s : Screen) (y : Nat) : (s.row y).length = 64 := by
  simp [row, width]

@[simp] theorem length_rows (s : Screen) : s.rows.length = 32 := by
  simp [rows, height]

theorem getElem?_row (s : Screen) {x y : Nat} (h : x < 64) :
    (s.row y)[x]? = some (s.pixel ⟨x, y⟩) := by
  simp [row, width, h]

end Screen

end Chip8
