import Chip8.Proofs.Procedure
import Mathlib.Data.Finset.Prod

/-!
Where the bits of a sprite land.

A sprite is drawn bit by bit, each bit turning over the cell it lands on.  Both axes of the screen
wrap, so several bits of a sprite of more than 32 rows can land on one cell.  Drawing adds to each
cell the parity of the bits that land there; and as long as no two bits share a cell, a bit meets
the cell the way it was before the sprite was drawn.
-/

namespace Chip8

namespace Sprite

/-- The bit for column `dx` in row `dy` is set; column `0` is the highest bit. -/
def bit (sprite : Sprite) (dy dx : Nat) : Bool :=
  (sprite.getD dy 0).toNat.testBit (7 - dx)

/-- The set bits that land on column `c` and row `r` of the screen, each by its row and its column
in the sprite, when the top left corner of the sprite is at column `x` and row `y`. -/
def landings (sprite : Sprite) (x y c r : Nat) : Finset (Nat × Nat) :=
  {place ∈ Finset.range sprite.length ×ˢ Finset.range 8 |
    sprite.bit place.1 place.2 = true ∧ (x + place.2) % 64 = c ∧ (y + place.1) % 32 = r}

theorem mem_landings {sprite : Sprite} {x y c r dy dx : Nat} :
    (dy, dx) ∈ sprite.landings x y c r ↔
      (dy < sprite.length ∧ dx < 8) ∧
        sprite.bit dy dx = true ∧ (x + dx) % 64 = c ∧ (y + dy) % 32 = r := by
  simp only [landings, Finset.mem_filter, Finset.mem_product, Finset.mem_range]

/-- A place on the screen is the same after whole widths and heights. -/
theorem landings_mod (sprite : Sprite) (x y c r : Nat) :
    sprite.landings (x % 64) (y % 32) c r = sprite.landings x y c r := by
  simp only [landings, Nat.mod_add_mod]

theorem bit_eq_rowBit {sprite : Sprite} {dy dx : Nat} {row : UInt8}
    (hrow : sprite[dy]? = some row) (hdx : dx < 8) : sprite.bit dy dx = rowBit row dx := by
  rw [bit, List.getD_eq_getElem?_getD, hrow, Option.getD_some, rowBit, BitVec.getMsbD,
    decide_eq_true hdx, Bool.true_and]
  rfl

theorem mem_points_iff_bit (x y : Nat) (sprite : Sprite) (p : Point) :
    p ∈ points x y sprite ↔
      ∃ dy < sprite.length, ∃ dx < 8, sprite.bit dy dx = true ∧ p = ⟨x + dx, y + dy⟩ := by
  rw [mem_points]
  constructor
  · rintro ⟨dy, row, hrow, dx, hdx, hbit, rfl⟩
    obtain ⟨hdy, -⟩ := List.getElem?_eq_some_iff.1 hrow
    exact ⟨dy, hdy, dx, hdx, (bit_eq_rowBit hrow hdx).trans hbit, rfl⟩
  · rintro ⟨dy, hdy, dx, hdx, hbit, rfl⟩
    have hrow : sprite[dy]? = some sprite[dy] := List.getElem?_eq_getElem hdy
    exact ⟨dy, sprite[dy], hrow, dx, hdx, (bit_eq_rowBit hrow hdx).symm.trans hbit, rfl⟩

theorem nodup_rowPoints (x y : Nat) (row : UInt8) : (rowPoints x y row).Nodup := by
  refine (List.nodup_range.filter _).map ?_
  intro dx dx' hsame
  have hcolumn : x + dx = x + dx' := congrArg Point.x hsame
  exact Nat.add_left_cancel hcolumn

/-- A sprite has a point for each set bit, and no point twice. -/
theorem nodup_points (x y : Nat) (sprite : Sprite) : (points x y sprite).Nodup := by
  induction sprite generalizing y with
  | nil => exact List.nodup_nil
  | cons row rest ih =>
      refine List.nodup_append'.2 ⟨nodup_rowPoints x y row, ih (y + 1), ?_⟩
      intro p hfirst hlater
      -- The points of the rows below are further down than those of the first row.
      obtain ⟨dx, -, -, rfl⟩ := (mem_rowPoints x y row p).1 hfirst
      obtain ⟨dy, -, dx', -, -, hsame⟩ := (mem_points_iff_bit x (y + 1) rest _).1 hlater
      have hline : y = y + 1 + dy := congrArg Point.y hsame
      omega

/-- As many points fall on a cell as bits land there. -/
theorem countP_points (x y : Nat) (sprite : Sprite) {c r : Nat} (hc : c < 64) (hr : r < 32) :
    ((points x y sprite).countP fun p => decide (p.cell = (Point.mk c r).cell)) =
      (sprite.landings x y c r).card := by
  have himage :
      ((points x y sprite).filter fun p => decide (p.cell = (Point.mk c r).cell)).toFinset =
        (sprite.landings x y c r).image fun place => ⟨x + place.2, y + place.1⟩ := by
    ext p
    simp only [List.mem_toFinset, List.mem_filter, mem_points_iff_bit, decide_eq_true_eq,
      Point.cell_eq_iff, Nat.mod_eq_of_lt hc, Nat.mod_eq_of_lt hr, Finset.mem_image, Prod.exists,
      mem_landings]
    constructor
    · rintro ⟨⟨dy, hdy, dx, hdx, hbit, rfl⟩, hcolumn, hline⟩
      exact ⟨dy, dx, ⟨⟨hdy, hdx⟩, hbit, hcolumn, hline⟩, rfl⟩
    · rintro ⟨dy, dx, ⟨⟨hdy, hdx⟩, hbit, hcolumn, hline⟩, rfl⟩
      exact ⟨⟨dy, hdy, dx, hdx, hbit, rfl⟩, hcolumn, hline⟩
  have hinjective : Function.Injective fun place : Nat × Nat =>
      (⟨x + place.2, y + place.1⟩ : Point) := by
    rintro ⟨dy, dx⟩ ⟨dy', dx'⟩ hsame
    have hcolumn : x + dx = x + dx' := congrArg Point.x hsame
    have hline : y + dy = y + dy' := congrArg Point.y hsame
    rw [Nat.add_left_cancel hcolumn, Nat.add_left_cancel hline]
  rw [List.countP_eq_length_filter,
    ← List.toFinset_card_of_nodup ((nodup_points x y sprite).filter _), himage,
    Finset.card_image_of_injective _ hinjective]

/-- A sprite that is no higher than the screen does not meet itself. -/
theorem pairwise_cell_points (x y : Nat) {sprite : Sprite} (hheight : sprite.length ≤ 32) :
    (points x y sprite).Pairwise fun p q => p.cell ≠ q.cell := by
  refine (nodup_points x y sprite).pairwise_of_forall_ne ?_
  intro p hp q hq hne hcell
  obtain ⟨dy, hdy, dx, hdx, -, rfl⟩ := (mem_points_iff_bit x y sprite p).1 hp
  obtain ⟨dy', hdy', dx', hdx', -, rfl⟩ := (mem_points_iff_bit x y sprite q).1 hq
  obtain ⟨hcolumn, hline⟩ := (Point.cell_eq_iff _ _).1 hcell
  dsimp only at hcolumn hline
  -- Eight columns and at most 32 rows do not reach around the screen.
  have hdx : dx = dx' := by omega
  have hdy : dy = dy' := by omega
  exact hne (by rw [hdx, hdy])

end Sprite

namespace Screen

/-- Of points on different cells each one meets the pixel that was there at first. -/
theorem hits_foldl_plot {points : List Point}
    (hdistinct : points.Pairwise fun p q => p.cell ≠ q.cell) (d : Drawing) :
    (points.foldl Drawing.plot d).hits = d.hits + points.countP d.screen.pixel := by
  induction points generalizing d with
  | nil => rfl
  | cons p rest ih =>
      obtain ⟨hfirst, hrest⟩ := List.pairwise_cons.1 hdistinct
      have hkept : rest.countP (d.screen.flip p).pixel = rest.countP d.screen.pixel := by
        refine List.countP_congr ?_
        intro q hq
        rw [pixel_flip, decide_eq_false (hfirst q hq), Bool.xor_false]
      rw [List.foldl_cons, ih hrest, Drawing.plot, hkept, List.countP_cons, Nat.add_assoc,
        Nat.add_comm (rest.countP _)]
      cases d.screen.pixel p with
      | _ => rfl

/-- A screen shows another one with a sprite drawn over it, with its top left corner at column `x`
and row `y`; the flag tells whether a pixel was turned off. -/
structure Overlaid (before : Screen) (x y : UInt8) (sprite : Sprite) (after : Screen)
    (hit : Bool) : Prop where
  /-- A cell is turned over once for each bit that lands on it. -/
  byte : ∀ c < 64, ∀ r < 32, after.byte ⟨c, r⟩ =
    before.byte ⟨c, r⟩ ^^^ UInt8.ofNat ((sprite.landings x.toNat y.toNat c r).card % 2)
  /-- A cell that no bit lands on stays as it was. -/
  elsewhere : ∀ c < 64, ∀ r < 32,
    (∀ dy < sprite.length, ∀ dx < 8, sprite.bit dy dx = true →
      ¬ ((x.toNat + dx) % 64 = c ∧ (y.toNat + dy) % 32 = r)) →
    after.byte ⟨c, r⟩ = before.byte ⟨c, r⟩
  /-- Some bit lands on a lit cell. -/
  hit_iff : sprite.length ≤ 32 →
    (hit = true ↔ ∃ dy < sprite.length, ∃ dx < 8, sprite.bit dy dx = true ∧
      before.byte ⟨(x.toNat + dx) % 64, (y.toNat + dy) % 32⟩ = 1)

variable (s : Screen) (x y : UInt8) (sprite : Sprite)

theorem pixel_draw {c r : Nat} (hc : c < 64) (hr : r < 32) :
    (s.draw x y sprite).screen.pixel ⟨c, r⟩ =
      (s.pixel ⟨c, r⟩ ^^ decide ((sprite.landings x.toNat y.toNat c r).card % 2 = 1)) := by
  rw [draw, plotAll_screen, pixel_foldl_flip, Sprite.countP_points _ _ _ hc hr]

theorem byte_draw {c r : Nat} (hc : c < 64) (hr : r < 32) :
    (s.draw x y sprite).screen.byte ⟨c, r⟩ =
      s.byte ⟨c, r⟩ ^^^ UInt8.ofNat ((sprite.landings x.toNat y.toNat c r).card % 2) := by
  rw [byte_eq_toUInt8, byte_eq_toUInt8, pixel_draw s x y sprite hc hr]
  rcases Nat.mod_two_eq_zero_or_one (sprite.landings x.toNat y.toNat c r).card with heven | hodd
  · rw [heven]
    cases s.pixel ⟨c, r⟩ with
    | _ => rfl
  · rw [hodd]
    cases s.pixel ⟨c, r⟩ with
    | _ => rfl

theorem byte_mod (c r : Nat) : s.byte ⟨c % 64, r % 32⟩ = s.byte ⟨c, r⟩ := by
  have hcell : (Point.mk (c % 64) (r % 32)).cell = (Point.mk c r).cell :=
    (Point.cell_eq_iff _ _).2 ⟨Nat.mod_mod c 64, Nat.mod_mod r 32⟩
  simp only [byte, hcell]

theorem collides_draw_iff (hheight : sprite.length ≤ 32) :
    (s.draw x y sprite).collides = true ↔
      ∃ dy < sprite.length, ∃ dx < 8, sprite.bit dy dx = true ∧
        s.byte ⟨(x.toNat + dx) % 64, (y.toNat + dy) % 32⟩ = 1 := by
  have hhits := hits_foldl_plot (Sprite.pairwise_cell_points x.toNat y.toNat hheight) ⟨s, 0⟩
  rw [Nat.zero_add] at hhits
  rw [Drawing.collides, decide_eq_true_eq, draw, plotAll, hhits, List.countP_pos_iff]
  simp only [Sprite.mem_points_iff_bit, byte_mod, pixel_eq_true_iff]
  constructor
  · rintro ⟨p, ⟨dy, hdy, dx, hdx, hbit, rfl⟩, hlit⟩
    exact ⟨dy, hdy, dx, hdx, hbit, hlit⟩
  · rintro ⟨dy, hdy, dx, hdx, hbit, hlit⟩
    exact ⟨_, ⟨dy, hdy, dx, hdx, hbit, rfl⟩, hlit⟩

theorem overlaid_draw :
    s.Overlaid x y sprite (s.draw x y sprite).screen (s.draw x y sprite).collides where
  byte c hc r hr := byte_draw s x y sprite hc hr
  elsewhere c hc r hr hnone := by
    have hempty : sprite.landings x.toNat y.toNat c r = ∅ := by
      refine Finset.eq_empty_of_forall_notMem ?_
      rintro ⟨dy, dx⟩ hmem
      obtain ⟨⟨hdy, hdx⟩, hbit, hlands⟩ := Sprite.mem_landings.1 hmem
      exact hnone dy hdy dx hdx hbit hlands
    rw [byte_draw s x y sprite hc hr, hempty]
    exact UInt8.xor_zero
  hit_iff := collides_draw_iff s x y sprite

end Screen

namespace Session

/-- Drawing from memory changes the screen, the flag register and the program counter, and marks
the screen as changed. -/
theorem perform_draw (s : Session) (x y height : UInt8)
    (hfits : s.machine.index.toNat + height.toNat ≤ 4096) :
    let m := s.machine
    let sprite := (List.range height.toNat).map fun k => m.memory.peek (m.index.toNat + k)
    let drawing := m.screen.draw (m.registers.get x) (m.registers.get y) sprite
    s.perform (.draw x y height) = .done { s with machine := { m with
      screen := drawing.screen
      redraw := true
      registers := m.registers.set Registers.flag drawing.collides.toUInt8
      counter := m.counter + Machine.instructionSize } } := by
  intro m sprite drawing
  have hload : m.memory.load m.index height.toNat = .ok sprite := by
    refine (Memory.load_eq_ok_iff _ _ _ _).2 ⟨hfits, ?_⟩
    rw [List.range'_eq_map_range, List.map_map]
    rfl
  rw [perform_eq, execute, Machine.execute, Machine.drawFromIndex, hload]
  rfl

/-- Drawing turns every cell over once for each bit of the sprite that lands on it, wherever the
sprite is and however high, and as long as the sprite does not meet itself the flag tells whether a
bit landed on a lit cell.  The instruction draws what memory holds at the index, at the column and
the row that its registers hold before the flag is written, also where one of them is the flag
register. -/
theorem draw_overlays :
    (∀ (s : Screen) (x y : UInt8) (sprite : Sprite),
      s.Overlaid x y sprite (s.draw x y sprite).screen (s.draw x y sprite).collides) ∧
    ∀ (s : Session) (x y height : UInt8), s.machine.index.toNat + height.toNat ≤ 4096 →
      let m := s.machine
      let sprite := (List.range height.toNat).map fun k => m.memory.peek (m.index.toNat + k)
      ∃ screen hit,
        s.perform (.draw x y height) = .done { s with machine := { m with
          screen
          redraw := true
          registers := m.registers.set Registers.flag hit.toUInt8
          counter := m.counter + Machine.instructionSize } } ∧
        m.screen.Overlaid (m.registers.get x) (m.registers.get y) sprite screen hit := by
  refine ⟨fun s x y sprite => s.overlaid_draw x y sprite, ?_⟩
  intro s x y height hfits m sprite
  exact ⟨_, _, s.perform_draw x y height hfits, m.screen.overlaid_draw _ _ _⟩

/-- Two rows at the very end of memory, drawn across the corner of the screen onto one lit cell; the
column comes out of the flag register. -/
theorem draw_overlays_corner :
    let m : Machine := { Machine.initial with
      memory := Memory.initial.pokeAll 0xFFE [0x81, 0x81]
      registers := (Registers.zero.set Registers.flag 62).set 0 31
      index := 0xFFE
      screen := Screen.blank.flip ⟨5, 0⟩ }
    let s : Session := { plain with machine := m }
    let drawn := (s.perform (.draw Registers.flag 0 2)).state.machine
    s.machine.index.toNat + (2 : UInt8).toNat ≤ 4096 ∧
      drawn.registers.get Registers.flag = 1 ∧ drawn.screen.byte ⟨5, 0⟩ = 0 ∧
      drawn.screen.byte ⟨62, 31⟩ = 1 ∧ drawn.screen.byte ⟨6, 0⟩ = 0 := by
  intro m s drawn
  have hfits : s.machine.index.toNat + (2 : UInt8).toNat ≤ 4096 := by decide
  obtain ⟨screen, hit, hperform, hoverlaid⟩ := draw_overlays.2 s Registers.flag 0 2 hfits
  have hsprite : (List.range 2).map (fun k => m.memory.peek (m.index.toNat + k)) =
      [0x81, 0x81] := by
    have hroom : 0xFFE + ([0x81, 0x81] : Sprite).length ≤ Memory.size := by decide
    simp only [m, Memory.peek_pokeAll _ _ _ _ hroom]
    decide
  have hcorner : m.screen.Overlaid 62 31 [0x81, 0x81] screen hit := by
    rw [← hsprite]
    exact hoverlaid
  have hbefore : ∀ p, m.screen.byte p = (decide (p.x % 64 = 5 ∧ p.y % 32 = 0)).toUInt8 := by
    intro p
    rw [Screen.byte_eq_toUInt8, Screen.pixel_flip, Screen.pixel_blank, Bool.false_xor]
    simp only [Point.cell_eq_iff, eq_comm, Nat.reduceMod, Nat.zero_mod]
  have hhit : hit = true := by
    refine (hcorner.hit_iff (by decide)).2 ⟨1, by decide, 7, by decide, by decide, ?_⟩
    rw [hbefore]
    decide
  subst hhit
  have hdrawn : drawn.screen = screen ∧ drawn.registers = m.registers.set Registers.flag 1 := by
    simp only [drawn, hperform]
    exact ⟨rfl, rfl⟩
  rw [hdrawn.1, hdrawn.2]
  refine ⟨hfits, Registers.get_set_self _ _ _, ?_, ?_, ?_⟩
  · rw [hcorner.byte 5 (by decide) 0 (by decide), hbefore]
    decide +kernel
  · rw [hcorner.byte 62 (by decide) 31 (by decide), hbefore]
    decide +kernel
  · rw [hcorner.elsewhere 6 (by decide) 0 (by decide) (by decide), hbefore]
    decide

end Session

end Chip8
