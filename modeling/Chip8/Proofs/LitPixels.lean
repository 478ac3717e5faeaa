import Chip8.Proofs.DrawingOrder

/-!
How many pixels are lit.

Each set bit of a sprite turns one pixel over.  A pixel that it meets dark it lights, and a pixel
that it meets lit goes dark.  So drawing adds the set bits to the number of lit pixels and takes two
away for every lit pixel met, also where a sprite goes around the screen and meets its own pixels.
A number that is kept up like this from stroke to stroke is the number of pixels that are lit.
-/

namespace Chip8

namespace Sprite

/-- The number of set bits. -/
def bitCount (sprite : Sprite) : Nat :=
  (sprite.map fun row => (List.range 8).countP row.toNat.testBit).sum

theorem rowBit_eq_testBit (row : UInt8) {dx : Nat} (hdx : dx < 8) :
    rowBit row dx = row.toNat.testBit (7 - dx) := by
  have hrow : ([row] : Sprite)[0]? = some row := rfl
  exact (bit_eq_rowBit hrow hdx).symm

theorem length_rowPoints (x y : Nat) (row : UInt8) :
    (rowPoints x y row).length = (List.range 8).countP row.toNat.testBit := by
  have hcolumns : ((List.range 8).map fun dx => 7 - dx).Perm (List.range 8) := by decide
  have hbits : (List.range 8).countP (rowBit row) =
      (List.range 8).countP (row.toNat.testBit ∘ fun dx => 7 - dx) := by
    refine List.countP_congr ?_
    intro dx hdx
    rw [rowBit_eq_testBit row (List.mem_range.1 hdx), Function.comp_apply]
  rw [rowPoints, List.length_map, ← List.countP_eq_length_filter, hbits, ← List.countP_map,
    hcolumns.countP_eq]

/-- A sprite has a point for each set bit. -/
theorem length_points (x y : Nat) (sprite : Sprite) :
    (points x y sprite).length = sprite.bitCount := by
  induction sprite generalizing y with
  | nil => rfl
  | cons row rest ih =>
      rw [points, List.length_append, length_rowPoints, ih (y + 1), bitCount, bitCount,
        List.map_cons, List.sum_cons]

end Sprite

/-- A change of the whole screen or of a part of it. -/
inductive Stroke
  | draw (place : Placement)
  | clear
  deriving DecidableEq, Repr

namespace Screen

/-- What points meet that are turned over one after another: each of them the pixel just before its
own turn. -/
def met (s : Screen) : List Point → List Bool
  | [] => []
  | p :: rest => s.pixel p :: (s.flip p).met rest

/-- The number of lit pixels that the bits of a sprite meet. -/
def lost (s : Screen) (place : Placement) : Nat :=
  (s.met place.points).count true

/-- The screen after strokes, one after another. -/
def paint (s : Screen) : List Stroke → Screen
  | [] => s
  | .draw place :: rest => (s.draw place.x place.y place.sprite).screen.paint rest
  | .clear :: rest => blank.paint rest

/-- The number of lit pixels as it is kept up from stroke to stroke, without looking at the whole
screen. -/
def tally (s : Screen) (count : Int) : List Stroke → Int
  | [] => count
  | .draw place :: rest =>
      (s.draw place.x place.y place.sprite).screen.tally
        (count + place.sprite.bitCount - 2 * s.lost place) rest
  | .clear :: rest => blank.tally 0 rest

theorem length_met (s : Screen) (points : List Point) : (s.met points).length = points.length := by
  induction points generalizing s with
  | nil => rfl
  | cons p rest ih => rw [met, List.length_cons, List.length_cons, ih]

theorem hits_plotAll (s : Screen) (points : List Point) :
    (s.plotAll points).hits = (s.met points).count true := by
  induction points generalizing s with
  | nil => rfl
  | cons p rest ih =>
      rw [plotAll, List.foldl_cons, foldl_plot_eq, met, List.count_cons, ← ih (s.flip p)]
      simp only [Drawing.plot, Nat.zero_add]
      cases s.pixel p with
      | false => exact Nat.zero_add _
      | true => exact Nat.add_comm _ _

/-- Every set bit lights a pixel, or else puts a lit one out. -/
theorem litCount_draw (s : Screen) (place : Placement) :
    (s.draw place.x place.y place.sprite).screen.litCount + 2 * s.lost place =
      s.litCount + place.sprite.bitCount := by
  have hplotted := s.litCount_plotAll place.points
  rw [hits_plotAll, Placement.points, Sprite.length_points] at hplotted
  exact hplotted

theorem collides_draw_eq_false_iff (s : Screen) (place : Placement) :
    (s.draw place.x place.y place.sprite).collides = false ↔ s.lost place = 0 := by
  have hhits : (s.draw place.x place.y place.sprite).hits = s.lost place :=
    s.hits_plotAll place.points
  rw [Drawing.collides, hhits, decide_eq_false_iff_not, Nat.pos_iff_ne_zero, not_not]

theorem tally_eq (s : Screen) (strokes : List Stroke) :
    s.tally s.litCount strokes = (s.paint strokes).litCount := by
  induction strokes generalizing s with
  | nil => rfl
  | cons stroke rest ih =>
      cases stroke with
      | draw place =>
          have hcount : (s.litCount : Int) + place.sprite.bitCount - 2 * s.lost place =
              (s.draw place.x place.y place.sprite).screen.litCount := by
            have hdraw := s.litCount_draw place
            omega
          rw [tally, paint, hcount]
          exact ih _
      | clear =>
          have hblank := ih blank
          rw [litCount_blank] at hblank
          exact hblank

/-- Drawing a sprite adds its set bits to the number of lit pixels and takes two away for each lit
pixel that one of them meets at its turn, whether the pixel was lit before or by the sprite itself.
So no bit meets a lit pixel just when all the bits are added.  Over strokes of any number and kind
the number that is kept up in this way stays the number of lit pixels, of which there are never more
than the screen has. -/
theorem litCount_of_strokes (s : Screen) :
    (∀ x y sprite,
      let place : Placement := ⟨x, y, sprite⟩
      let drawing := s.draw x y sprite
      (s.met place.points).length = sprite.bitCount ∧
      (drawing.screen.litCount : Int) = s.litCount + sprite.bitCount - 2 * s.lost place ∧
      (drawing.collides = false ↔
        drawing.screen.litCount = s.litCount + sprite.bitCount)) ∧
    ∀ strokes,
      s.tally s.litCount strokes = (s.paint strokes).litCount ∧
      (s.paint strokes).litCount ≤ 2048 := by
  refine ⟨?_, fun strokes => ⟨s.tally_eq strokes, litCount_le _⟩⟩
  intro x y sprite place drawing
  have hdraw : drawing.screen.litCount + 2 * s.lost place = s.litCount + sprite.bitCount :=
    s.litCount_draw place
  have hcollides : drawing.collides = false ↔ s.lost place = 0 :=
    s.collides_draw_eq_false_iff place
  refine ⟨(s.length_met _).trans (Sprite.length_points _ _ _), ?_, ?_⟩
  · omega
  · rw [hcollides]
    omega

/-- The last of 33 rows comes round to the first: of the two bits the second meets the pixel that
the first has lit. -/
example :
    let column : Sprite := 0x80 :: List.replicate 31 0 ++ [0x80]
    column.bitCount = 2 ∧ blank.met (column.points 0 0) = [false, true] := by
  decide +kernel

end Screen

end Chip8
