import Chip8.Screen

/-!
Sprites: pictures eight columns wide, drawn by turning pixels over.

A sprite is a list of bytes, one per row, with its leftmost column in the highest bit.  Its
`points` at a place are the points it turns over, one for each bit that is set.  Drawing turns
them over one after another and counts the hits, the points that were lit just before their turn;
a sprite that meets itself on the other side of the screen can hit its own pixels.
-/

namespace Chip8

/-- One byte per row, from top to bottom. -/
abbrev Sprite := List UInt8

namespace Sprite

/-- The column `dx` of a row is set; column `0` is the highest bit. -/
def rowBit (row : UInt8) (dx : Nat) : Bool :=
  row.toBitVec.getMsbD dx

/-- The points of one row whose left end is at column `x`. -/
def rowPoints (x y : Nat) (row : UInt8) : List Point :=
  ((List.range 8).filter (rowBit row)).map fun dx => ⟨x + dx, y⟩

/-- The points of a sprite whose top left corner is at column `x` and row `y`. -/
def points (x y : Nat) : Sprite → List Point
  | [] => []
  | row :: rest => rowPoints x y row ++ points x (y + 1) rest

theorem mem_rowPoints (x y : Nat) (row : UInt8) (p : Point) :
    p ∈ rowPoints x y row ↔ ∃ dx < 8, rowBit row dx = true ∧ p = ⟨x + dx, y⟩ := by
  simp only [rowPoints, List.mem_map, List.mem_filter, List.mem_range]
  constructor
  · rintro ⟨dx, ⟨hdx, hbit⟩, rfl⟩
    exact ⟨dx, hdx, hbit, rfl⟩
  · rintro ⟨dx, hdx, hbit, rfl⟩
    exact ⟨dx, ⟨hdx, hbit⟩, rfl⟩

/-- A sprite turns over one point for each bit that is set. -/
theorem mem_points (x y : Nat) (sprite : Sprite) (p : Point) :
    p ∈ points x y sprite ↔
      ∃ dy row, sprite[dy]? = some row ∧
        ∃ dx < 8, rowBit row dx = true ∧ p = ⟨x + dx, y + dy⟩ := by
  induction sprite generalizing y with
  | nil => simp [points]
  | cons first rest ih =>
      rw [points, List.mem_append, mem_rowPoints, ih]
      constructor
      · rintro (⟨dx, hdx, hbit, rfl⟩ | ⟨dy, row, hrow, dx, hdx, hbit, rfl⟩)
        · exact ⟨0, first, rfl, dx, hdx, hbit, rfl⟩
        · exact ⟨dy + 1, row, by simpa using hrow, dx, hdx, hbit, by
            rw [Nat.add_assoc y 1 dy, Nat.add_comm 1 dy]⟩
      · rintro ⟨_ | dy, row, hrow, dx, hdx, hbit, rfl⟩
        · simp only [List.getElem?_cons_zero, Option.some.injEq] at hrow
          subst hrow
          exact .inl ⟨dx, hdx, hbit, rfl⟩
        · refine .inr ⟨dy, row, by simpa using hrow, dx, hdx, hbit, ?_⟩
          rw [Nat.add_assoc y 1 dy, Nat.add_comm 1 dy]

end Sprite

/-- A screen that is being drawn on, and how many lit pixels were hit so far. -/
structure Drawing where
  screen : Screen
  hits : Nat
  deriving DecidableEq, Repr

namespace Drawing

def plot (d : Drawing) (p : Point) : Drawing :=
  ⟨d.screen.flip p, d.hits + (d.screen.pixel p).toNat⟩

def collides (d : Drawing) : Bool :=
  decide (0 < d.hits)

end Drawing

namespace Screen

def plotAll (s : Screen) (points : List Point) : Drawing :=
  points.foldl Drawing.plot ⟨s, 0⟩

/-- Draw a sprite with its top left corner at column `x` and row `y`. -/
def draw (s : Screen) (x y : UInt8) (sprite : Sprite) : Drawing :=
  s.plotAll (sprite.points x.toNat y.toNat)

theorem foldl_plot_screen (d : Drawing) (points : List Point) :
    (points.foldl Drawing.plot d).screen = points.foldl flip d.screen := by
  induction points generalizing d with
  | nil => rfl
  | cons p rest ih => exact ih (d.plot p)

theorem plotAll_screen (s : Screen) (points : List Point) :
    (s.plotAll points).screen = points.foldl flip s :=
  foldl_plot_screen ⟨s, 0⟩ points

/-- A pixel ends up turned over as often as a point of the list falls on it. -/
theorem pixel_foldl_flip (s : Screen) (points : List Point) (q : Point) :
    (points.foldl flip s).pixel q =
      (s.pixel q ^^ decide ((points.countP fun p => decide (p.cell = q.cell)) % 2 = 1)) := by
  induction points generalizing s with
  | nil => simp
  | cons p rest ih =>
      rw [List.foldl_cons, ih, pixel_flip, List.countP_cons]
      by_cases h : p.cell = q.cell
      · have hparity : ∀ n : Nat, decide ((n + 1) % 2 = 1) = !decide (n % 2 = 1) := by
          intro n
          rcases Nat.mod_two_eq_zero_or_one n with hn | hn
          · have : (n + 1) % 2 = 1 := by omega
            simp [hn, this]
          · have : (n + 1) % 2 = 0 := by omega
            simp [hn, this]
        simp [h, hparity]
      · simp [h]

/-- Every point gains a lit pixel, or loses one where it hits. -/
theorem litCount_plotAll (s : Screen) (points : List Point) :
    (s.plotAll points).screen.litCount + 2 * (s.plotAll points).hits =
      s.litCount + points.length := by
  have key : ∀ d : Drawing,
      (points.foldl Drawing.plot d).screen.litCount + 2 * (points.foldl Drawing.plot d).hits =
        d.screen.litCount + 2 * d.hits + points.length := by
    induction points with
    | nil => intro d; rfl
    | cons p rest ih =>
        intro d
        rw [List.foldl_cons, ih (d.plot p)]
        have hflip := litCount_flip d.screen p
        simp only [Drawing.plot, List.length_cons]
        cases hlit : d.screen.pixel p <;> simp [hlit] at hflip ⊢ <;> omega
  simpa [plotAll] using key ⟨s, 0⟩

end Screen

end Chip8
