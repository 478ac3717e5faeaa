import Chip8.Proofs.Landings
import Mathlib.Algebra.BigOperators.Group.Finset.Basic
import Mathlib.Algebra.BigOperators.ModEq

/-!
Sprites in any order.

Drawing sprites one after another is turning over all their points one after another.  A cell ends
up turned over as often as points fall on it, and every point gains a lit pixel or hits one, so
neither the screen at the end nor the number of all hits depends on the order of the points.  Of
how often a sprite is drawn at a place only the parity shows.
-/

namespace Chip8

/-- A sprite and where to draw it. -/
structure Placement where
  x : UInt8
  y : UInt8
  sprite : Sprite
  deriving DecidableEq, Repr

namespace Placement

def points (p : Placement) : List Point :=
  p.sprite.points p.x.toNat p.y.toNat

/-- The same sprite at the same place of the screen, whose axes wrap. -/
def wrapped (p : Placement) : Placement :=
  ⟨p.x % 64, p.y % 32, p.sprite⟩

/-- The number of bits that land on column `c` and row `r`. -/
def weight (c r : Nat) (p : Placement) : Nat :=
  (p.sprite.landings p.x.toNat p.y.toNat c r).card

theorem weight_wrapped (c r : Nat) (p : Placement) : p.wrapped.weight c r = p.weight c r := by
  rw [weight, weight, ← Sprite.landings_mod p.sprite p.x.toNat]
  simp only [wrapped, UInt8.toNat_mod]
  rfl

theorem countP_points (p : Placement) {c r : Nat} (hc : c < 64) (hr : r < 32) :
    (p.points.countP fun q => decide (q.cell = (Point.mk c r).cell)) = p.weight c r :=
  p.sprite.countP_points p.x.toNat p.y.toNat hc hr

end Placement

section Parity

variable {Key : Type} [DecidableEq Key]

theorem sum_map_eq_sum_count (weight : Key → Nat) {keys : List Key} {domain : Finset Key}
    (hdomain : keys.toFinset ⊆ domain) :
    (keys.map weight).sum = ∑ key ∈ domain, keys.count key * weight key := by
  rw [Finset.sum_list_map_count]
  refine Finset.sum_subset hdomain ?_
  intro key _ hkey
  rw [List.count_eq_zero_of_not_mem fun hmem => hkey (List.mem_toFinset.2 hmem), zero_nsmul]

/-- The parity of a sum depends on the parities with which its terms occur. -/
theorem sum_map_mod_two (weight : Key → Nat) {first second : List Key}
    (hcount : ∀ key, first.count key % 2 = second.count key % 2) :
    (first.map weight).sum % 2 = (second.map weight).sum % 2 := by
  -- A key that only one of the lists has occurs there an even number of times.
  have hfirst : first.toFinset ⊆ first.toFinset ∪ second.toFinset := Finset.subset_union_left
  have hsecond : second.toFinset ⊆ first.toFinset ∪ second.toFinset := Finset.subset_union_right
  rw [sum_map_eq_sum_count weight hfirst, sum_map_eq_sum_count weight hsecond]
  exact Nat.ModEq.sum fun key _ => Nat.ModEq.mul_right (weight key) (hcount key)

end Parity

namespace Screen

/-- Draw sprites one after another: the screen at the end, and the flag of each of them. -/
def drawEach (s : Screen) : List Placement → Screen × List Bool
  | [] => (s, [])
  | p :: rest =>
      let drawing := s.draw p.x p.y p.sprite
      let (last, flags) := drawing.screen.drawEach rest
      (last, drawing.collides :: flags)

theorem foldl_plot_eq (d : Drawing) (points : List Point) :
    points.foldl Drawing.plot d =
      ⟨(d.screen.plotAll points).screen, d.hits + (d.screen.plotAll points).hits⟩ := by
  induction points generalizing d with
  | nil => rfl
  | cons p rest ih =>
      rw [plotAll, List.foldl_cons, List.foldl_cons, ih (d.plot p), ih]
      simp only [Drawing.plot, Nat.zero_add, Nat.add_assoc]

theorem plotAll_append (s : Screen) (first second : List Point) :
    s.plotAll (first ++ second) =
      ⟨((s.plotAll first).screen.plotAll second).screen,
        (s.plotAll first).hits + ((s.plotAll first).screen.plotAll second).hits⟩ := by
  rw [plotAll, List.foldl_append]
  exact foldl_plot_eq (s.plotAll first) second

/-- Points in another order leave the same screen, and just as many of them hit. -/
theorem plotAll_perm (s : Screen) {first second : List Point} (hperm : first.Perm second) :
    s.plotAll first = s.plotAll second := by
  have hscreen : (s.plotAll first).screen = (s.plotAll second).screen := by
    apply ext_pixel
    intro x _ y _
    rw [plotAll_screen, plotAll_screen, pixel_foldl_flip, pixel_foldl_flip, hperm.countP_eq]
  have hfirst := s.litCount_plotAll first
  have hsecond := s.litCount_plotAll second
  rw [hscreen, hperm.length_eq] at hfirst
  have hhits : (s.plotAll first).hits = (s.plotAll second).hits := by omega
  calc s.plotAll first
      = ⟨(s.plotAll first).screen, (s.plotAll first).hits⟩ := rfl
    _ = ⟨(s.plotAll second).screen, (s.plotAll second).hits⟩ := by rw [hscreen, hhits]
    _ = s.plotAll second := rfl

/-- Drawing sprites one after another is plotting all their points. -/
theorem drawEach_fst (s : Screen) (placements : List Placement) :
    (s.drawEach placements).1 = (s.plotAll (placements.flatMap Placement.points)).screen := by
  induction placements generalizing s with
  | nil => rfl
  | cons p rest ih =>
      rw [List.flatMap_cons, plotAll_append]
      exact ih _

theorem or_drawEach (s : Screen) (placements : List Placement) :
    (s.drawEach placements).2.or =
      (s.plotAll (placements.flatMap Placement.points)).collides := by
  induction placements generalizing s with
  | nil => rfl
  | cons p rest ih =>
      rw [List.flatMap_cons, plotAll_append, Drawing.collides, drawEach, List.or_cons, ih,
        Drawing.collides, Drawing.collides, ← Bool.decide_or]
      refine decide_eq_decide.2 ?_
      exact Nat.add_pos_iff_pos_or_pos.symm

/-- A cell ends up turned over once for each bit of the sprites that lands on it. -/
theorem pixel_drawEach (s : Screen) (placements : List Placement) {c r : Nat} (hc : c < 64)
    (hr : r < 32) :
    (s.drawEach placements).1.pixel ⟨c, r⟩ =
      (s.pixel ⟨c, r⟩ ^^
        decide (((placements.map Placement.wrapped).map (Placement.weight c r)).sum % 2 = 1)) := by
  have hweights : placements.map
      ((List.countP fun q => decide (q.cell = (Point.mk c r).cell)) ∘ Placement.points) =
        (placements.map Placement.wrapped).map (Placement.weight c r) := by
    rw [List.map_map]
    refine List.map_congr_left ?_
    intro p _
    exact (p.countP_points hc hr).trans (p.weight_wrapped c r).symm
  rw [drawEach_fst, plotAll_screen, pixel_foldl_flip, List.countP_flatMap, hweights]

theorem drawEach_perm (s : Screen) {first second : List Placement} (hperm : first.Perm second) :
    (s.drawEach first).1 = (s.drawEach second).1 ∧
      (s.drawEach first).2.or = (s.drawEach second).2.or := by
  have hplotted := s.plotAll_perm (hperm.flatMap_right Placement.points)
  rw [drawEach_fst, drawEach_fst, or_drawEach, or_drawEach, hplotted]
  exact ⟨rfl, rfl⟩

theorem drawEach_of_parity (s : Screen) {first second : List Placement}
    (hparity : ∀ place, (first.map Placement.wrapped).count place % 2 =
      (second.map Placement.wrapped).count place % 2) :
    (s.drawEach first).1 = (s.drawEach second).1 := by
  apply ext_pixel
  intro c hc r hr
  rw [pixel_drawEach s first hc hr, pixel_drawEach s second hc hr, sum_map_mod_two _ hparity]

theorem draw_draw_self (s : Screen) (x y : UInt8) (sprite : Sprite) :
    ((s.draw x y sprite).screen.draw x y sprite).screen = s := by
  let place : Placement := ⟨x, y, sprite⟩
  have hparity : ∀ other, ([place, place].map Placement.wrapped).count other % 2 =
      (([] : List Placement).map Placement.wrapped).count other % 2 := by
    intro other
    simp only [List.map_cons, List.map_nil, List.count_cons, List.count_nil]
    omega
  exact s.drawEach_of_parity hparity

/-- The order decides which of the sprites hit, and how many of them: a row of two pixels before
its single pixels, or after them. -/
theorem exists_perm_flags_ne :
    ∃ (s : Screen) (first second : List Placement), first.Perm second ∧
      (s.drawEach first).2.count true ≠ (s.drawEach second).2.count true := by
  let both : Placement := ⟨0, 0, [0xC0]⟩
  let left : Placement := ⟨0, 0, [0x80]⟩
  let right : Placement := ⟨0, 0, [0x40]⟩
  exact ⟨.blank, [both, left, right], [left, right, both], by decide, by decide +kernel⟩

/-- Sprites leave the same screen in whatever order they are drawn, wherever they are and however
high, and some of them hits in one order just when some of them hits in any other, though it need
not be the same.  Of how often a sprite is drawn at a place only the parity shows, so that drawing
it twice brings the screen back. -/
theorem drawEach_order (s : Screen) (first second : List Placement) :
    (first.Perm second →
      (s.drawEach first).1 = (s.drawEach second).1 ∧
        (s.drawEach first).2.or = (s.drawEach second).2.or) ∧
    ((∀ place, (first.map Placement.wrapped).count place % 2 =
        (second.map Placement.wrapped).count place % 2) →
      (s.drawEach first).1 = (s.drawEach second).1) ∧
    (∀ x y sprite, ((s.draw x y sprite).screen.draw x y sprite).screen = s) ∧
    ∃ (t : Screen) (one other : List Placement), one.Perm other ∧
      (t.drawEach one).2.count true ≠ (t.drawEach other).2.count true :=
  ⟨s.drawEach_perm, s.drawEach_of_parity, s.draw_draw_self, exists_perm_flags_ne⟩

/-- Two sprites of 33 rows at one place, which meet themselves and are written in two ways, and a
sprite across the corner between them, which alone is left of the three. -/
theorem drawEach_order_tall :
    let tall : Sprite := List.replicate 33 0x80
    let corner : Sprite := [0xFF, 0x81]
    let first : List Placement := [⟨70, 40, tall⟩, ⟨62, 31, corner⟩, ⟨6, 8, tall⟩]
    let second : List Placement := [⟨6, 8, tall⟩, ⟨70, 40, tall⟩, ⟨62, 31, corner⟩]
    let alone : List Placement := [⟨126, 63, corner⟩]
    first.Perm second ∧
      (∀ place, (first.map Placement.wrapped).count place % 2 =
        (alone.map Placement.wrapped).count place % 2) ∧
      (blank.drawEach first).1 = (blank.drawEach second).1 ∧
      (blank.drawEach first).2.or = (blank.drawEach second).2.or ∧
      (blank.drawEach first).1 = (blank.drawEach alone).1 := by
  intro tall corner first second alone
  let again : Placement := ⟨6, 8, tall⟩
  have hperm : first.Perm second := List.perm_append_singleton again (first.take 2)
  have hparity : ∀ place, (first.map Placement.wrapped).count place % 2 =
      (alone.map Placement.wrapped).count place % 2 := by
    intro place
    have hfirst : first.map Placement.wrapped =
        [⟨6, 8, tall⟩, ⟨62, 31, corner⟩, ⟨6, 8, tall⟩] := by decide
    have halone : alone.map Placement.wrapped = [⟨62, 31, corner⟩] := by decide
    rw [hfirst, halone]
    simp only [List.count_cons, List.count_nil]
    omega
  obtain ⟨hscreen, hflags⟩ := (drawEach_order blank first second).1 hperm
  exact ⟨hperm, hparity, hscreen, hflags, (drawEach_order blank first alone).2.1 hparity⟩

end Screen

end Chip8
