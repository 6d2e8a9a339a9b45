import ChipEight.Proofs.Display.Toggling
import Mathlib.Logic.Equiv.Defs
/-!
Drawing around the edges: a sprite that is drawn elsewhere on a picture that is rotated along gives
the rotated drawing.

`toggleAll_moved` holds for every permutation of the cells. That rotations are permutations, and carry
the cells of a sprite to those of the sprite drawn elsewhere, is in `shift_shift` and `map_cells`.
-/

namespace ChipEight

theorem Cell.ext_val {c d : Cell} (hx : c.x.val = d.x.val) (hy : c.y.val = d.y.val) : c = d := by
  rcases c with ⟨cx, cy⟩
  rcases d with ⟨dx, dy⟩
  rw [Cell.mk.injEq]
  exact ⟨Fin.ext hx, Fin.ext hy⟩

namespace Wrap

/-- The cell `dx` columns to the right and `dy` rows below, around the edges. In a column that sprites
do not reach it is in the same column. -/
def shift (w : Wrap) (dx dy : Nat) (c : Cell) : Cell :=
  let target := w.cell (c.x + dx) (c.y + dy)
  if c.x.val < w.width then target else { target with x := c.x }

variable (w : Wrap) (dx dy : Nat) (c : Cell)

theorem x_shift :
    (w.shift dx dy c).x.val = if c.x.val < w.width then (c.x + dx) % w.width else c.x := by
  unfold shift
  split
  · rfl
  · rfl

theorem y_shift : (w.shift dx dy c).y.val = (c.y + dy) % 32 := by
  unfold shift
  split
  · rfl
  · rfl

theorem shift_cell (x y : Nat) : w.shift dx dy (w.cell x y) = w.cell (x + dx) (y + dy) := by
  have hreached : (w.cell x y).x.val < w.width := Nat.mod_lt _ w.width_pos
  apply Cell.ext_val
  · rw [x_shift, if_pos hreached]
    exact Nat.mod_add_mod x w.width dx
  · rw [y_shift]
    exact Nat.mod_add_mod y 32 dy

theorem shift_shift (dx' dy' : Nat) :
    w.shift dx dy (w.shift dx' dy' c) = w.shift (dx' + dx) (dy' + dy) c := by
  apply Cell.ext_val
  · rw [x_shift, x_shift, x_shift]
    by_cases hreached : c.x.val < w.width
    · rw [if_pos hreached, if_pos (Nat.mod_lt _ w.width_pos), if_pos hreached, Nat.mod_add_mod,
        Nat.add_assoc]
    · rw [if_neg hreached, if_neg hreached, if_neg hreached]
  · rw [y_shift, y_shift, y_shift, Nat.mod_add_mod, Nat.add_assoc]

theorem shift_multiples (a b : Nat) : w.shift (w.width * a) (32 * b) c = c := by
  apply Cell.ext_val
  · rw [x_shift]
    split
    · next hreached => rw [Nat.add_mul_mod_self_left, Nat.mod_eq_of_lt hreached]
    · rfl
  · rw [y_shift, Nat.add_mul_mod_self_left, Nat.mod_eq_of_lt c.y.isLt]

/-- Moved `width - 1` times again as far to the right, and 31 times again as far down, a cell is back
in its place. -/
theorem shift_back : w.shift (dx + (w.width - 1) * dx) (dy + 31 * dy) c = c := by
  have hx : dx + (w.width - 1) * dx = w.width * dx :=
    calc
      dx + (w.width - 1) * dx = (w.width - 1 + 1) * dx := by rw [Nat.succ_mul, Nat.add_comm]
      _ = w.width * dx := by rw [Nat.sub_add_cancel w.width_pos]
  have hy : dy + 31 * dy = 32 * dy := by omega
  rw [hx, hy, shift_multiples]

/-- Rotates the columns that sprites reach to the right, and all rows down. -/
def rotation : Equiv.Perm Cell where
  toFun := w.shift dx dy
  invFun := w.shift ((w.width - 1) * dx) (31 * dy)
  left_inv c := by rw [shift_shift, shift_back]
  right_inv c := by rw [shift_shift, Nat.add_comm, Nat.add_comm (31 * dy), shift_back]

example : narrow.rotation 2 1 ⟨62, 31⟩ = ⟨1, 0⟩ ∧ narrow.rotation 2 1 ⟨63, 31⟩ = ⟨63, 0⟩ := by
  decide

end Wrap

namespace Sprite

theorem map_cells (w : Wrap) (dx dy x y : Nat) (sprite : Sprite) :
    (cells w x y sprite).map (w.rotation dx dy) = cells w (x + dx) (y + dy) sprite := by
  induction sprite generalizing y with
  | nil => rfl
  | cons row rest ih =>
      have hrow : (rowCells w x y row).map (w.rotation dx dy) = rowCells w (x + dx) (y + dy) row := by
        rw [rowCells, List.map_map, rowCells]
        apply List.map_congr_left
        intro column _
        have hcolumn : x + column + dx = x + dx + column := by omega
        rw [← hcolumn]
        exact w.shift_cell dx dy (x + column) y
      have hnext : y + 1 + dy = y + dy + 1 := by omega
      rw [cells_cons, List.map_append, hrow, ih, cells_cons, hnext]

theorem cells_multiples (w : Wrap) (x y : Nat) (sprite : Sprite) (a b : Nat) :
    cells w (x + w.width * a) (y + 32 * b) sprite = cells w x y sprite := by
  have hmap : (cells w x y sprite).map (w.rotation (w.width * a) (32 * b)) =
      (cells w x y sprite).map id := by
    apply List.map_congr_left
    intro c _
    exact w.shift_multiples c a b
  rw [← map_cells, hmap, List.map_id]

end Sprite

namespace Picture

def ofLit (lit : Cell → Bool) : Picture :=
  ⟨.ofFn fun y => .ofFn fun x => lit ⟨x, y⟩⟩

theorem lit_ofLit (lit : Cell → Bool) (c : Cell) : (ofLit lit).lit c = lit c := by
  simp [ofLit, Picture.lit]

/-- The picture with every cell moved to its place under a permutation. -/
def moved (p : Picture) (e : Equiv.Perm Cell) : Picture :=
  ofLit fun c => p.lit (e.symm c)

theorem lit_moved (p : Picture) (e : Equiv.Perm Cell) (c : Cell) :
    (p.moved e).lit (e c) = p.lit c := by
  rw [moved, lit_ofLit, e.symm_apply_apply]

theorem toggle_moved (p : Picture) (e : Equiv.Perm Cell) (c : Cell) :
    (p.moved e).toggle (e c) = (p.toggle c).moved e := by
  apply ext_lit
  intro d
  obtain ⟨d, rfl⟩ := e.surjective d
  simp only [lit_toggle, lit_moved, e.apply_eq_iff_eq]

theorem toggleAll_moved (p : Picture) (e : Equiv.Perm Cell) (cells : List Cell) :
    (p.moved e).toggleAll (cells.map e) =
      ((p.toggleAll cells).1.moved e, (p.toggleAll cells).2) := by
  induction cells generalizing p with
  | nil => rfl
  | cons c cells ih =>
      rw [List.map_cons, toggleAll_cons, toggle_moved, ih, lit_moved, toggleAll_cons]

end Picture

namespace Display

/-- The display of the picture with every cell moved to its place under a permutation. -/
def moved (d : Display) (e : Equiv.Perm Cell) : Display :=
  { d with picture := d.picture.moved e }.present

theorem toggleAll_moved (d : Display) (e : Equiv.Perm Cell) (cells : List Cell) :
    (d.moved e).toggleAll (cells.map e) = ((d.toggleAll cells).1.moved e, (d.toggleAll cells).2) := by
  simp only [toggleAll, moved, present, Picture.toggleAll_moved]

theorem wrap_moved (d : Display) (e : Equiv.Perm Cell) : (d.moved e).wrap = d.wrap := by
  simp only [moved, present]

/-- A sprite that is drawn elsewhere on the rotated picture toggles the rotated cells. -/
theorem draw_rotated (d : Display) (x y dx dy : Nat) (sprite : Sprite) :
    (d.moved (d.wrap.rotation dx dy)).draw (x + dx) (y + dy) sprite =
      (d.moved (d.wrap.rotation dx dy)).toggleAll
        ((sprite.cells d.wrap x y).map (d.wrap.rotation dx dy)) := by
  rw [draw_eq_toggleAll, wrap_moved, Sprite.map_cells]

theorem draw_translated (d : Display) (x y dx dy : Nat) (sprite : Sprite) :
    let rotation := d.wrap.rotation dx dy
    (d.moved rotation).draw (x + dx) (y + dy) sprite =
        ((d.draw x y sprite).1.moved rotation, (d.draw x y sprite).2) ∧
      ∀ a b, d.draw (x + d.wrap.width * a) (y + 32 * b) sprite = d.draw x y sprite := by
  refine ⟨?_, ?_⟩
  · exact (d.draw_rotated x y dx dy sprite).trans (d.toggleAll_moved _ _)
  · intro a b
    rw [draw_eq_toggleAll, Sprite.cells_multiples, draw_eq_toggleAll]

end Display

end ChipEight
