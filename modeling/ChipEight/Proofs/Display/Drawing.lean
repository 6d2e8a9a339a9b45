import ChipEight.Proofs.Display.Framebuffer
import ChipEight.Proofs.Display.Toggling
import Mathlib.Algebra.BigOperators.Fin
import Mathlib.Data.Fintype.BigOperators
import Mathlib.Data.Nat.Count

namespace ChipEight

namespace Sprite

/-- How many set pixels of a sprite fall on a cell if the top left corner of the sprite is at column
`x` and row `y`. -/
def hits (w : Wrap) (x y : Nat) (sprite : Sprite) (c : Cell) : Nat :=
  (Finset.univ.filter fun place : Fin sprite.length × Fin 8 =>
    sprite[place.1].toNat.testBit (7 - place.2) ∧
      c.x.val = (x + place.2) % w.width ∧ c.y.val = (y + place.1) % 32).card

section Hits

variable {w : Wrap} {x y : Nat} {sprite : Sprite} {c : Cell}

theorem cell_eq_iff : w.cell x y = c ↔ c.x.val = x % w.width ∧ c.y.val = y % 32 := by
  rcases c with ⟨⟨cx, hcx⟩, ⟨cy, hcy⟩⟩
  simp only [Wrap.cell, Cell.mk.injEq, Fin.mk.injEq]
  exact and_congr eq_comm eq_comm

theorem hits_eq_sum (w : Wrap) (x y : Nat) (sprite : Sprite) (c : Cell) :
    hits w x y sprite c = ∑ row : Fin sprite.length, ∑ column : Fin 8,
      if pixel sprite[row] column ∧ w.cell (x + column) (y + row) = c then 1 else 0 := by
  rw [hits, Finset.card_filter, Fintype.sum_prod_type]
  simp only [cell_eq_iff, pixel]

theorem hits_cons (w : Wrap) (x y : Nat) (row : UInt8) (rest : Sprite) (c : Cell) :
    hits w x y (row :: rest) c =
      (∑ column : Fin 8, if pixel row column ∧ w.cell (x + column) y = c then 1 else 0) +
        hits w x (y + 1) rest c := by
  rw [hits_eq_sum, hits_eq_sum]
  show ∑ place : Fin (rest.length + 1), _ = _
  rw [Fin.sum_univ_succ]
  simp [Nat.add_assoc, Nat.add_comm 1]

theorem count_rowCells (w : Wrap) (x y : Nat) (row : UInt8) (c : Cell) :
    (rowCells w x y row).count c =
      ∑ column : Fin 8, if pixel row column ∧ w.cell (x + column) y = c then 1 else 0 := by
  rw [rowCells, List.count, List.countP_map, List.countP_filter]
  have hrange := Nat.count_eq_card_filter_range
    (fun column => pixel row column ∧ w.cell (x + column) y = c) 8
  rw [Finset.card_filter, Finset.sum_range] at hrange
  -- The loop over the columns tests the same property in another form.
  rw [← hrange, Nat.count]
  congr 1
  funext column
  simp [Bool.and_comm, beq_eq_decide]

/-- Drawing toggles a cell once for every set pixel that falls on it. -/
theorem count_cells (w : Wrap) (x y : Nat) (sprite : Sprite) (c : Cell) :
    (cells w x y sprite).count c = hits w x y sprite c := by
  induction sprite generalizing y with
  | nil => rfl
  | cons row rest ih => rw [cells_cons, List.count_append, count_rowCells, ih, hits_cons]

theorem hits_eq_zero (hx : w.width ≤ c.x.val) : hits w x y sprite c = 0 := by
  rw [hits, Finset.card_eq_zero, Finset.filter_eq_empty_iff]
  rintro place - ⟨-, hplace, -⟩
  have hreached := Nat.mod_lt (x + place.2) w.width_pos
  omega

theorem hits_le_one (hlength : sprite.length ≤ 32) (c : Cell) : hits w x y sprite c ≤ 1 := by
  rw [hits, Finset.card_le_one]
  rintro ⟨row, column⟩ hplace ⟨row', column'⟩ hplace'
  simp only [Finset.mem_filter] at hplace hplace'
  obtain ⟨-, -, hx, hy⟩ := hplace
  obtain ⟨-, -, hx', hy'⟩ := hplace'
  have hrows : row.val = row'.val := by omega
  have hcolumns : column.val = column'.val := by
    cases w with
    | full =>
        have hwidth : (x + column.val) % 64 = (x + column'.val) % 64 := hx.symm.trans hx'
        omega
    | narrow =>
        have hwidth : (x + column.val) % 63 = (x + column'.val) % 63 := hx.symm.trans hx'
        omega
  exact Prod.ext (Fin.ext hrows) (Fin.ext hcolumns)

end Hits

end Sprite

theorem toUInt8_xor_bodd (b : Bool) (n : Nat) :
    (b ^^ n.bodd).toUInt8 = b.toUInt8 ^^^ UInt8.ofNat (n % 2) := by
  rw [Nat.mod_two_of_bodd]
  cases b <;> cases n.bodd <;> rfl

namespace Picture

theorem byte_toggleAll (p : Picture) (cells : List Cell) (c : Cell) :
    (p.toggleAll cells).1.bytes.byte c = p.bytes.byte c ^^^ UInt8.ofNat (cells.count c % 2) := by
  show ((p.toggleAll cells).1.lit c).toUInt8 = (p.lit c).toUInt8 ^^^ _
  rw [lit_toggleAll, toUInt8_xor_bodd]

end Picture

namespace Display

section Short

/-- In a sprite that does not wrap around onto itself, no cell is toggled twice. -/
theorem byte_draw (d : Display) (x y : Nat) {sprite : Sprite} (hlength : sprite.length ≤ 32)
    (c : Cell) :
    (d.draw x y sprite).1.picture.bytes.byte c =
      d.picture.bytes.byte c ^^^ UInt8.ofNat (sprite.hits d.wrap x y c) := by
  have hone : sprite.hits d.wrap x y c ≤ 1 := Sprite.hits_le_one hlength c
  show (d.picture.toggleAll _).1.bytes.byte c = _
  rw [Picture.byte_toggleAll, Sprite.count_cells, Nat.mod_eq_of_lt (Nat.lt_succ_of_le hone)]

theorem collision_draw_iff (d : Display) (x y : Nat) {sprite : Sprite}
    (hlength : sprite.length ≤ 32) :
    (d.draw x y sprite).2 = true ↔
      ∃ c, sprite.hits d.wrap x y c = 1 ∧ d.picture.bytes.byte c = 1 := by
  show (d.picture.toggleAll _).2 = true ↔ _
  simp only [Picture.collided_iff, Sprite.count_cells, Picture.byte_bytes_eq_one_iff]
  refine exists_congr fun c => ?_
  have hone : sprite.hits d.wrap x y c ≤ 1 := Sprite.hits_le_one hlength c
  rw [or_iff_left (show ¬2 ≤ _ by omega)]
  exact and_congr_left fun _ => ⟨fun h => Nat.le_antisymm hone h, fun h => Nat.le_of_eq h.symm⟩

end Short

theorem draw_follows_hits (d : Display) (x y : Nat) (sprite : Sprite) :
    let fb := d.picture.bytes
    let hits := sprite.hits d.wrap x y
    let drawn := (d.draw x y sprite).1
    let collision := (d.draw x y sprite).2
    (∀ c, drawn.picture.bytes.byte c = fb.byte c ^^^ UInt8.ofNat (hits c % 2)) ∧
      (collision = true ↔ ∃ c, 1 ≤ hits c ∧ (fb.byte c = 1 ∨ 2 ≤ hits c)) ∧
      (∀ c : Cell, drawn.frame[64 * c.y.val + c.x.val]? =
        some (if drawn.picture.bytes.byte c = 1 then d.palette.on else d.palette.off)) ∧
      drawn.dirty = true ∧
      (d.wrap.width = 63 → ∀ c : Cell, c.x.val = 63 →
        drawn.picture.bytes.byte c = fb.byte c) ∧
      (sprite.length ≤ 32 →
        (∀ c, hits c ≤ 1) ∧ (collision = true ↔ ∃ c, 1 ≤ hits c ∧ fb.byte c = 1)) := by
  intro fb hits drawn collision
  have hbytes : ∀ c, drawn.picture.bytes.byte c = fb.byte c ^^^ UInt8.ofNat (hits c % 2) := by
    intro c
    show _ = _ ^^^ UInt8.ofNat (sprite.hits d.wrap x y c % 2)
    rw [← Sprite.count_cells]
    exact d.picture.byte_toggleAll _ c
  have hcollision : collision = true ↔ ∃ c, 1 ≤ hits c ∧ (fb.byte c = 1 ∨ 2 ≤ hits c) := by
    simp only [hits, ← Sprite.count_cells, fb, Picture.byte_bytes_eq_one_iff]
    exact Picture.collided_iff
  refine ⟨hbytes, hcollision, ?_, rfl, ?_, ?_⟩
  · intro c
    have hframe := drawn.picture.getElem_coloured d.palette c
    exact (Vector.getElem?_eq_getElem _).trans (congrArg some hframe)
  · intro hwidth c hlast
    have hnone : hits c = 0 := Sprite.hits_eq_zero (by omega)
    rw [hbytes, hnone]
    exact UInt8.xor_zero
  · intro hlength
    have hone : ∀ c, hits c ≤ 1 := Sprite.hits_le_one hlength
    refine ⟨hone, hcollision.trans (exists_congr fun c => ?_)⟩
    have hnotTwice : ¬2 ≤ hits c := Nat.not_le.mpr (Nat.lt_succ_of_le (hone c))
    rw [or_iff_left hnotTwice]

/-- The sprite goes over the right edge and the lower one, onto the lit cell in the corner. -/
theorem draw_follows_hits_around_corner :
    let d : Display := (({ wrap := .narrow } : Display).draw 63 0 [0x80]).1
    let sprite : Sprite := [0xFF, 0xF0]
    let drawn := (d.draw 60 31 sprite).1
    d.wrap.width = 63 ∧ sprite.length ≤ 32 ∧ (d.draw 60 31 sprite).2 = true ∧
      (∀ y, drawn.picture.bytes.byte ⟨63, y⟩ = d.picture.bytes.byte ⟨63, y⟩) ∧
      ∀ c, sprite.hits d.wrap 60 31 c ≤ 1 := by
  intro d sprite drawn
  have hwidth : d.wrap.width = 63 := rfl
  have hlength : sprite.length ≤ 32 := by decide
  obtain ⟨-, -, -, -, hlast, hshort⟩ := d.draw_follows_hits 60 31 sprite
  obtain ⟨hone, hcollision⟩ := hshort hlength
  have hcorner : 1 ≤ sprite.hits d.wrap 60 31 ⟨0, 0⟩ ∧ d.picture.bytes.byte ⟨0, 0⟩ = 1 := by
    decide +kernel
  exact ⟨hwidth, hlength, hcollision.mpr ⟨_, hcorner⟩, fun y => hlast hwidth ⟨63, y⟩ rfl, hone⟩

end Display

end ChipEight
