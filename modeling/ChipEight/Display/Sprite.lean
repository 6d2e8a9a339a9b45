import ChipEight.Display.Picture

namespace ChipEight

/-- At which column sprites wrap around to the left edge. -/
inductive Wrap
  /-- At the right edge of the picture. -/
  | full
  /-- One column before it. -/
  | narrow
deriving DecidableEq, Repr

namespace Wrap

/-- The number of columns that sprites reach. -/
def width : Wrap → Nat
  | full => 64
  | narrow => 63

theorem width_pos (w : Wrap) : 0 < w.width := by
  cases w <;> decide

theorem width_le (w : Wrap) : w.width ≤ 64 := by
  cases w <;> decide

/-- The cell that a column and a row wrap around to. -/
def cell (w : Wrap) (x y : Nat) : Cell :=
  ⟨⟨x % w.width, Nat.lt_of_lt_of_le (Nat.mod_lt _ w.width_pos) w.width_le⟩,
    ⟨y % 32, Nat.mod_lt _ (by decide)⟩⟩

end Wrap

/-- The rows of a sprite, from the top. -/
abbrev Sprite := List UInt8

namespace Sprite

def pixel (row : UInt8) (column : Nat) : Bool :=
  row.toNat.testBit (7 - column)

/-- The cells under the set pixels of one row, from the left. -/
def rowCells (w : Wrap) (x y : Nat) (row : UInt8) : List Cell :=
  ((List.range 8).filter (pixel row)).map fun column => w.cell (x + column) y

/-- The cells under the set pixels of a sprite whose top left corner is at column `x` and row `y`,
in drawing order. A cell that lies under two pixels occurs twice. -/
def cells (w : Wrap) (x y : Nat) (sprite : Sprite) : List Cell :=
  (sprite.zipIdx y).flatMap fun (row, y) => rowCells w x y row

@[simp] theorem cells_nil (w : Wrap) (x y : Nat) : cells w x y [] = [] := rfl

@[simp] theorem cells_cons (w : Wrap) (x y : Nat) (row : UInt8) (rest : Sprite) :
    cells w x y (row :: rest) = rowCells w x y row ++ cells w x (y + 1) rest := by
  simp [cells, List.zipIdx_cons]

end Sprite

namespace Picture

/-- Toggles cells one after the other, and says whether one of them was lit when its turn came. -/
def toggleAll (p : Picture) (cells : List Cell) : Picture × Bool :=
  cells.foldl (fun (q, hit) c => (q.toggle c, hit || q.lit c)) (p, false)

end Picture

end ChipEight
