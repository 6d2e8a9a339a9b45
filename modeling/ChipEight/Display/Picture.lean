namespace ChipEight

/-- The place of a cell: its column, from the left, and its row, from the top. -/
structure Cell where
  x : Fin 64
  y : Fin 32
deriving DecidableEq, Repr

structure Picture where
  rows : Vector (Vector Bool 64) 32
deriving DecidableEq

namespace Picture

def dark : Picture :=
  ⟨.replicate 32 (.replicate 64 false)⟩

def lit (p : Picture) (c : Cell) : Bool :=
  p.rows[c.y][c.x]

/-- Turns a lit cell dark and a dark one lit. -/
def toggle (p : Picture) (c : Cell) : Picture :=
  ⟨p.rows.set c.y (p.rows[c.y].set c.x (!p.lit c))⟩

theorem lit_dark (c : Cell) : dark.lit c = false := by
  simp [dark, lit]

theorem lit_toggle (p : Picture) (c d : Cell) :
    (p.toggle c).lit d = if c = d then !p.lit d else p.lit d := by
  rcases c with ⟨⟨cx, hcx⟩, ⟨cy, hcy⟩⟩
  rcases d with ⟨⟨dx, hdx⟩, ⟨dy, hdy⟩⟩
  simp only [lit, toggle, Cell.mk.injEq, Fin.mk.injEq, Fin.getElem_fin, Vector.getElem_set]
  by_cases hy : cy = dy
  · subst hy
    by_cases hx : cx = dx
    · subst hx
      simp
    · simp [hx]
  · simp [hy]

theorem ext_lit {p q : Picture} (h : ∀ c, p.lit c = q.lit c) : p = q := by
  rcases p with ⟨p⟩
  rcases q with ⟨q⟩
  congr 1
  apply Vector.ext
  intro y hy
  apply Vector.ext
  intro x hx
  exact h ⟨⟨x, hx⟩, ⟨y, hy⟩⟩

/-- A line of text for each row, with `1` for a lit cell and `0` for a dark one. -/
def text (p : Picture) : String :=
  String.ofList (p.rows.toList.flatMap fun row =>
    row.toList.map (fun lit => if lit then '1' else '0') ++ ['\n'])

end Picture

end ChipEight
