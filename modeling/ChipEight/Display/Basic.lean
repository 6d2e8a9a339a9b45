import ChipEight.Config
import ChipEight.Display.Sprite

namespace ChipEight

/-- The colours of the 2048 cells, row by row from the top. -/
abbrev Frame := Vector Rgba 2048

/-- The frame that shows a picture in a palette. -/
def Picture.coloured (p : Picture) (palette : Palette) : Frame :=
  p.rows.flatten.map palette.colour

structure Display where
  palette : Palette := {}
  picture : Picture := .dark
  frame : Frame := .replicate 2048 palette.off
  wrap : Wrap := .full
  /-- The picture was drawn on since the flag was last taken. -/
  dirty : Bool := false
deriving DecidableEq

namespace Display

def present (d : Display) : Display :=
  { d with frame := d.picture.coloured d.palette }

def setPalette (d : Display) (palette : Palette) : Display :=
  { d with palette := palette }.present

def clear (d : Display) : Display :=
  { d with picture := .dark, dirty := true }.present

/-- Draws a sprite with its top left corner at column `x` and row `y`, wrapping around all edges, and
says whether it turned a lit cell dark. -/
def draw (d : Display) (x y : Nat) (sprite : Sprite) : Display × Bool :=
  let (picture, collision) := d.picture.toggleAll (sprite.cells d.wrap x y)
  ({ d with picture := picture, dirty := true }.present, collision)

/-- Lowers the dirty flag, and says whether it was up. -/
def takeDirty (d : Display) : Display × Bool :=
  ({ d with dirty := false }, d.dirty)

/-- Whether the cell at a column and a row is lit, both reduced to the size of the picture. -/
def isLit (d : Display) (x y : Nat) : Bool :=
  d.picture.lit (Wrap.full.cell x y)

end Display

end ChipEight
