namespace ChipEight

/-- A colour as it goes into a frame: red, green, blue and opacity. -/
structure Rgba where
  red : UInt8
  green : UInt8
  blue : UInt8
  alpha : UInt8
deriving DecidableEq, Repr

structure Palette where
  on : Rgba := ⟨255, 255, 255, 255⟩
  off : Rgba := ⟨0, 0, 0, 255⟩
deriving DecidableEq, Repr

def Palette.colour (p : Palette) (lit : Bool) : Rgba :=
  if lit then p.on else p.off

/-- Historical variants of a few instructions, each on or off. With all of them off the machine does
what most programs written since the 1990s expect. -/
structure Dialect where
  /-- The shifts 8XY6 and 8XYE shift VY into VX, where otherwise they shift VX. -/
  legacyShift : Bool := false
  /-- The jump BNNN adds the register numbered by the top four bits of NNN, where otherwise it adds
  V0. -/
  jumpAddOffset : Bool := false
  /-- The transfers FX55 and FX65 leave the index register behind the last byte, where otherwise
  they leave it alone. -/
  memoryIncrementI : Bool := false
  /-- Sprites wrap at 63 columns, where otherwise they wrap at 64. -/
  legacyWrap : Bool := false
deriving DecidableEq, Repr

structure Config where
  dialect : Dialect := {}
  palette : Palette := {}
  /-- How many instructions make a frame, at most. -/
  opsPerCycle : Nat := 11
deriving DecidableEq, Repr

end ChipEight
