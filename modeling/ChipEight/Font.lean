namespace ChipEight.Font

def glyphHeight : Nat := 5

def start : Nat := 0

/-- The rows of the sixteen glyphs, from `0` to `F`. -/
def rows : List UInt8 := [
  0xF0, 0x90, 0x90, 0x90, 0xF0,
  0x20, 0x60, 0x20, 0x20, 0x70,
  0xF0, 0x10, 0xF0, 0x80, 0xF0,
  0xF0, 0x10, 0xF0, 0x10, 0xF0,
  0x90, 0x90, 0xF0, 0x10, 0x10,
  0xF0, 0x80, 0xF0, 0x10, 0xF0,
  0xF0, 0x80, 0xF0, 0x90, 0xF0,
  0xF0, 0x10, 0x20, 0x40, 0x40,
  0xF0, 0x90, 0xF0, 0x90, 0xF0,
  0xF0, 0x90, 0xF0, 0x10, 0xF0,
  0xF0, 0x90, 0xF0, 0x90, 0x90,
  0xE0, 0x90, 0xE0, 0x90, 0xE0,
  0xF0, 0x80, 0x80, 0x80, 0xF0,
  0xE0, 0x90, 0x90, 0x90, 0xE0,
  0xF0, 0x80, 0xF0, 0x80, 0xF0,
  0xF0, 0x80, 0xF0, 0x80, 0x80]

/-- Where the glyph of a digit starts; for a byte that is no digit, where its glyph would. -/
def address (digit : UInt8) : UInt16 :=
  UInt16.ofNat (start + digit.toNat * glyphHeight)

theorem length_rows : rows.length = 16 * glyphHeight := rfl

theorem toNat_address (digit : UInt8) : (address digit).toNat = 5 * digit.toNat := by
  have := digit.toNat_lt
  simp [address, start, glyphHeight]
  omega

end ChipEight.Font
