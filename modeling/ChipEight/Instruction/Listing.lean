import ChipEight.Instruction.Mnemonic

namespace ChipEight

/-- One instruction of a listing and the address it is loaded at. -/
structure Listed where
  address : UInt16
  instruction : Instruction
deriving DecidableEq, Repr

namespace Listed

/-- The address and the mnemonic, with `gap` between them. -/
def text (gap : String) (l : Listed) : String :=
  Numeral.hexPrefixed 3 l.address.toNat ++ gap ++ l.instruction.mnemonic

def line (l : Listed) : String :=
  l.text "  "

end Listed

/-- Decodes an image two bytes at a time, the first instruction being at `address`. An odd last byte
is left out, and so is everything that would start above the highest sixteen-bit address. -/
def disassembleFrom (address : Nat) : List UInt8 → List Listed
  | hi :: lo :: rest =>
    if address < UInt16.size then
      ⟨UInt16.ofNat address, Instruction.decode hi lo⟩ :: disassembleFrom (address + 2) rest
    else
      []
  | _ => []

def disassemble (image : List UInt8) (base : UInt16) : List Listed :=
  disassembleFrom base.toNat image

end ChipEight
