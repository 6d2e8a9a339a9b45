import ChipEight.Numeral

namespace ChipEight

/-- Why a machine cannot go on. -/
inductive Fault
  /-- There is no byte to fetch at the program counter. -/
  | fetchOutOfBounds (pc : UInt16)
  /-- The call at an address found no slot for its return address. -/
  | stackOverflow (address : UInt16)
  /-- The return at an address found no return address. -/
  | stackUnderflow (address : UInt16)
  | halted
deriving DecidableEq, Repr

def Fault.message : Fault → String
  | fetchOutOfBounds pc => "instruction fetch out of bounds at " ++ Numeral.hexPrefixed 4 pc.toNat
  | stackOverflow a => "call stack overflow at " ++ Numeral.hexPrefixed 4 a.toNat
  | stackUnderflow a => "return with empty call stack at " ++ Numeral.hexPrefixed 4 a.toNat
  | halted => "machine is halted"

end ChipEight
