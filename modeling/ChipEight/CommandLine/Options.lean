import ChipEight.Config
import ChipEight.Layout
import ChipEight.Numeral

namespace ChipEight

structure Options where
  rom : String
  dialect : Dialect := {}
  opsPerFrame : Nat := 11
  seed : Option UInt64 := none
  /-- How many pixels of the window a cell of the display is wide and high. -/
  scale : Nat := 10
  layout : Layout := .cosmac
  /-- Print the listing of the program, where otherwise it is run. -/
  disassemble : Bool := false
deriving DecidableEq, Repr

/-- An option that stands alone. -/
inductive Flag
  | legacyShift
  | jumpAddOffset
  | memoryIncrementI
  | legacyWrap
  | disassemble
deriving DecidableEq, Repr

def Flag.name : Flag → String
  | legacyShift => "legacy-shift"
  | jumpAddOffset => "jump-add-offset"
  | memoryIncrementI => "memory-increment-i"
  | legacyWrap => "legacy-wrap"
  | disassemble => "disassemble"

def Flag.all : List Flag :=
  [.legacyShift, .jumpAddOffset, .memoryIncrementI, .legacyWrap, .disassemble]

def Flag.ofName? (name : String) : Option Flag :=
  Flag.all.find? fun f => f.name = name

/-- An option that takes a value. -/
inductive ValueOption
  | opsPerFrame
  | seed
  | scale
  | layout
deriving DecidableEq, Repr

def ValueOption.name : ValueOption → String
  | opsPerFrame => "ops-per-frame"
  | seed => "seed"
  | scale => "scale"
  | layout => "layout"

def ValueOption.all : List ValueOption :=
  [.opsPerFrame, .seed, .scale, .layout]

def ValueOption.ofName? (name : String) : Option ValueOption :=
  ValueOption.all.find? fun o => o.name = name

/-- Why a command line is refused, or what it asks for instead of a program. -/
inductive UsageError
  | missingRom
  | emptyRom
  /-- An argument is no option, or names a second program. -/
  | unknownArgument (argument : String)
  | repeatedOption (name : String)
  /-- An option that stands alone has a value. -/
  | unexpectedValue (name : String)
  | missingValue (name : String)
  /-- A word is none of those that an option takes. -/
  | unknownWord (name value : String)
  | badNumber (name value : String)
  | help
  | version
deriving DecidableEq, Repr

def UsageError.message : UsageError → String
  | missingRom => "no program is given"
  | emptyRom => "the name of the program is empty"
  | unknownArgument argument => "unexpected argument " ++ argument
  | repeatedOption name => "--" ++ name ++ " is given twice"
  | unexpectedValue name => "--" ++ name ++ " takes no value"
  | missingValue name => "--" ++ name ++ " needs a value"
  | unknownWord name value => value ++ " is not a value for --" ++ name
  | badNumber name value => value ++ " is not a number for --" ++ name
  | help => "help"
  | version => "version"

end ChipEight
