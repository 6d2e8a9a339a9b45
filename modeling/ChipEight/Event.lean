import ChipEight.Fault
import ChipEight.Instruction.Listing
import ChipEight.Keypad
import ChipEight.Memory

namespace ChipEight

/-- How severe a report is, from the most severe to the least. -/
inductive Level
  | error
  | warn
  | info
  | debug
  | trace
deriving DecidableEq, Repr

/-- The place of a level in that order. -/
def Level.rank : Level → Nat
  | error => 0
  | warn => 1
  | info => 2
  | debug => 3
  | trace => 4

def Level.name : Level → String
  | error => "ERROR"
  | warn => "WARN"
  | info => "INFO"
  | debug => "DEBUG"
  | trace => "TRACE"

/-- Whether a log that is limited to a level takes up a report. -/
def Level.admits (limit level : Level) : Bool :=
  level.rank ≤ limit.rank

/-- An event in the work of a machine. Where an event has an address, it is that of the instruction
being executed. -/
inductive Event
  | executing (instruction : Listed)
  /-- An access was rejected, and the instruction goes on. -/
  | rejected (address : UInt16) (error : AccessError)
  /-- The word at the address stands for no instruction and is passed over. -/
  | unknownOpcode (address word : UInt16)
  /-- The machine begins to wait for a key, whose number will go to a register. -/
  | awaitingKey (address : UInt16) (register : UInt8)
  /-- A key ended the wait, and the machine will go on at the program counter. -/
  | keyReceived (key : Key) (pc : UInt16)
  | stopped (fault : Fault)
  | programLoaded (size : Nat)
deriving DecidableEq, Repr

namespace Event

def level : Event → Level
  | executing _ => .trace
  | rejected _ _ | unknownOpcode _ _ => .warn
  | awaitingKey _ _ | keyReceived _ _ | programLoaded _ => .debug
  | stopped _ => .error

def text : Event → String
  | executing i => i.text " "
  | rejected a e => Numeral.hexPrefixed 3 a.toNat ++ ": " ++ e.message
  | unknownOpcode a w =>
    Numeral.hexPrefixed 3 a.toNat ++ ": unknown opcode " ++ Numeral.hexPrefixed 4 w.toNat
  | awaitingKey a x =>
    Numeral.hexPrefixed 3 a.toNat ++ ": waiting for key press into V" ++ Numeral.hexUpper 1 x.toNat
  | keyReceived k pc =>
    "key " ++ Numeral.hexUpper 1 k.val ++ " pressed, resuming at " ++ Numeral.hexPrefixed 3 pc.toNat
  | stopped f => f.message
  | programLoaded n =>
    "loaded " ++ Numeral.decimal n ++ " byte rom at " ++ Numeral.hexPrefixed 3 romStart.toNat

end Event

end ChipEight
