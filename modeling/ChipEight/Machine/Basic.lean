import ChipEight.CallStack
import ChipEight.Display.Basic
import ChipEight.Event
import ChipEight.Random.Source
import ChipEight.Timers

namespace ChipEight

/-- Whether a machine executes instructions. -/
inductive RunState
  | running
  /-- The machine waits for a key press, to put the key's number into a register. -/
  | awaitingKey (register : UInt8)
  /-- A fault stopped the machine, and nothing more is executed. -/
  | halted
deriving DecidableEq, Repr

structure Machine where
  config : Config := {}
  memory : Memory := {}
  display : Display := {}
  keypad : Keypad := {}
  timers : Timers := {}
  random : RandomSource
  stack : CallStack := .empty
  /-- The program counter: the address of the next byte to fetch. -/
  pc : UInt16 := romStart
  state : RunState := .running
  /-- How many accesses were rejected. A step rejects at most sixteen, so for 2 ^ 60 steps the count
  keeps within 64 bits. -/
  anomalies : Nat := 0

/-- The outcome of an operation on a machine: its result, the machine after it, and the events it
reported, in order. -/
structure Outcome (α : Type) where
  result : α
  machine : Machine
  log : List Event := []

def Outcome.map {α β : Type} (f : α → β) (o : Outcome α) : Outcome β :=
  { o with result := f o.result }

inductive Setting
  | dialect (dialect : Dialect)
  | legacyShift (on : Bool)
  | jumpAddOffset (on : Bool)
  | memoryIncrementI (on : Bool)
  | legacyWrap (on : Bool)
  | opsPerCycle (count : Nat)
  | palette (palette : Palette)
  | seed (seed : UInt64)
deriving DecidableEq, Repr

namespace Machine

/-- A machine with the font in its memory and no program. -/
def initial (random : RandomSource) : Machine :=
  { random := random, memory := ({} : Memory).loadFont }

/-- Changes the dialect, and the wrapping of the display with it. -/
def setDialect (m : Machine) (dialect : Dialect) : Machine :=
  { m with
    config := { m.config with dialect := dialect }
    display := { m.display with wrap := if dialect.legacyWrap then .narrow else .full } }

/-- Changes the dialect and leaves the display as it is. -/
def withDialect (m : Machine) (dialect : Dialect) : Machine :=
  { m with config := { m.config with dialect := dialect } }

def configure (m : Machine) : Setting → Machine
  | .dialect dialect => m.setDialect dialect
  | .legacyShift on => m.withDialect { m.config.dialect with legacyShift := on }
  | .jumpAddOffset on => m.withDialect { m.config.dialect with jumpAddOffset := on }
  | .memoryIncrementI on => m.withDialect { m.config.dialect with memoryIncrementI := on }
  | .legacyWrap on => m.setDialect { m.config.dialect with legacyWrap := on }
  | .opsPerCycle count => { m with config := { m.config with opsPerCycle := count } }
  | .palette palette =>
    { m with
      config := { m.config with palette := palette }
      display := m.display.setPalette palette }
  | .seed seed => { m with random := .ofSeed seed }

def tick (m : Machine) : Machine :=
  { m with timers := m.timers.tick }

/-- Presses a key, or changes nothing if there is no such key. -/
def pressKey (m : Machine) (key : UInt8) : Outcome (Except AccessError Unit) :=
  match m.keypad.press key with
  | .ok keypad => { result := .ok (), machine := { m with keypad := keypad } }
  | .error e => { result := .error e, machine := m }

/-- Releases a key, or changes nothing if there is no such key. -/
def releaseKey (m : Machine) (key : UInt8) : Outcome (Except AccessError Unit) :=
  match m.keypad.release key with
  | .ok keypad => { result := .ok (), machine := { m with keypad := keypad } }
  | .error e => { result := .error e, machine := m }

/-- Lowers the dirty flag of the display, and says whether it was up. -/
def takeDirty (m : Machine) : Outcome Bool :=
  let (display, dirty) := m.display.takeDirty
  { result := dirty, machine := { m with display := display } }

end Machine

end ChipEight
