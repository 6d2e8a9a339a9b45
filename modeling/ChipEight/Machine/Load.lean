import ChipEight.Causes
import ChipEight.FileTree
import ChipEight.Machine.Basic

namespace ChipEight

inductive LoadError
  | unreadable (path : String) (reason : ReadError)
  | rejected (reason : AccessError)
deriving DecidableEq, Repr

def AccessError.loadCauses (e : AccessError) : Causes :=
  ["write rom into memory", e.message]

def LoadError.causes : LoadError → Causes
  | unreadable path reason => ["read rom file " ++ path, reason.message]
  | rejected reason => "load rom from file" :: reason.loadCauses

namespace Machine

/-- The machine that starts the program in `memory`. -/
def start (m : Machine) (memory : Memory) : Machine :=
  { m with
    memory := memory
    display := m.display.clear
    keypad := {}
    timers := {}
    stack := m.stack.clear
    pc := romStart
    state := .running }

def load (m : Machine) (rom : List UInt8) : Outcome (Except AccessError Unit) :=
  match ({} : Memory).loadFont.loadRom rom with
  | .ok memory =>
    { result := .ok (), machine := m.start memory, log := [.programLoaded rom.length] }
  | .error e => { result := .error e, machine := m }

/-- Loads the program in the file at a path, given what reading the file gives. -/
def loadFile (m : Machine) (path : String) (contents : Contents) :
    Outcome (Except LoadError Unit) :=
  match contents with
  | .error reason => { result := .error (.unreadable path reason), machine := m }
  | .ok rom => (m.load rom).map (·.mapError .rejected)

end Machine

end ChipEight
