import ChipEight.Machine.Load
import ChipEight.Machine.Step

namespace ChipEight

inductive Operation
  | configure (setting : Setting)
  | load (rom : List UInt8)
  /-- Loads the file at a path, whose reading gives `contents`. -/
  | loadFile (path : String) (contents : Contents)
  | step
  | run (count : Nat)
  | cycle
  | tick
  | pressKey (key : UInt8)
  | releaseKey (key : UInt8)
  | takeDirty
deriving Repr

inductive Reply
  | done
  | loaded (result : Except AccessError Unit)
  | fileLoaded (result : Except LoadError Unit)
  | stepped (result : Except Fault Step)
  | ran (progress : Progress)
  | cycled (result : Except Fault Unit)
  | keyed (result : Except AccessError Unit)
  | dirty (dirty : Bool)

namespace Machine

def perform (m : Machine) : Operation → Outcome Reply
  | .configure setting => { result := .done, machine := m.configure setting }
  | .load rom => (m.load rom).map .loaded
  | .loadFile path contents => (m.loadFile path contents).map .fileLoaded
  | .step => m.step.map .stepped
  | .run count => (m.run count).map .ran
  | .cycle => m.cycle.map .cycled
  | .tick => { result := .done, machine := m.tick }
  | .pressKey key => (m.pressKey key).map .keyed
  | .releaseKey key => (m.releaseKey key).map .keyed
  | .takeDirty => m.takeDirty.map .dirty

/-- Performs operations one after the other, and gives the replies to them in order. -/
def performAll (m : Machine) : List Operation → Outcome (List Reply)
  | [] => { result := [], machine := m }
  | operation :: rest =>
    let first := m.perform operation
    let others := first.machine.performAll rest
    { result := first.result :: others.result
      machine := others.machine
      log := first.log ++ others.log }

/-- A machine is reachable if operations lead to it from an initial machine. -/
def Reachable (m : Machine) : Prop :=
  ∃ random operations, ((initial random).performAll operations).machine = m

end Machine

end ChipEight
