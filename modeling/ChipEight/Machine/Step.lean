import ChipEight.Machine.Execute

namespace ChipEight

inductive Step
  | executed (instruction : Instruction)
  /-- It found no key press to end the wait for a key. -/
  | awaitingKey
  /-- It ended the wait for a key. -/
  | keyReceived (key : Key)
deriving DecidableEq, Repr

/-- Whether a run ends with a step of this result. -/
def Step.endsRun : Except Fault Step → Bool
  | .error _ => true
  | .ok awaitingKey => true
  | .ok _ => false

structure Progress where
  steps : Nat
  /-- The result of the last of them. -/
  last : Option (Except Fault Step)

namespace Machine

/-- Stops the machine for a fault, and reports it. -/
def halt (m : Machine) (fault : Fault) : Outcome (Except Fault Step) :=
  { result := .error fault, machine := { m with state := .halted }, log := [.stopped fault] }

/-- Executes the instruction at an address, with the program counter already behind it. -/
def execute (m : Machine) (address : UInt16) (i : Instruction) : Outcome (Except Fault Step) :=
  let effect := m.effect i
  let counted :=
    { effect.value.1 with anomalies := effect.value.1.anomalies + effect.rejected.length }
  let (after, fault) := counted.follow address effect.value.2
  let outcome : Outcome (Except Fault Step) :=
    match fault with
    | none => { result := .ok (.executed i), machine := after }
    | some fault => after.halt fault
  { outcome with
    log := effect.rejected.map (Event.rejected address) ++ i.remarks address ++ outcome.log }

/-- Ends the wait for a key if one was pressed, and puts its number into a register. -/
def pollKey (m : Machine) (register : UInt8) : Outcome (Except Fault Step) :=
  match m.keypad.takePress with
  | (_, none) => { result := .ok .awaitingKey, machine := m }
  | (keypad, some key) =>
    let memory := m.memory.putRegister register (UInt8.ofNat key.val)
    { result := .ok (.keyReceived key)
      machine :=
        { m with
          keypad := keypad
          memory := memory.value
          state := .running
          anomalies := m.anomalies + memory.rejected.length }
      log := .keyReceived key m.pc :: memory.rejected.map (Event.rejected (m.pc - 2)) }

/-- Executes one instruction, or asks for the key that the machine waits for. -/
def step (m : Machine) : Outcome (Except Fault Step) :=
  match m.state with
  | .halted => { result := .error .halted, machine := m }
  | .awaitingKey register => m.pollKey register
  | .running =>
    match m.memory.fetch m.pc with
    | .error pc => { m with pc := pc }.halt (.fetchOutOfBounds pc)
    | .ok (hi, lo) =>
      let i := Instruction.decode hi lo
      let outcome := { m with pc := m.pc + 2 }.execute m.pc i
      { outcome with log := .executing ⟨m.pc, i⟩ :: outcome.log }

/-- Goes on with a run that has come as far as `progress` and reported `log`, for at most `count`
more steps. -/
def runOn (progress : Progress) (log : Array Event) : Nat → Machine → Outcome Progress
  | 0, m => { result := progress, machine := m, log := log.toList }
  | count + 1, m =>
    let outcome := m.step
    let progress := { steps := progress.steps + 1, last := some outcome.result }
    let log := log ++ outcome.log
    if Step.endsRun outcome.result then
      { result := progress, machine := outcome.machine, log := log.toList }
    else
      runOn progress log count outcome.machine

/-- Takes at most `count` steps, and ends early with a step that ends runs. -/
def run (m : Machine) (count : Nat) : Outcome Progress :=
  runOn { steps := 0, last := none } #[] count m

/-- One frame: counts the timers down, and then runs for as many instructions as make a frame. -/
def cycle (m : Machine) : Outcome (Except Fault Unit) :=
  let outcome := m.tick.run m.config.opsPerCycle
  { result :=
      match outcome.result.last with
      | some (.error fault) => .error fault
      | _ => .ok ()
    machine := outcome.machine
    log := outcome.log }

end Machine

end ChipEight
