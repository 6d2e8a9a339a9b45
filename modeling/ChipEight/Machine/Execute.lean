import ChipEight.Machine.Basic
/-!
The execution of an instruction.

An instruction has an effect on the data of the machine and then transfers control. The effect goes on
past rejected accesses; only the transfer of control can fault.
-/

namespace ChipEight

/-- Where control goes after an instruction. -/
inductive Transfer
  | next
  /-- Past the next instruction. -/
  | skip
  | jump (address : UInt16)
  /-- To a subroutine, with a return address on the call stack. -/
  | call (address : UInt16)
  /-- To the return address on top of the call stack. -/
  | ret
deriving DecidableEq, Repr

/-- A skip that depends on a condition. -/
def Transfer.skipIf (condition : Bool) : Transfer :=
  if condition then skip else next

namespace Memory

/-- Fetches the two bytes at a program counter; the error is the program counter at the byte that is
not there. -/
def fetch (m : Memory) (pc : UInt16) : Except UInt16 (UInt8 × UInt8) :=
  match m.read pc.toNat with
  | .error _ => .error pc
  | .ok hi =>
    match m.read (pc + 1).toNat with
    | .error _ => .error (pc + 1)
    | .ok lo => .ok (hi, lo)

def combine (m : Memory) (x y : UInt8) (f : UInt8 → UInt8 → UInt8) : Access Memory := do
  let vx ← m.fetchRegister x
  let vy ← m.fetchRegister y
  m.putRegister x (f vx vy)

/-- Puts the combination of VX and VY into VX and its flag into VF. -/
def combineFlagged (m : Memory) (x y : UInt8) (f : UInt8 → UInt8 → UInt8 × Bool) :
    Access Memory := do
  let vx ← m.fetchRegister x
  let vy ← m.fetchRegister y
  m.putFlagged x (f vx vy).1 (f vx vy).2

/-- Shifts the register `source` into VX, with the bit that falls out in VF. -/
def shift (m : Memory) (x source : UInt8) (f : UInt8 → UInt8 × Bool) : Access Memory := do
  let v ← m.fetchRegister source
  m.putFlagged x (f v).1 (f v).2

/-- Moves the index register behind the bytes of V0 to VX. -/
def passBlock (m : Memory) (x : UInt8) : Memory :=
  { m with i := m.i + (x.toUInt16 + 1) }

end Memory

/-- The sum and its carry. -/
def addWithCarry (a b : UInt8) : UInt8 × Bool :=
  (a + b, 256 ≤ a.toNat + b.toNat)

/-- The difference held at zero, and whether it is above zero. -/
def subtract (a b : UInt8) : UInt8 × Bool :=
  (UInt8.ofNat (a.toNat - b.toNat), b < a)

/-- The three decimal digits of a byte. -/
def decimalDigits (b : UInt8) : List UInt8 :=
  [b / 100, b / 10 % 10, b % 10]

namespace Machine

/-- Goes on with the next instruction and the given memory. -/
def withMemory (m : Machine) (memory : Memory) : Machine × Transfer :=
  ({ m with memory := memory }, .next)

def shiftSource (m : Machine) (x y : UInt8) : UInt8 :=
  if m.config.dialect.legacyShift then y else x

/-- The memory after a transfer between registers and memory, whose index register the dialect may
move on. -/
def afterBlock (m : Machine) (memory : Memory) (x : UInt8) : Memory :=
  if m.config.dialect.memoryIncrementI then memory.passBlock x else memory

/-- The effect of an instruction on the data of the machine, and where control goes then. -/
def effect (m : Machine) : Instruction → Access (Machine × Transfer)
  | .clear => pure ({ m with display := m.display.clear }, .next)
  | .ret => pure (m, .ret)
  | .jump address => pure (m, .jump address)
  | .call address => pure (m, .call address)
  | .skipEqByte x byte => do
    let vx ← m.memory.fetchRegister x
    pure (m, .skipIf (vx = byte))
  | .skipNeByte x byte => do
    let vx ← m.memory.fetchRegister x
    pure (m, .skipIf (vx ≠ byte))
  | .skipEq x y => do
    let vx ← m.memory.fetchRegister x
    let vy ← m.memory.fetchRegister y
    pure (m, .skipIf (vx = vy))
  | .setByte x byte => m.withMemory <$> m.memory.putRegister x byte
  | .addByte x byte => do
    let vx ← m.memory.fetchRegister x
    m.withMemory <$> m.memory.putRegister x (vx + byte)
  | .copy x y => do
    let vy ← m.memory.fetchRegister y
    m.withMemory <$> m.memory.putRegister x vy
  | .or x y => m.withMemory <$> m.memory.combine x y (· ||| ·)
  | .and x y => m.withMemory <$> m.memory.combine x y (· &&& ·)
  | .xor x y => m.withMemory <$> m.memory.combine x y (· ^^^ ·)
  | .add x y => m.withMemory <$> m.memory.combineFlagged x y addWithCarry
  | .sub x y => m.withMemory <$> m.memory.combineFlagged x y subtract
  | .subFrom x y => m.withMemory <$> m.memory.combineFlagged x y fun vx vy => subtract vy vx
  | .shiftRight x y =>
    m.withMemory <$> m.memory.shift x (m.shiftSource x y) fun v => (v >>> 1, v &&& 1 = 1)
  | .shiftLeft x y =>
    m.withMemory <$> m.memory.shift x (m.shiftSource x y) fun v => (v <<< 1, v >>> 7 = 1)
  | .skipNe x y => do
    let vx ← m.memory.fetchRegister x
    let vy ← m.memory.fetchRegister y
    pure (m, .skipIf (vx ≠ vy))
  | .setIndex address => pure (m.withMemory { m.memory with i := address })
  | .jumpPlus address => do
    let x := if m.config.dialect.jumpAddOffset then (address >>> 8).toUInt8 else 0
    let v ← m.memory.fetchRegister x
    pure (m, .jump (address + v.toUInt16))
  | .random x mask => do
    let (word, random) := m.random.draw
    let memory ← m.memory.putRegister x (word.toUInt8 &&& mask)
    pure ({ m with memory := memory, random := random }, .next)
  | .draw x y rows => do
    let vx ← m.memory.fetchRegister x
    let vy ← m.memory.fetchRegister y
    let sprite ← m.memory.readBlock m.memory.i.toNat rows.toNat
    let (display, collision) := m.display.draw vx.toNat vy.toNat sprite
    let memory ← m.memory.putRegister flagRegister collision.toUInt8
    pure ({ m with memory := memory, display := display }, .next)
  | .skipHeld x => do
    let vx ← m.memory.fetchRegister x
    let held ← .attempt false (m.keypad.query vx)
    pure (m, .skipIf held)
  | .skipFree x => do
    let vx ← m.memory.fetchRegister x
    let held ← .attempt false (m.keypad.query vx)
    pure (m, .skipIf !held)
  | .readDelay x => m.withMemory <$> m.memory.putRegister x (UInt8.ofNat m.timers.delay)
  | .awaitKey x =>
    pure ({ m with keypad := m.keypad.takePress.1, state := .awaitingKey x }, .next)
  | .setDelay x => do
    let vx ← m.memory.fetchRegister x
    pure ({ m with timers := { m.timers with delay := vx.toNat } }, .next)
  | .setSound x => do
    let vx ← m.memory.fetchRegister x
    pure ({ m with timers := { m.timers with sound := vx.toNat } }, .next)
  | .addIndex x => do
    let vx ← m.memory.fetchRegister x
    pure (m.withMemory { m.memory with i := m.memory.i + vx.toUInt16 })
  | .glyph x => do
    let vx ← m.memory.fetchRegister x
    pure (m.withMemory { m.memory with i := Font.address vx })
  | .decimal x => do
    let vx ← m.memory.fetchRegister x
    m.withMemory <$> m.memory.writeBlock m.memory.i.toNat (decimalDigits vx)
  | .store x => do
    let values ← m.memory.fetchRegisters 0 (x.toNat + 1)
    let memory ← m.memory.writeBlock m.memory.i.toNat values
    pure (m.withMemory (m.afterBlock memory x))
  | .load x => do
    let values ← m.memory.readBlock m.memory.i.toNat (x.toNat + 1)
    let memory ← m.memory.putRegisters 0 values
    pure (m.withMemory (m.afterBlock memory x))
  | .unknown _ => pure (m, .next)

/-- Follows a transfer from the instruction at an address, with the program counter already behind
it. If that faults, only the program counter may have moved. -/
def follow (m : Machine) (address : UInt16) : Transfer → Machine × Option Fault
  | .next => (m, none)
  | .skip =>
    match m.memory.fetch m.pc with
    | .ok _ => ({ m with pc := m.pc + 2 }, none)
    | .error pc => ({ m with pc := pc }, some (.fetchOutOfBounds pc))
  | .jump target => ({ m with pc := target }, none)
  | .call target =>
    match m.stack.push? m.pc with
    | some stack => ({ m with stack := stack, pc := target }, none)
    | none => (m, some (.stackOverflow address))
  | .ret =>
    match m.stack.pop? with
    | some (target, stack) => ({ m with stack := stack, pc := target }, none)
    | none => (m, some (.stackUnderflow address))

end Machine

/-- What the instruction at an address reports besides rejected accesses. -/
def Instruction.remarks (address : UInt16) : Instruction → List Event
  | awaitKey x => [.awaitingKey address x]
  | unknown word => [.unknownOpcode address word]
  | _ => []

end ChipEight
