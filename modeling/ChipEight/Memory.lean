import ChipEight.Font
import ChipEight.Registers
/-!
The memory of a machine: 4096 bytes, the register file and the index register.

Single accesses are checked against the bounds. A slice is written as a whole or not at all. A block
is read or written as far as it lies in memory: each byte outside is rejected on its own, a rejected
read giving zero.

`getElem_overlay` says what each byte is after `data` was laid over memory.
-/

namespace ChipEight

/-- Where programs are loaded and start. -/
def romStart : UInt16 := 0x200

structure Memory where
  bytes : Vector UInt8 4096 := .replicate 4096 0
  v : Registers := {}
  i : UInt16 := 0
deriving DecidableEq

namespace Memory

def read (m : Memory) (address : Nat) : Except AccessError UInt8 :=
  if h : address < 4096 then .ok m.bytes[address] else .error (.noSuchAddress address)

def write (m : Memory) (address : Nat) (byte : UInt8) : Except AccessError Memory :=
  if h : address < 4096 then .ok { m with bytes := m.bytes.set address byte }
  else .error (.noSuchAddress address)

/-- The bytes with `data` laid over them from the address `start` on. -/
def overlay (bytes : Vector UInt8 4096) (start : Nat) :
    (data : List UInt8) → start + data.length ≤ 4096 → Vector UInt8 4096
  | [], _ => bytes
  | byte :: rest, h =>
    have hrest : start + 1 + rest.length ≤ 4096 := by
      rw [List.length_cons] at h
      omega
    overlay (bytes.set start byte (by omega)) (start + 1) rest hrest

theorem getElem_overlay {bytes : Vector UInt8 4096} {start : Nat} {data : List UInt8}
    {h : start + data.length ≤ 4096} {a : Nat} (ha : a < 4096) :
    (overlay bytes start data h)[a] =
      if hd : start ≤ a ∧ a < start + data.length then data[a - start] else bytes[a] := by
  induction data generalizing bytes start with
  | nil =>
      rw [overlay, dif_neg (by simp)]
  | cons byte rest ih =>
      rw [overlay, ih]
      by_cases hstart : a = start
      · subst hstart
        rw [dif_neg (by omega), dif_pos (by simp)]
        simp
      · rw [Vector.getElem_set_ne _ _ (Ne.symm hstart)]
        by_cases hd : start + 1 ≤ a ∧ a < start + 1 + rest.length
        · rw [dif_pos hd, dif_pos (by rw [List.length_cons]; omega)]
          rw [List.getElem_cons, dif_neg (by omega)]
          congr 1
        · rw [dif_neg hd, dif_neg (by rw [List.length_cons]; omega)]

/-- Writes all of `data` from the address `start` on, or nothing. The error names the first byte if
that is outside, and otherwise the last one. -/
def writeSlice (m : Memory) (start : Nat) (data : List UInt8) : Except AccessError Memory :=
  if start < 4096 then
    if h : start + data.length ≤ 4096 then
      .ok { m with bytes := overlay m.bytes start data h }
    else
      .error (.noSuchAddress (start + data.length - 1))
  else
    .error (.noSuchAddress start)

/-- Lays the font over the bottom of memory. -/
def loadFont (m : Memory) : Memory :=
  { m with bytes := overlay m.bytes Font.start Font.rows (by decide) }

def romCapacity : Nat := 4096 - romStart.toNat

/-- Writes a program image at the load address, or rejects one that would not fit. -/
def loadRom (m : Memory) (rom : List UInt8) : Except AccessError Memory :=
  if h : rom.length ≤ romCapacity then
    .ok { m with bytes := overlay m.bytes romStart.toNat rom (by
      simp only [romCapacity, romStart] at *
      simp only [UInt16.reduceToNat] at *
      omega) }
  else
    .error (.programTooLarge rom.length romCapacity)

def register (m : Memory) (x : UInt8) : Except AccessError UInt8 :=
  m.v.get x

def setRegister (m : Memory) (x value : UInt8) : Except AccessError Memory :=
  (m.v.set x value).map fun v => { m with v := v }

/-- The value of a register, or zero. -/
def fetchRegister (m : Memory) (x : UInt8) : Access UInt8 :=
  .attempt 0 (m.register x)

/-- Memory after a register was written, if there is such a register. -/
def putRegister (m : Memory) (x value : UInt8) : Access Memory :=
  .attempt m (m.setRegister x value)

/-- Memory after a result went to VX and then a flag to VF: in that order, so that the flag is what
VF holds at the end even if X is F. -/
def putFlagged (m : Memory) (x value : UInt8) (flag : Bool) : Access Memory := do
  let m ← m.putRegister x value
  m.putRegister flagRegister flag.toUInt8

/-- The `count` bytes from an address on, with zeros for those outside. -/
def readBlock (m : Memory) (address : Nat) : Nat → Access (List UInt8)
  | 0 => pure []
  | count + 1 => do
    let byte ← .attempt 0 (m.read address)
    let rest ← m.readBlock (address + 1) count
    pure (byte :: rest)

/-- Memory after the bytes of a block were written, as far as they lie in memory. -/
def writeBlock (m : Memory) (address : Nat) : List UInt8 → Access Memory
  | [] => pure m
  | byte :: rest => do
    let m ← .attempt m (m.write address byte)
    m.writeBlock (address + 1) rest

/-- The values of `count` registers from VX on. -/
def fetchRegisters (m : Memory) (x : UInt8) : Nat → Access (List UInt8)
  | 0 => pure []
  | count + 1 => do
    let value ← m.fetchRegister x
    let rest ← m.fetchRegisters (x + 1) count
    pure (value :: rest)

/-- Memory after registers from VX on were set to the given values. -/
def putRegisters (m : Memory) (x : UInt8) : List UInt8 → Access Memory
  | [] => pure m
  | value :: rest => do
    let m ← m.putRegister x value
    m.putRegisters (x + 1) rest

end Memory

end ChipEight
