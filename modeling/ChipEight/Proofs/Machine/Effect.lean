import ChipEight.Machine.Step
import ChipEight.Proofs.Instruction.Fields
import ChipEight.Proofs.Memory.Blocks
import ChipEight.Proofs.Memory.RegisterAccess

namespace ChipEight

theorem Keypad.value_attempt_query (k : Keypad) (key : UInt8) :
    (Access.attempt false (k.query key)).value = k.isHeld key := by
  unfold isHeld
  cases k.query key <;> rfl

theorem Keypad.rejected_attempt_query (k : Keypad) (key : UInt8) :
    (Access.attempt false (k.query key)).rejected =
      if key.toNat < 16 then [] else [.noSuchKey key] := by
  unfold query Key.ofByte?
  by_cases h : key.toNat < 16
  · simp [h]
  · simp [h]

theorem Keypad.isHeld_of_le {k : Keypad} {key : UInt8} (h : 16 ≤ key.toNat) :
    k.isHeld key = false := by
  have hno : ¬ key.toNat < 16 := by omega
  simp [isHeld, query, Key.ofByte?, hno, Except.toOption]

theorem Transfer.skipIf_eq_skip {condition : Bool} :
    skipIf condition = skip ↔ condition = true := by
  cases condition <;> simp [skipIf]

theorem Transfer.skipIf_ne_ret {condition : Bool} : skipIf condition ≠ ret := by
  cases condition <;> simp [skipIf]

theorem Transfer.skipIf_ne_jump {condition : Bool} {target : UInt16} :
    skipIf condition ≠ jump target := by
  cases condition <;> simp [skipIf]

theorem Transfer.skipIf_ne_call {condition : Bool} {target : UInt16} :
    skipIf condition ≠ call target := by
  cases condition <;> simp [skipIf]

namespace Machine

/-- The value of a register as instructions read it. -/
def registerValue (m : Machine) (x : UInt8) : UInt8 :=
  (m.memory.fetchRegister x).value

/-- The register that BNNN adds to an address. -/
def jumpOffset (m : Machine) (address : UInt16) : UInt8 :=
  if m.config.dialect.jumpAddOffset then (address >>> 8).toUInt8 else 0

def control (m : Machine) : Instruction → Transfer
  | .ret => .ret
  | .jump address => .jump address
  | .call address => .call address
  | .jumpPlus address => .jump (address + (m.registerValue (m.jumpOffset address)).toUInt16)
  | .skipEqByte x byte => .skipIf (m.registerValue x = byte)
  | .skipNeByte x byte => .skipIf (m.registerValue x ≠ byte)
  | .skipEq x y => .skipIf (m.registerValue x = m.registerValue y)
  | .skipNe x y => .skipIf (m.registerValue x ≠ m.registerValue y)
  | .skipHeld x => .skipIf (m.keypad.isHeld (m.registerValue x))
  | .skipFree x => .skipIf !(m.keypad.isHeld (m.registerValue x))
  | _ => .next

theorem transfer_effect (m : Machine) (i : Instruction) : (m.effect i).value.2 = m.control i := by
  cases i with
  | skipHeld x => simp [effect, control, registerValue, Keypad.value_attempt_query]
  | skipFree x => simp [effect, control, registerValue, Keypad.value_attempt_query]
  | _ => rfl

section Frame

variable (m : Machine) (i : Instruction)

theorem value_effect_with (stack : CallStack) (pc : UInt16) (anomalies : Nat) :
    (({ m with stack := stack, pc := pc, anomalies := anomalies } : Machine).effect i).value =
      ({ (m.effect i).value.1 with stack := stack, pc := pc, anomalies := anomalies },
        (m.effect i).value.2) := by
  cases i <;> rfl

theorem rejected_effect_with (stack : CallStack) (pc : UInt16) (anomalies : Nat) :
    (({ m with stack := stack, pc := pc, anomalies := anomalies } : Machine).effect i).rejected =
      (m.effect i).rejected := by
  cases i <;> rfl

@[simp] theorem stack_effect : (m.effect i).value.1.stack = m.stack := by
  cases i <;> rfl

@[simp] theorem pc_effect : (m.effect i).value.1.pc = m.pc := by
  cases i <;> rfl

@[simp] theorem anomalies_effect : (m.effect i).value.1.anomalies = m.anomalies := by
  cases i <;> rfl

@[simp] theorem config_effect : (m.effect i).value.1.config = m.config := by
  cases i <;> rfl

@[simp] theorem held_effect : (m.effect i).value.1.keypad.held = m.keypad.held := by
  cases i <;> rfl

theorem state_effect :
    (m.effect i).value.1.state =
      match i with
      | .awaitKey x => .awaitingKey x
      | _ => m.state := by
  cases i <;> rfl

theorem delay_effect :
    (m.effect i).value.1.timers.delay =
      match i with
      | .setDelay x => (m.registerValue x).toNat
      | _ => m.timers.delay := by
  cases i <;> rfl

theorem sound_effect :
    (m.effect i).value.1.timers.sound =
      match i with
      | .setSound x => (m.registerValue x).toNat
      | _ => m.timers.sound := by
  cases i <;> rfl

theorem random_effect :
    (m.effect i).value.1.random =
      match i with
      | .random _ _ => m.random.draw.2
      | _ => m.random := by
  cases i <;> rfl

theorem display_effect :
    (m.effect i).value.1.display =
      match i with
      | .clear => m.display.clear
      | .draw x y rows =>
        (m.display.draw (m.registerValue x).toNat (m.registerValue y).toNat
          (m.memory.readBlock m.memory.i.toNat rows.toNat).value).1
      | _ => m.display := by
  cases i <;> rfl

theorem bytes_afterBlock (memory : Memory) (x : UInt8) :
    (m.afterBlock memory x).bytes = memory.bytes := by
  unfold afterBlock
  split
  · rfl
  · rfl

theorem register_afterBlock (memory : Memory) (x y : UInt8) :
    (m.afterBlock memory x).register y = memory.register y := by
  unfold afterBlock
  split
  · rfl
  · rfl

theorem bytes_effect :
    (m.effect i).value.1.memory.bytes =
      match i with
      | .decimal x =>
        (m.memory.writeBlock m.memory.i.toNat (decimalDigits (m.registerValue x))).value.bytes
      | .store x =>
        (m.memory.writeBlock m.memory.i.toNat
          (m.memory.fetchRegisters 0 (x.toNat + 1)).value).value.bytes
      | _ => m.memory.bytes := by
  cases i with
  | setByte | addByte | copy | or | and | xor | add | sub | subFrom | shiftRight | shiftLeft
  | readDelay | random | draw => simp [effect, withMemory]
  | store | load => simp [effect, withMemory, bytes_afterBlock]
  | _ => rfl

end Frame

section Registers

open Access Memory

variable {m : Machine}

theorem registerValue_of_lt {x : UInt8} (hx : x.toNat < 0x10) :
    m.registerValue x = m.memory.v.values[x.toNat] := by
  rw [registerValue, fetchRegister_of_lt hx, value_pure]

theorem register_of_lt {x : UInt8} (hx : x.toNat < 0x10) :
    m.memory.register x = .ok (m.registerValue x) := by
  rw [registerValue_of_lt hx]
  exact Registers.get_of_lt hx

theorem toNat_jumpOffset_lt {address : UInt16} (h : address.toNat < 0x1000) :
    (m.jumpOffset address).toNat < 0x10 := by
  unfold jumpOffset
  split
  · simp [UInt16.toNat_shiftRight, Nat.shiftRight_eq_div_pow]
    omega
  · decide

theorem toNat_shiftSource_lt {x y : UInt8} (hx : x.toNat < 0x10) (hy : y.toNat < 0x10) :
    (m.shiftSource x y).toNat < 0x10 := by
  unfold shiftSource
  split
  · exact hy
  · exact hx

/-- The addresses of the bytes that an instruction reads or writes, those outside of memory
included. -/
def touchedAddresses (m : Machine) : Instruction → List Nat
  | .draw _ _ rows => List.range' m.memory.i.toNat rows.toNat
  | .decimal _ => List.range' m.memory.i.toNat 3
  | .store x | .load x => List.range' m.memory.i.toNat (x.toNat + 1)
  | _ => []

/-- The numbers of the keys that an instruction asks for, those that belong to no key included. -/
def askedKeys (m : Machine) : Instruction → List UInt8
  | .skipHeld x | .skipFree x => [m.registerValue x]
  | _ => []

/-- The errors that an instruction meets: one for each address outside of memory, and one for a key
that does not exist. -/
def rejections (m : Machine) (i : Instruction) : List AccessError :=
  ((m.touchedAddresses i).filter (0x1000 ≤ ·)).map .noSuchAddress ++
    ((m.askedKeys i).filter (0x10 ≤ ·.toNat)).map .noSuchKey

theorem rejected_query (x : UInt8) :
    (attempt false (m.keypad.query (m.registerValue x))).rejected =
      ([m.registerValue x].filter (0x10 ≤ ·.toNat)).map .noSuchKey := by
  rw [Keypad.rejected_attempt_query]
  by_cases h : (m.registerValue x).toNat < 16
  · simp [h]
  · simp [h, Nat.le_of_not_lt h]

theorem rejected_effect {i : Instruction} (h : i.Fits) : (m.effect i).rejected = m.rejections i := by
  cases i with
  | clear | ret | jump | call | setIndex | awaitKey | unknown => rfl
  | skipEqByte x _ | skipNeByte x _ | setDelay x | setSound x | addIndex x | glyph x =>
      simp [effect, fetchRegister_of_lt h, rejections, touchedAddresses, askedKeys]
  | skipEq x y | skipNe x y =>
      simp [effect, fetchRegister_of_lt h.1, fetchRegister_of_lt h.2, rejections, touchedAddresses,
        askedKeys]
  | setByte x _ | readDelay x | addByte x _ | random x _ =>
      simp [effect, fetchRegister_of_lt h, putRegister_of_lt h, rejections, touchedAddresses,
        askedKeys]
  | copy x y =>
      simp [effect, fetchRegister_of_lt h.2, putRegister_of_lt h.1, rejections, touchedAddresses,
        askedKeys]
  | or x y | and x y | xor x y =>
      simp [effect, rejected_combine h.1 h.2, rejections, touchedAddresses, askedKeys]
  | add x y | sub x y | subFrom x y =>
      simp [effect, rejected_combineFlagged h.1 h.2, rejections, touchedAddresses, askedKeys]
  | shiftRight x y | shiftLeft x y =>
      simp [effect, rejected_shift h.1 (toNat_shiftSource_lt h.1 h.2), rejections,
        touchedAddresses, askedKeys]
  | jumpPlus address =>
      show (m.memory.fetchRegister (m.jumpOffset address)).rejected ++ [] = []
      rw [fetchRegister_of_lt (toNat_jumpOffset_lt h)]
      rfl
  | draw x y rows =>
      have hflag : flagRegister.toNat < 0x10 := by decide
      simp [effect, fetchRegister_of_lt h.1, fetchRegister_of_lt h.2.1, putRegister_of_lt hflag,
        rejected_readBlock, outside, rejections, touchedAddresses, askedKeys]
  | skipHeld x | skipFree x =>
      show (m.memory.fetchRegister x).rejected ++
        ((attempt false (m.keypad.query (m.registerValue x))).rejected ++ []) = _
      rw [fetchRegister_of_lt h, rejected_query, List.append_nil]
      rfl
  | decimal x =>
      simp [effect, fetchRegister_of_lt h, rejected_writeBlock, decimalDigits, outside, rejections,
        touchedAddresses, askedKeys]
  | store x =>
      have hcount : (0 : UInt8).toNat + (x.toNat + 1) ≤ 0x10 := by
        rw [UInt8.toNat_zero, Nat.zero_add]
        exact h
      simp [effect, rejected_fetchRegisters hcount, rejected_writeBlock, outside, rejections,
        touchedAddresses, askedKeys]
  | load x =>
      have hcount : (0 : UInt8).toNat +
          (m.memory.readBlock m.memory.i.toNat (x.toNat + 1)).value.length ≤ 0x10 := by
        rw [length_readBlock, UInt8.toNat_zero, Nat.zero_add]
        exact h
      simp [effect, rejected_putRegisters hcount, rejected_readBlock, outside, rejections,
        touchedAddresses, askedKeys]

theorem sparesRegisters_effect {i : Instruction} (h : i.Fits) :
    (m.effect i).SparesRegisters := by
  intro x
  rw [rejected_effect h]
  simp [rejections]

theorem value_effect_of_control {i : Instruction} (h : m.control i ≠ .next) :
    (m.effect i).value.1 = m := by
  cases i with
  | ret | jump | call | jumpPlus | skipEqByte | skipNeByte | skipEq | skipNe | skipHeld
  | skipFree => rfl
  | _ => exact absurd rfl h

/-- Of the instructions that transfer control elsewhere, only EXA1 meets rejected accesses: where
EX9E asks for a key that does not exist, control goes on to the next instruction. -/
theorem rejections_of_control {i : Instruction} (h : m.control i ≠ .next)
    (hfree : ∀ x, i = .skipFree x → (m.registerValue x).toNat < 0x10) :
    m.rejections i = [] := by
  cases i with
  | ret | jump | call | skipEqByte | skipNeByte | skipEq | skipNe | jumpPlus => rfl
  | skipHeld x =>
      have hkey : (m.registerValue x).toNat < 0x10 := by
        refine Nat.lt_of_not_le fun hlarge => h ?_
        rw [control, Keypad.isHeld_of_le hlarge]
        rfl
      simp [rejections, touchedAddresses, askedKeys, hkey]
  | skipFree x =>
      have hkey := hfree x rfl
      simp [rejections, touchedAddresses, askedKeys, hkey]
  | _ => exact absurd rfl h

theorem rejections_skipFree {x : UInt8} (hkey : 0xF < (m.registerValue x).toNat) :
    m.rejections (.skipFree x) = [.noSuchKey (m.registerValue x)] := by
  have hmissing : 0x10 ≤ (m.registerValue x).toNat := hkey
  simp [rejections, touchedAddresses, askedKeys, hmissing]

end Registers

end Machine

end ChipEight
