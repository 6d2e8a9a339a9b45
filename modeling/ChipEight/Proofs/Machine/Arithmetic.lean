import ChipEight.Machine.Operation
import ChipEight.Proofs.Machine.StepRules
import ChipEight.Proofs.Memory.Contents

namespace ChipEight

theorem toNat_decide (p : Prop) [Decidable p] : (decide p).toNat = if p then 1 else 0 :=
  apply_ite Bool.toNat p true false

theorem toNat_toUInt8 (b : Bool) : b.toUInt8.toNat = b.toNat := by
  cases b with
  | false => rfl
  | true => rfl

section Bytes

variable (a b : UInt8)

theorem toNat_sum_addWithCarry : (addWithCarry a b).1.toNat = (a.toNat + b.toNat) % 0x100 :=
  UInt8.toNat_add a b

theorem toNat_carry_addWithCarry :
    (addWithCarry a b).2.toNat = if 0x100 ≤ a.toNat + b.toNat then 1 else 0 :=
  toNat_decide _

theorem toNat_difference_subtract : (subtract a b).1.toNat = a.toNat - b.toNat :=
  UInt8.toNat_ofNat_of_lt' (Nat.lt_of_le_of_lt (Nat.sub_le _ _) a.toNat_lt)

theorem toNat_flag_subtract :
    (subtract a b).2.toNat = if b.toNat < a.toNat then 1 else 0 :=
  toNat_decide (b < a)

theorem toNat_halved : (a >>> 1).toNat = a.toNat / 2 := by
  rw [UInt8.toNat_shiftRight]
  exact Nat.shiftRight_eq_div_pow a.toNat 1

theorem toNat_halved_bit : (decide (a &&& 1 = 1)).toNat = a.toNat % 2 := by
  have hbit : a &&& 1 = 1 ↔ a.toNat % 2 = 1 := by
    rw [← UInt8.toNat_inj, UInt8.toNat_and, ← Nat.and_one_is_mod]
    rfl
  simp only [hbit, toNat_decide]
  split <;> omega

theorem toNat_doubled : (a <<< 1).toNat = 2 * a.toNat % 0x100 := by
  rw [UInt8.toNat_shiftLeft, Nat.mul_comm]
  exact congrArg (· % 0x100) (Nat.shiftLeft_eq a.toNat 1)

theorem toNat_doubled_bit : (decide (a >>> 7 = 1)).toNat = a.toNat / 0x80 := by
  have ha := a.toNat_lt
  have hbit : a >>> 7 = 1 ↔ a.toNat / 0x80 = 1 := by
    rw [← UInt8.toNat_inj, UInt8.toNat_shiftRight, ← Nat.shiftRight_eq_div_pow a.toNat 7]
    rfl
  simp only [hbit, toNat_decide]
  split <;> omega

end Bytes

/-- What an arithmetic instruction computes: a number for VX, and one for the flag if it sets it. -/
structure Computed where
  x : UInt8
  result : Nat
  flag? : Option Nat
deriving DecidableEq, Repr

namespace Machine

def number (m : Machine) (x : UInt8) : Nat :=
  (m.registerValue x).toNat

/-- What an instruction computes from the registers before it, if it is an arithmetic one. -/
def computes? (m : Machine) : Instruction → Option Computed
  | .setByte x byte => some ⟨x, byte.toNat, none⟩
  | .addByte x byte => some ⟨x, (m.number x + byte.toNat) % 0x100, none⟩
  | .copy x y => some ⟨x, m.number y, none⟩
  | .or x y => some ⟨x, m.number x ||| m.number y, none⟩
  | .and x y => some ⟨x, m.number x &&& m.number y, none⟩
  | .xor x y => some ⟨x, m.number x ^^^ m.number y, none⟩
  | .add x y =>
    some ⟨x, (m.number x + m.number y) % 0x100,
      some (if 0x100 ≤ m.number x + m.number y then 1 else 0)⟩
  | .sub x y =>
    some ⟨x, m.number x - m.number y, some (if m.number y < m.number x then 1 else 0)⟩
  | .subFrom x y =>
    some ⟨x, m.number y - m.number x, some (if m.number x < m.number y then 1 else 0)⟩
  | .shiftRight x y =>
    let shifted := m.number (if m.config.dialect.legacyShift then y else x)
    some ⟨x, shifted / 2, some (shifted % 2)⟩
  | .shiftLeft x y =>
    let shifted := m.number (if m.config.dialect.legacyShift then y else x)
    some ⟨x, 2 * shifted % 0x100, some (shifted / 0x80)⟩
  | _ => none

/-- The instruction writes what was computed: the result, and behind it the flag if it sets it. -/
inductive Writes (m : Machine) (i : Instruction) : Computed → Prop
  | result {x value : UInt8} {result : Nat} (hresult : value.toNat = result)
      (heffect : (m.effect i).value.1 = { m with memory := (m.memory.putRegister x value).value }) :
      Writes m i ⟨x, result, none⟩
  | flagged {x value : UInt8} {flag : Bool} {result number : Nat} (hresult : value.toNat = result)
      (hflag : flag.toNat = number)
      (heffect : (m.effect i).value.1 =
        { m with memory := (m.memory.putFlagged x value flag).value }) :
      Writes m i ⟨x, result, some number⟩

section Writes

variable {m : Machine} {i : Instruction} {c : Computed}

theorem writes_of_computes (h : m.computes? i = some c) : m.Writes i c := by
  cases i with
  | setByte x byte =>
      cases h
      exact .result rfl rfl
  | addByte x byte =>
      cases h
      exact .result (UInt8.toNat_add _ _) rfl
  | copy x y =>
      cases h
      exact .result rfl rfl
  | or x y =>
      cases h
      exact .result (UInt8.toNat_or _ _) rfl
  | and x y =>
      cases h
      exact .result (UInt8.toNat_and _ _) rfl
  | xor x y =>
      cases h
      exact .result (UInt8.toNat_xor _ _) rfl
  | add x y =>
      cases h
      exact .flagged (toNat_sum_addWithCarry _ _) (toNat_carry_addWithCarry _ _) rfl
  | sub x y | subFrom x y =>
      cases h
      exact .flagged (toNat_difference_subtract _ _) (toNat_flag_subtract _ _) rfl
  | shiftRight x y =>
      cases h
      exact .flagged (toNat_halved _) (toNat_halved_bit _) rfl
  | shiftLeft x y =>
      cases h
      exact .flagged (toNat_doubled _) (toNat_doubled_bit _) rfl
  | _ => cases h

/-- An arithmetic instruction goes on to the next one, has no access rejected, and computes for one of
the sixteen registers. -/
theorem plain_of_computes (hc : m.computes? i = some c) :
    m.control i = .next ∧ m.rejections i = [] ∧ (i.Fits → c.x.toNat < 0x10) := by
  cases i with
  | setByte | addByte =>
      cases hc
      exact ⟨rfl, rfl, id⟩
  | copy | or | and | xor | add | sub | subFrom | shiftRight | shiftLeft =>
      cases hc
      exact ⟨rfl, rfl, And.left⟩
  | _ => cases hc

theorem number_of_register {x value : UInt8} (h : m.memory.register x = .ok value) :
    m.number x = value.toNat := by
  rw [number, registerValue, Memory.fetchRegister, h]
  rfl

theorem Writes.registers_effect (h : m.Writes i c) (hx : c.x.toNat < 0x10) :
    let written := (m.effect i).value.1
    (∀ flag, c.flag? = some flag → written.number 0xF = flag) ∧
      (c.x ≠ 0xF ∨ c.flag? = none → written.number c.x = c.result) ∧
      ∀ y, y ≠ c.x → y ≠ 0xF ∨ c.flag? = none →
        written.memory.register y = m.memory.register y := by
  intro written
  cases h with
  | @result x value _ hresult heffect =>
      have hregister : ∀ y, written.memory.register y =
          if y = x then .ok value else m.memory.register y := by
        intro y
        show (m.effect i).value.1.memory.register y = _
        rw [heffect]
        exact Memory.register_putRegister hx value
      refine ⟨by rintro flag ⟨⟩, ?_, ?_⟩
      · intro _
        rw [← hresult]
        exact number_of_register ((hregister x).trans (if_pos rfl))
      · intro y hy _
        rw [hregister, if_neg hy]
  | @flagged x value flag _ number hresult hflag heffect =>
      have hregister : ∀ y, written.memory.register y =
          if y = 0xF then .ok flag.toUInt8
          else if y = x then .ok value else m.memory.register y := by
        intro y
        show (m.effect i).value.1.memory.register y = _
        rw [heffect]
        exact Memory.register_putFlagged hx value flag
      refine ⟨?_, ?_, ?_⟩
      · rintro _ ⟨⟩
        rw [← hflag, ← toNat_toUInt8]
        exact number_of_register ((hregister 0xF).trans (if_pos rfl))
      · rintro (hne | hnone)
        · rw [← hresult]
          apply number_of_register
          rw [hregister, if_neg hne, if_pos rfl]
        · cases hnone
      · rintro y hy (hne | hnone)
        · rw [hregister, if_neg hne, if_neg hy]
        · cases hnone

theorem Writes.effect_eq (h : m.Writes i c) :
    (m.effect i).value.1 =
      { m with memory := { m.memory with v := (m.effect i).value.1.memory.v } } := by
  cases h with
  | result _ heffect =>
      rw [heffect]
      exact congrArg (fun memory => { m with memory := memory }) (Memory.eq_with_registers
        (Memory.bytes_putRegister _ _ _) (Memory.i_putRegister _ _ _))
  | flagged _ _ heffect =>
      rw [heffect]
      exact congrArg (fun memory => { m with memory := memory }) (Memory.eq_with_registers
        (Memory.bytes_putFlagged _ _ _ _) (Memory.i_putFlagged _ _ _ _))

theorem arithmetic_writes_result_then_flag (h : m.Fetches i) (hc : m.computes? i = some c) :
    let after := m.step.machine
    m.step.result = .ok (.executed i) ∧
      (∀ flag, c.flag? = some flag → after.number 0xF = flag) ∧
      (c.x ≠ 0xF ∨ c.flag? = none → after.number c.x = c.result) ∧
      (∀ y, y ≠ c.x → y ≠ 0xF ∨ c.flag? = none →
        after.memory.register y = m.memory.register y) ∧
      after = { m with memory := { m.memory with v := after.memory.v }, pc := m.pc + 2 } := by
  intro after
  obtain ⟨hnext, hrejections, hfits⟩ := plain_of_computes hc
  have hwrites := writes_of_computes hc
  have hafter : after = { (m.effect i).value.1 with pc := m.pc + 2 } := by
    show m.step.machine = _
    rw [h.machine_of_next hnext, acted, rejected_effect h.fits, hrejections, ← m.anomalies_effect i]
    rfl
  obtain ⟨hflag, hresult, hothers⟩ := hwrites.registers_effect (hfits h.fits)
  rw [hafter]
  refine ⟨h.executed_of_next hnext, hflag, hresult, hothers, ?_⟩
  exact congrArg (fun n : Machine => { n with pc := m.pc + 2 }) hwrites.effect_eq

theorem arithmetic_writes_result_then_flag_over_operand :
    let m := ((initial (.ofSeed 0)).performAll [.load [0x6F, 0xFF, 0x8F, 0xF4], .step]).machine
    m.Fetches (.add 0xF 0xF) ∧ m.computes? (.add 0xF 0xF) = some ⟨0xF, 0xFE, some 1⟩ ∧
      m.step.machine.number 0xF = 1 := by
  intro m
  have hfetches : m.Fetches (.add 0xF 0xF) := fetched?_eq_some_iff.mp (by decide +kernel)
  have hcomputes : m.computes? (.add 0xF 0xF) = some ⟨0xF, 0xFE, some 1⟩ := by decide +kernel
  obtain ⟨-, hflag, -⟩ := arithmetic_writes_result_then_flag hfetches hcomputes
  exact ⟨hfetches, hcomputes, hflag 1 rfl⟩

end Writes

end Machine

end ChipEight
