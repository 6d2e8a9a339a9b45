import ChipEight.Machine.Operation
import ChipEight.Proofs.Machine.StepRules

namespace ChipEight

/-- The instruction word at an address, if both of its bytes are in memory. -/
def Memory.wordAt? (m : Memory) (address : Nat) : Option Nat :=
  if h : address + 1 < 0x1000 then
    some (0x100 * m.bytes[address].toNat + m.bytes[address + 1].toNat)
  else
    none

namespace Machine

/-- The instruction word stands for a skip whose condition is true. -/
def SkipsOn (m : Machine) (word : Nat) : Prop :=
  let vx := m.registerValue (UInt8.ofNat (word / 0x100 % 0x10))
  let vy := m.registerValue (UInt8.ofNat (word / 0x10 % 0x10))
  word / 0x1000 = 0x3 ∧ vx.toNat = word % 0x100 ∨
    word / 0x1000 = 0x4 ∧ vx.toNat ≠ word % 0x100 ∨
    word / 0x1000 = 0x5 ∧ vx = vy ∨
    word / 0x1000 = 0x9 ∧ vx ≠ vy ∨
    word / 0x1000 = 0xE ∧ word % 0x100 = 0x9E ∧ m.keypad.isHeld vx ∨
    word / 0x1000 = 0xE ∧ word % 0x100 = 0xA1 ∧ ¬ m.keypad.isHeld vx

inductive Faulty (m : Machine) : Fault → Prop
  | fetch (hpc : 0xFFF ≤ m.pc.toNat) :
      Faulty m (.fetchOutOfBounds (UInt16.ofNat (max m.pc.toNat 0x1000)))
  | underflow (hword : m.memory.wordAt? m.pc.toNat = some 0x00EE) (hdepth : m.stack.depth = 0) :
      Faulty m (.stackUnderflow m.pc)
  | overflow {word : Nat} (hword : m.memory.wordAt? m.pc.toNat = some word)
      (hcall : word / 0x1000 = 2) (hdepth : m.stack.depth = 16) :
      Faulty m (.stackOverflow m.pc)
  | skip {word : Nat} (hword : m.memory.wordAt? m.pc.toNat = some word)
      (hskips : m.SkipsOn word) (hlast : m.pc = 0xFFD ∨ m.pc = 0xFFE) :
      Faulty m (.fetchOutOfBounds 0x1000)

section Control

open Instruction

variable (m : Machine)

theorem control_ofRegisters? (x y : UInt8) (n : Nat) (word : UInt16) :
    m.control ((ofRegisters? x y n).getD (unknown word)) = .next := by
  unfold ofRegisters?
  split <;> rfl

theorem control_ofRegister? (x : UInt8) (low : Nat) (word : UInt16) :
    m.control ((ofRegister? x low).getD (unknown word)) = .next := by
  unfold ofRegister?
  split <;> rfl

theorem control_ofWord? (number : Nat) (word : UInt16) :
    m.control ((ofWord? number).getD (unknown word)) = if number = 0x00EE then .ret else .next := by
  unfold ofWord?
  split
  · rfl
  · rfl
  · next hret => rw [if_neg hret]; rfl

theorem control_ofKey? (x : UInt8) (low : Nat) (word : UInt16) :
    m.control ((ofKey? x low).getD (unknown word)) =
      .skipIf (low = 0x9E ∧ m.keypad.isHeld (m.registerValue x) ∨
        low = 0xA1 ∧ ¬ m.keypad.isHeld (m.registerValue x)) := by
  unfold ofKey?
  split
  · simp [control]
  · simp [control]
  · next hheld hfree =>
      have hneither : low ≠ 0x9E ∧ low ≠ 0xA1 := ⟨hheld, hfree⟩
      simp [control, hneither, Transfer.skipIf]

theorem highNibble_word (hi lo : UInt8) :
    (0x100 * hi.toNat + lo.toNat) / 0x1000 = hi.toNat / 0x10 := by
  have hlo := lo.toNat_lt
  omega

theorem control_decode (hi lo : UInt8) :
    m.control (decode hi lo) =
      match hi.toNat / 0x10 with
      | 0x0 => if 0x100 * hi.toNat + lo.toNat = 0x00EE then .ret else .next
      | 0x1 => .jump (wordOfBytes (hi &&& 0xF) lo)
      | 0x2 => .call (wordOfBytes (hi &&& 0xF) lo)
      | 0x3 => .skipIf (m.registerValue (hi &&& 0xF) = lo)
      | 0x4 => .skipIf (m.registerValue (hi &&& 0xF) ≠ lo)
      | 0x5 => .skipIf (m.registerValue (hi &&& 0xF) = m.registerValue (lo >>> 4))
      | 0x9 => .skipIf (m.registerValue (hi &&& 0xF) ≠ m.registerValue (lo >>> 4))
      | 0xB => m.control (.jumpPlus (wordOfBytes (hi &&& 0xF) lo))
      | 0xE =>
        .skipIf (lo.toNat = 0x9E ∧ m.keypad.isHeld (m.registerValue (hi &&& 0xF)) ∨
          lo.toNat = 0xA1 ∧ ¬ m.keypad.isHeld (m.registerValue (hi &&& 0xF)))
      | _ => .next := by
  have hhi := hi.toNat_lt
  have hhigh : hi.toNat / 0x10 < 0x10 := by omega
  simp only [decode, toNat_highNibble]
  generalize hi.toNat / 0x10 = high at hhigh
  match high, hhigh with
  | 0x0, _ =>
      rw [← toNat_wordOfBytes]
      exact m.control_ofWord? _ _
  | 0x8, _ => exact m.control_ofRegisters? _ _ _ _
  | 0xE, _ => exact m.control_ofKey? _ _ _
  | 0xF, _ => exact m.control_ofRegister? _ _ _
  | 0x1, _ | 0x2, _ | 0x3, _ | 0x4, _ | 0x5, _ | 0x6, _ | 0x7, _ | 0x9, _ | 0xA, _ | 0xB, _
  | 0xC, _ | 0xD, _ => rfl
  | high + 0x10, hlt => omega

variable {m} {hi lo : UInt8}

theorem control_eq_ret_iff :
    m.control (decode hi lo) = .ret ↔ 0x100 * hi.toNat + lo.toNat = 0x00EE := by
  have hlo := lo.toNat_lt
  have hsmall : 0x100 * hi.toNat + lo.toNat = 0x00EE → hi.toNat / 0x10 = 0 := by omega
  rw [control_decode]
  generalize hi.toNat / 0x10 = high at hsmall ⊢
  split
  · simp
  all_goals simp_all [Transfer.skipIf_ne_ret, control]

theorem exists_control_eq_call_iff :
    (∃ target, m.control (decode hi lo) = .call target) ↔
      (0x100 * hi.toNat + lo.toNat) / 0x1000 = 2 := by
  rw [control_decode, highNibble_word]
  generalize hi.toNat / 0x10 = high
  split
  · split <;> simp
  all_goals simp_all [Transfer.skipIf_ne_call, control]

theorem control_eq_skip_iff :
    m.control (decode hi lo) = .skip ↔ m.SkipsOn (0x100 * hi.toNat + lo.toNat) := by
  have hlo := lo.toNat_lt
  have hlow : (0x100 * hi.toNat + lo.toNat) % 0x100 = lo.toNat := by omega
  have hx : UInt8.ofNat ((0x100 * hi.toNat + lo.toNat) / 0x100 % 0x10) = hi &&& 0xF := by
    rw [← UInt8.toNat_inj, UInt8.toNat_ofNat', toNat_lowNibble]
    omega
  have hy : UInt8.ofNat ((0x100 * hi.toNat + lo.toNat) / 0x10 % 0x10) = lo >>> 4 := by
    rw [← UInt8.toNat_inj, UInt8.toNat_ofNat', toNat_highNibble]
    omega
  rw [control_decode]
  simp only [SkipsOn, highNibble_word, hlow, hx, hy]
  generalize hi.toNat / 0x10 = high
  split
  · split <;> simp
  all_goals simp_all [Transfer.skipIf_eq_skip, control, UInt8.toNat_inj]

end Control

theorem fetch_of_wordAt? {m : Machine} {word : Nat}
    (h : m.memory.wordAt? m.pc.toNat = some word) :
    ∃ hi lo, m.memory.fetch m.pc = .ok (hi, lo) ∧ 0x100 * hi.toNat + lo.toNat = word := by
  unfold Memory.wordAt? at h
  split at h
  · next hlt =>
      exact ⟨_, _, Memory.fetch_of_lt hlt, Option.some.inj h⟩
  · cases h

theorem wordAt?_of_fetch {m : Machine} {hi lo : UInt8}
    (h : m.memory.fetch m.pc = .ok (hi, lo)) :
    m.memory.wordAt? m.pc.toNat = some (0x100 * hi.toNat + lo.toNat) := by
  obtain ⟨hlt, heq⟩ := Memory.fetch_eq_ok h
  obtain ⟨rfl, rfl⟩ := Prod.ext_iff.mp heq
  exact dif_pos hlt

theorem faulty_of_follow {m after : Machine} {hi lo : UInt8} {fault : Fault}
    (hfetch : m.memory.fetch m.pc = .ok (hi, lo))
    (hfollow : (m.acted (.decode hi lo)).follow m.pc (m.control (.decode hi lo)) =
      (after, some fault)) : m.Faulty fault := by
  have hword := wordAt?_of_fetch hfetch
  rcases follow_eq_fault hfollow with
    ⟨stop, hcontrol, hskip, rfl, -⟩ | ⟨target, hcontrol, hpush, rfl, -⟩ | ⟨hcontrol, hpop, rfl, -⟩
  · obtain ⟨hlt, -⟩ := Memory.fetch_eq_ok hfetch
    obtain ⟨hle, rfl⟩ := Memory.fetch_eq_error hskip
    rw [toNat_pc_acted hfetch] at hle ⊢
    have hstop : max (m.pc.toNat + 2) 0x1000 = 0x1000 := by omega
    rw [hstop]
    refine .skip hword (control_eq_skip_iff.mp hcontrol) ?_
    rw [← UInt16.toNat_inj, ← UInt16.toNat_inj]
    show m.pc.toNat = 0xFFD ∨ m.pc.toNat = 0xFFE
    omega
  · rw [stack_acted, CallStack.push?_eq_none_iff, CallStack.length_toList] at hpush
    exact .overflow hword (exists_control_eq_call_iff.mp ⟨target, hcontrol⟩) hpush
  · rw [stack_acted, CallStack.pop?_eq_none_iff, ← List.length_eq_zero_iff,
      CallStack.length_toList] at hpop
    rw [control_eq_ret_iff.mp hcontrol] at hword
    exact .underflow hword hpop

theorem Faulty.result_step {m : Machine} {fault : Fault} (hrunning : m.state = .running)
    (h : m.Faulty fault) : m.step.result = .error fault := by
  cases h with
  | fetch hpc =>
      rw [step_eq_of_takes (.misses hrunning (Memory.fetch_of_le hpc))]
  | underflow hword hdepth =>
      obtain ⟨hi, lo, hfetch, hret⟩ := fetch_of_wordAt? hword
      have hpop : (m.acted (.decode hi lo)).stack.pop? = none := by
        rw [stack_acted, CallStack.pop?_eq_none_iff, ← List.length_eq_zero_iff,
          CallStack.length_toList]
        exact hdepth
      have hfollow : (m.acted (.decode hi lo)).follow m.pc (m.control (.decode hi lo)) =
          (m.acted (.decode hi lo), some (.stackUnderflow m.pc)) := by
        rw [control_eq_ret_iff.mpr hret]
        simp only [follow, hpop]
      rw [step_eq_of_takes (.faults hrunning hfetch rfl hfollow)]
  | overflow hword hcall hdepth =>
      obtain ⟨hi, lo, hfetch, rfl⟩ := fetch_of_wordAt? hword
      obtain ⟨target, hcontrol⟩ := exists_control_eq_call_iff.mpr hcall
      have hpush : (m.acted (.decode hi lo)).stack.push? (m.acted (.decode hi lo)).pc = none := by
        rw [stack_acted, CallStack.push?_eq_none_iff, CallStack.length_toList]
        exact hdepth
      have hfollow : (m.acted (.decode hi lo)).follow m.pc (m.control (.decode hi lo)) =
          (m.acted (.decode hi lo), some (.stackOverflow m.pc)) := by
        rw [hcontrol]
        simp only [follow, hpush]
      rw [step_eq_of_takes (.faults hrunning hfetch rfl hfollow)]
  | skip hword hskips hlast =>
      obtain ⟨hi, lo, hfetch, rfl⟩ := fetch_of_wordAt? hword
      have hpc := toNat_pc_acted hfetch (.decode hi lo)
      -- At least one of the two bytes that are to be skipped lies outside of memory.
      have hbehind : 0xFFF ≤ m.pc.toNat + 2 ∧ m.pc.toNat + 2 ≤ 0x1000 := by
        rcases hlast with hlast | hlast
        · rw [hlast]
          decide
        · rw [hlast]
          decide
      have hstop : (m.acted (.decode hi lo)).memory.fetch (m.acted (.decode hi lo)).pc =
          .error 0x1000 := by
        rw [Memory.fetch_of_le (by omega), hpc]
        have hmax : max (m.pc.toNat + 2) 0x1000 = 0x1000 := by omega
        rw [hmax]
        rfl
      have hfollow : (m.acted (.decode hi lo)).follow m.pc (m.control (.decode hi lo)) =
          ({ m.acted (.decode hi lo) with pc := 0x1000 }, some (.fetchOutOfBounds 0x1000)) := by
        rw [control_eq_skip_iff.mpr hskips]
        simp only [follow, hstop]
      rw [step_eq_of_takes (.faults hrunning hfetch rfl hfollow)]

theorem Faulty.of_result_step {m : Machine} {fault : Fault} (hrunning : m.state = .running)
    (h : m.step.result = .error fault) : m.Faulty fault := by
  have hstep := m.takes_step
  generalize m.step = outcome at h hstep
  cases hstep with
  | halted hstate =>
      rw [hrunning] at hstate
      cases hstate
  | waits | receives | executes => cases h
  | misses hstate hfetch =>
      cases h
      obtain ⟨hle, rfl⟩ := Memory.fetch_eq_error hfetch
      exact .fetch hle
  | faults hstate hfetch hdecode hfollow =>
      cases h
      subst hdecode
      exact faulty_of_follow hfetch hfollow

theorem step_classified {m : Machine} (hrunning : m.state = .running) :
    (∀ fault, m.step.result = .error fault ↔ m.Faulty fault) ∧
      ((∀ fault, ¬ m.Faulty fault) →
        ∃ hlt : m.pc.toNat + 1 < 0x1000,
          m.step.result = .ok (.executed
            (.decode m.memory.bytes[m.pc.toNat] m.memory.bytes[m.pc.toNat + 1]))) := by
  constructor
  · intro fault
    exact ⟨.of_result_step hrunning, fun h => h.result_step hrunning⟩
  · intro hsound
    have hno : ∀ fault, m.step.result ≠ .error fault :=
      fun fault h => hsound fault (.of_result_step hrunning h)
    have hstep := m.takes_step
    generalize m.step = outcome at hno hstep
    cases hstep with
    | waits hstate | receives hstate =>
        rw [hrunning] at hstate
        cases hstate
    | halted | misses | faults => exact absurd rfl (hno _)
    | executes hstate hfetch hdecode hfollow =>
        obtain ⟨hlt, heq⟩ := Memory.fetch_eq_ok hfetch
        obtain ⟨rfl, rfl⟩ := Prod.ext_iff.mp heq
        exact ⟨hlt, by rw [hdecode]⟩

theorem step_classified_return_first :
    let m := ((initial (.ofSeed 0)).performAll [.load [0x00, 0xEE]]).machine
    m.state = .running ∧ m.memory.wordAt? m.pc.toNat = some 0x00EE ∧ m.stack.depth = 0 ∧
      m.step.result = .error (.stackUnderflow m.pc) := by
  intro m
  have hrunning : m.state = .running := by decide +kernel
  have hword : m.memory.wordAt? m.pc.toNat = some 0x00EE := by decide +kernel
  have hdepth : m.stack.depth = 0 := by decide +kernel
  obtain ⟨hiff, -⟩ := step_classified hrunning
  exact ⟨hrunning, hword, hdepth, (hiff _).mpr (.underflow hword hdepth)⟩

end Machine

end ChipEight
