import ChipEight.Proofs.Machine.Arithmetic
import ChipEight.Proofs.Machine.BlockTransfer

namespace ChipEight

/-- Three bytes are the decimal digits of a number, with the hundreds first. -/
structure DigitsOf (hundreds tens ones : UInt8) (n : Nat) : Prop where
  hundreds_le : hundreds ≤ 9
  tens_le : tens ≤ 9
  ones_le : ones ≤ 9
  value : 100 * hundreds.toNat + 10 * tens.toNat + ones.toNat = n

theorem digitsOf_toNat (b : UInt8) : DigitsOf (b / 100) (b / 10 % 10) (b % 10) b.toNat := by
  have hb := b.toNat_lt
  have hhundreds : (b / 100).toNat = b.toNat / 100 := UInt8.toNat_div b 100
  have htens : (b / 10 % 10).toNat = b.toNat / 10 % 10 := by
    rw [UInt8.toNat_mod, UInt8.toNat_div]
    rfl
  have hones : (b % 10).toNat = b.toNat % 10 := UInt8.toNat_mod b 10
  have hnine : (9 : UInt8).toNat = 9 := rfl
  refine ⟨?_, ?_, ?_, by omega⟩
  · rw [UInt8.le_iff_toNat_le]
    omega
  · rw [UInt8.le_iff_toNat_le]
    omega
  · rw [UInt8.le_iff_toNat_le]
    omega

namespace Machine

variable {m : Machine} {x : UInt8}

/-- The digits of VX are stored from the index register on, as far as there is memory. -/
structure StoresDigits (m : Machine) (x : UInt8) : Prop where
  result : m.step.result = .ok (.executed (.decimal x))
  stored : ∃ hundreds tens ones, DigitsOf hundreds tens ones (m.number x) ∧
    ∀ k (hk : k < 3), m.memory.i.toNat + k < 0x1000 →
      m.step.machine.memory.read (m.memory.i.toNat + k) = .ok [hundreds, tens, ones][k]
  elsewhere : ∀ a, a < m.memory.i.toNat ∨ m.memory.i.toNat + 2 < a →
    m.step.machine.memory.read a = m.memory.read a
  anomalies : m.step.machine.anomalies =
    m.anomalies + (List.range' m.memory.i.toNat 3).countP (0x1000 ≤ ·)
  rest : m.step.machine =
    { m with
      memory := { m.memory with bytes := m.step.machine.memory.bytes }
      pc := m.pc + 2
      anomalies := m.step.machine.anomalies }

theorem Fetches.storesDigits (h : m.Fetches (.decimal x)) : m.StoresDigits x := by
  let written := m.memory.writeBlock m.memory.i.toNat (decimalDigits (m.registerValue x))
  have hmachine : m.step.machine = m.acted (.decimal x) := h.machine_of_next rfl
  have hmemory : m.step.machine.memory = written.value := congrArg Machine.memory hmachine
  have hrejected : (m.effect (.decimal x)).rejected.length =
      (List.range' m.memory.i.toNat 3).countP (0x1000 ≤ ·) := by
    rw [rejected_effect h.fits, List.countP_eq_length_filter]
    simp [rejections, touchedAddresses, askedKeys]
  refine
    { result := h.executed_of_next rfl
      stored := ⟨_, _, _, digitsOf_toNat (m.registerValue x), ?_⟩
      elsewhere := ?_
      anomalies := ?_
      rest := ?_ }
  · intro k hk hin
    rw [hmemory]
    exact Memory.read_writeBlock hk hin
  · intro a ha
    rw [hmemory]
    apply Memory.read_writeBlock_of_not_mem
    rw [List.mem_range'_1]
    show ¬(_ ∧ a < m.memory.i.toNat + 3)
    omega
  · rw [hmachine, ← hrejected]
    rfl
  · have hbytes : m.step.machine.memory =
        { m.memory with bytes := m.step.machine.memory.bytes } := by
      rw [hmemory]
      exact Memory.writeBlock_eq _ _ _
    rw [← hbytes, hmachine]
    rfl

/-- The digits of VX, as FX65 reads them later from where FX33 has put them. -/
theorem digits_stored_and_loaded (h : m.Fetches (.decimal x)) :
    m.StoresDigits x ∧
      ∀ (n : Machine) (y : UInt8), n.Fetches (.load y) → 2 ≤ y → n.memory.i = m.memory.i →
        m.memory.i.toNat + 2 < 0x1000 →
        (∀ k < 3, n.memory.read (m.memory.i.toNat + k) =
          m.step.machine.memory.read (m.memory.i.toNat + k)) →
        100 * n.step.machine.number 0 + 10 * n.step.machine.number 1 + n.step.machine.number 2 =
          m.number x := by
  have hstores := h.storesDigits
  refine ⟨hstores, ?_⟩
  intro n y hload hy hi hend hkept
  obtain ⟨hundreds, tens, ones, hdigits, hstored⟩ := hstores.stored
  have hy' : 2 ≤ y.toNat := UInt8.le_iff_toNat_le.mp hy
  have hloaded : ∀ k (hk : k < 3), n.step.machine.number (UInt8.ofNat k) =
      ([hundreds, tens, ones][k]).toNat := by
    intro k hk
    apply number_of_register
    rw [hload.loadsBlock.loaded k (by omega) (by rw [hi]; omega), hi, hkept k hk,
      hstored k hk (by omega)]
  have hhundreds : n.step.machine.number 0 = hundreds.toNat := hloaded 0 (by decide)
  have htens : n.step.machine.number 1 = tens.toNat := hloaded 1 (by decide)
  have hones : n.step.machine.number 2 = ones.toNat := hloaded 2 (by decide)
  rw [hhundreds, htens, hones, hdigits.value]

/-- The number 254, stored where all its digits lie in memory and loaded again, and then where the last
one does not. -/
theorem digits_stored_and_loaded_at_end_of_memory :
    let rom : List UInt8 := [0x63, 0xFE, 0xAF, 0xFD, 0xF3, 0x33, 0xF2, 0x65, 0xAF, 0xFE, 0xF3, 0x33]
    let m := ((initial (.ofSeed 0)).performAll [.load rom, .run 2]).machine
    let n := (m.run 3).machine
    m.Fetches (.decimal 3) ∧ m.step.machine.Fetches (.load 2) ∧ n.Fetches (.decimal 3) ∧
      100 * m.step.machine.step.machine.number 0 + 10 * m.step.machine.step.machine.number 1 +
        m.step.machine.step.machine.number 2 = 254 ∧
      n.step.machine.anomalies = n.anomalies + 1 ∧
      ∃ hundreds tens ones, DigitsOf hundreds tens ones 254 ∧
        n.step.machine.memory.read 0xFFE = .ok hundreds ∧
        n.step.machine.memory.read 0xFFF = .ok tens := by
  intro rom m n
  obtain ⟨hstore, hload, hpartly, hi, hstart, hnumber, hlast, hvalue, hrejected⟩ :
      m.fetched? = some (.decimal 3) ∧ m.step.machine.fetched? = some (.load 2) ∧
        n.fetched? = some (.decimal 3) ∧ m.step.machine.memory.i = m.memory.i ∧
        m.memory.i.toNat = 0xFFD ∧ m.number 3 = 254 ∧ n.memory.i.toNat = 0xFFE ∧
        n.number 3 = 254 ∧ (List.range' n.memory.i.toNat 3).countP (0x1000 ≤ ·) = 1 := by
    decide +kernel
  rw [fetched?_eq_some_iff] at hstore hload hpartly
  obtain ⟨-, hround⟩ := digits_stored_and_loaded hstore
  obtain ⟨hstores, -⟩ := digits_stored_and_loaded hpartly
  obtain ⟨hundreds, tens, ones, hdigits, hstored⟩ := hstores.stored
  simp only [hlast] at hstored
  refine ⟨hstore, hload, hpartly, ?_, ?_, hundreds, tens, ones, hvalue ▸ hdigits, ?_, ?_⟩
  · exact (hround _ 2 hload (by decide) hi (by omega) fun _ _ => rfl).trans hnumber
  · exact hstores.anomalies.trans (congrArg (n.anomalies + ·) hrejected)
  · exact hstored 0 (by decide) (by decide)
  · exact hstored 1 (by decide) (by decide)

end Machine

end ChipEight
