import Mathlib.Control.Monad.Basic
import ChipEight.Machine.Operation
import ChipEight.Proofs.Machine.StepRules
import ChipEight.Proofs.Memory.Contents

namespace ChipEight.Machine

variable {m n : Machine} {x : UInt8}

/-- Where FX55 and FX65 leave the index register. -/
def indexAfterBlock (m : Machine) (x : UInt8) : Nat :=
  if m.config.dialect.memoryIncrementI then (m.memory.i.toNat + x.toNat + 1) % 0x10000
  else m.memory.i.toNat

theorem toNat_i_afterBlock {memory : Memory} (hi : memory.i = m.memory.i) (hx : x.toNat < 0x10) :
    (m.afterBlock memory x).i.toNat = m.indexAfterBlock x := by
  unfold afterBlock indexAfterBlock
  split
  · show (memory.i + (x.toUInt16 + 1)).toNat = _
    have hmoved : (x.toUInt16 + 1).toNat = x.toNat + 1 := by
      rw [UInt16.toNat_add, UInt8.toNat_toUInt16]
      exact Nat.mod_eq_of_lt (by simp; omega)
    rw [UInt16.toNat_add, hmoved, hi, Nat.add_assoc]
  · rw [hi]

theorem toNat_ofNat_register {k : Nat} (hk : k ≤ x.toNat) : (UInt8.ofNat k).toNat = k :=
  UInt8.toNat_ofNat_of_lt' (Nat.lt_of_le_of_lt hk x.toNat_lt)

theorem read_afterBlock (memory : Memory) (a : Nat) :
    (m.afterBlock memory x).read a = memory.read a := by
  unfold afterBlock
  split
  · rfl
  · rfl

/-- The instruction is executed, moves the index register as the dialect has it, and changes nothing
besides memory, the program counter and the count of rejected accesses. -/
structure TransfersBlock (m : Machine) (i : Instruction) (x : UInt8) : Prop where
  result : m.step.result = .ok (.executed i)
  index : m.step.machine.memory.i.toNat = m.indexAfterBlock x
  rest : m.step.machine =
    { m with
      memory := m.step.machine.memory
      pc := m.pc + 2
      anomalies := m.step.machine.anomalies }

/-- The registers V0 to VX are stored from the index register on, as far as there is memory. -/
structure StoresBlock (m : Machine) (x : UInt8) : Prop extends m.TransfersBlock (.store x) x where
  stored : ∀ k ≤ x.toNat, m.memory.i.toNat + k < 0x1000 →
    m.step.machine.memory.read (m.memory.i.toNat + k) = m.memory.register (UInt8.ofNat k)
  elsewhere : ∀ a, a < m.memory.i.toNat ∨ m.memory.i.toNat + x.toNat < a →
    m.step.machine.memory.read a = m.memory.read a
  registers : ∀ y, m.step.machine.memory.register y = m.memory.register y

/-- The registers V0 to VX are loaded from the index register on, with zeros behind the end of
memory. -/
structure LoadsBlock (m : Machine) (x : UInt8) : Prop extends m.TransfersBlock (.load x) x where
  loaded : ∀ k ≤ x.toNat, m.memory.i.toNat + k < 0x1000 →
    m.step.machine.memory.register (UInt8.ofNat k) = m.memory.read (m.memory.i.toNat + k)
  zeroed : ∀ k ≤ x.toNat, 0x1000 ≤ m.memory.i.toNat + k →
    m.step.machine.memory.register (UInt8.ofNat k) = .ok 0
  above : ∀ y, x < y → m.step.machine.memory.register y = m.memory.register y
  bytes : m.step.machine.memory.bytes = m.memory.bytes

namespace Fetches

theorem storesBlock (h : m.Fetches (.store x)) : m.StoresBlock x := by
  have hx : x.toNat < 0x10 := h.fits
  let values := (m.memory.fetchRegisters 0 (x.toNat + 1)).value
  let written := (m.memory.writeBlock m.memory.i.toNat values).value
  have hmachine : m.step.machine = m.acted (.store x) := h.machine_of_next rfl
  have hmemory : m.step.machine.memory = m.afterBlock written x := congrArg Machine.memory hmachine
  have hlength : values.length = x.toNat + 1 := Memory.length_fetchRegisters _ _ _
  refine ⟨⟨h.executed_of_next rfl, ?_, ?_⟩, ?_, ?_, ?_⟩
  · rw [hmemory]
    exact toNat_i_afterBlock (Memory.i_writeBlock _ _ _) hx
  · rw [hmachine]
    rfl
  · intro k hk hin
    have hvalue : k < values.length := by omega
    have hk' : (UInt8.ofNat k).toNat < 0x10 := by
      rw [toNat_ofNat_register hk]
      omega
    rw [hmemory, read_afterBlock, Memory.read_writeBlock hvalue hin, register_of_lt hk']
    simp only [values, Memory.value_fetchRegisters, List.getElem_map, List.getElem_range,
      UInt8.zero_add, registerValue]
  · intro a ha
    rw [hmemory, read_afterBlock]
    apply Memory.read_writeBlock_of_not_mem
    rw [hlength, List.mem_range'_1]
    omega
  · intro y
    rw [hmemory, register_afterBlock]
    exact Memory.register_writeBlock _ _ _ y

theorem loadsBlock (h : m.Fetches (.load x)) : m.LoadsBlock x := by
  have hx : x.toNat < 0x10 := h.fits
  let values := (m.memory.readBlock m.memory.i.toNat (x.toNat + 1)).value
  let written := (m.memory.putRegisters 0 values).value
  have hmachine : m.step.machine = m.acted (.load x) := h.machine_of_next rfl
  have hmemory : m.step.machine.memory = m.afterBlock written x := congrArg Machine.memory hmachine
  have hlength : values.length = x.toNat + 1 := Memory.length_readBlock _ _
  have hfits : (0 : UInt8).toNat + values.length ≤ 0x10 := by
    rw [hlength, UInt8.toNat_zero, Nat.zero_add]
    exact hx
  -- The bytes that were read have zeros in them for those behind the end of memory.
  have hregister : ∀ k ≤ x.toNat, m.step.machine.memory.register (UInt8.ofNat k) =
      .ok (Access.attempt 0 (m.memory.read (m.memory.i.toNat + k))).value := by
    intro k hk
    have hvalue : k < values.length := by omega
    have hput := Memory.register_putRegisters (m := m.memory) hfits hvalue
    rw [UInt8.zero_add] at hput
    rw [hmemory, register_afterBlock, hput]
    simp only [values, Memory.value_readBlock, List.getElem_map, List.getElem_range', Nat.one_mul]
  refine ⟨⟨h.executed_of_next rfl, ?_, ?_⟩, ?_, ?_, ?_, ?_⟩
  · rw [hmemory]
    exact toNat_i_afterBlock (Memory.i_putRegisters _ _ _) hx
  · rw [hmachine]
    rfl
  · intro k hk hin
    rw [hregister k hk, Memory.read_of_lt hin]
    rfl
  · intro k hk hout
    rw [hregister k hk, Memory.read_of_le _ hout]
    rfl
  · intro y hy
    rw [hmemory, register_afterBlock]
    apply Memory.register_putRegisters_of_ne
    rintro k hk rfl
    have hk' : k ≤ x.toNat := by omega
    rw [UInt8.zero_add, UInt8.lt_iff_toNat_lt, toNat_ofNat_register hk'] at hy
    omega
  · rw [hmemory, bytes_afterBlock]
    exact Memory.bytes_putRegisters _ _ _

end Fetches

/-- The round trip: from a machine in which what was stored lies at the index register again, FX65
brings back the registers that FX55 stored. -/
theorem blocks_stored_and_loaded (m : Machine) (x : UInt8) :
    (m.Fetches (.store x) → m.StoresBlock x) ∧
      (m.Fetches (.load x) → m.LoadsBlock x) ∧
      ∀ n : Machine, m.Fetches (.store x) → n.Fetches (.load x) → n.memory.i = m.memory.i →
        (∀ k ≤ x.toNat, n.memory.read (m.memory.i.toNat + k) =
          m.step.machine.memory.read (m.memory.i.toNat + k)) →
        (∀ k ≤ x.toNat, n.step.machine.memory.register (UInt8.ofNat k) =
          if m.memory.i.toNat + k < 0x1000 then m.memory.register (UInt8.ofNat k) else .ok 0) ∧
        ∀ y, x < y → n.step.machine.memory.register y = n.memory.register y := by
  refine ⟨Fetches.storesBlock, Fetches.loadsBlock, ?_⟩
  intro n hstore hload hi hkept
  have hstored := hstore.storesBlock.stored
  have hloaded := hload.loadsBlock
  refine ⟨?_, hloaded.above⟩
  intro k hk
  by_cases hin : m.memory.i.toNat + k < 0x1000
  · rw [if_pos hin, ← hstored k hk hin, ← hkept k hk, hloaded.loaded k hk (by rwa [hi]), hi]
  · rw [if_neg hin, hloaded.zeroed k hk (by rw [hi]; exact Nat.le_of_not_lt hin)]

/-- Three registers from the last but one byte of memory on, in the dialect that moves the index
register: the program points it back before it loads. -/
theorem blocks_stored_and_loaded_at_end_of_memory :
    let rom : List UInt8 := [0x60, 0x05, 0x61, 0x06, 0x62, 0x07, 0xAF, 0xFE, 0xF2, 0x55, 0xAF, 0xFE,
      0xF2, 0x65]
    let m := ((initial (.ofSeed 0)).performAll
      [.configure (.memoryIncrementI true), .load rom, .run 4]).machine
    let n := m.step.machine.step.machine
    m.Fetches (.store 2) ∧ n.Fetches (.load 2) ∧ n.memory.i = m.memory.i ∧
      m.step.machine.memory.i.toNat = 0x1001 ∧ n.step.machine.memory.register 1 = .ok 6 ∧
      n.step.machine.memory.register 2 = .ok 0 := by
  intro rom m n
  obtain ⟨hstore, hload, hi, hstart, hmoved, hsecond, hkept⟩ : m.fetched? = some (.store 2) ∧
      n.fetched? = some (.load 2) ∧ n.memory.i = m.memory.i ∧ m.memory.i.toNat = 0xFFE ∧
      m.indexAfterBlock 2 = 0x1001 ∧ m.memory.register 1 = .ok 6 ∧
      ∀ k : Fin 3, n.memory.read (m.memory.i.toNat + k) =
        m.step.machine.memory.read (m.memory.i.toNat + k) := by
    decide +kernel
  rw [fetched?_eq_some_iff] at hstore hload
  obtain ⟨hstores, -, hround⟩ := blocks_stored_and_loaded m 2
  obtain ⟨hrestored, -⟩ := hround n hstore hload hi fun k hk => hkept ⟨k, Nat.lt_succ_of_le hk⟩
  refine ⟨hstore, hload, hi, (hstores hstore).index.trans hmoved, ?_, ?_⟩
  · exact (hrestored 1 (by decide)).trans ((if_pos (by rw [hstart]; decide)).trans hsecond)
  · exact (hrestored 2 (by decide)).trans (if_neg (by rw [hstart]; decide))

end ChipEight.Machine
