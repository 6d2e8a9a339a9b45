import ChipEight.Proofs.Instruction.Listing
import ChipEight.Proofs.Machine.History
import Mathlib.Control.Monad.Basic

namespace ChipEight.Machine

/-- The addresses into which the next step stores, those outside of memory included. -/
def storeAddresses (m : Machine) : List Nat :=
  match m.step.result with
  | .ok (.executed (.decimal _)) => List.range' m.memory.i.toNat 3
  | .ok (.executed (.store x)) => List.range' m.memory.i.toNat (x.toNat + 1)
  | _ => []

theorem getElem_bytes_acted {m : Machine} {i : Instruction} {a : Nat} (ha : a < 4096)
    (hdecimal : ∀ x, i = .decimal x → a ∉ List.range' m.memory.i.toNat 3)
    (hstore : ∀ x, i = .store x → a ∉ List.range' m.memory.i.toNat (x.toNat + 1)) :
    (m.acted i).memory.bytes[a] = m.memory.bytes[a] := by
  show (m.effect i).value.1.memory.bytes[a] = m.memory.bytes[a]
  simp only [bytes_effect]
  split
  · next x => exact Memory.getElem_writeBlock_of_not_mem ha (hdecimal x rfl)
  · next x =>
      apply Memory.getElem_writeBlock_of_not_mem ha
      rw [Memory.length_fetchRegisters]
      exact hstore x rfl
  · rfl

theorem getElem_bytes_step {m : Machine} {a : Nat} (ha : a < 4096) (hkept : a ∉ m.storeAddresses) :
    m.step.machine.memory.bytes[a] = m.memory.bytes[a] := by
  unfold storeAddresses at hkept
  rcases m.step_acts_or_receives_or_keeps with
    ⟨i, stack, pc, hresult, hmachine⟩ | ⟨x, key, -, hmachine⟩ | ⟨-, pc, anomalies, state, hmachine⟩
  · rw [hresult] at hkept
    rw [hmachine]
    apply getElem_bytes_acted ha
    · rintro x rfl
      exact hkept
    · rintro x rfl
      exact hkept
  · simp [hmachine, received]
  · rw [hmachine]

theorem steppedOnly_memory : SteppedOnly Machine.memory where
  configure m setting := by cases setting <;> rfl
  others m timers keypad dirty := rfl

theorem getElem_bytes_of_passes {m n : Memory} {history : List Machine}
    (h : Passes Machine.memory m history n) {a : Nat} (ha : a < 4096)
    (hkept : ∀ s ∈ history, a ∉ s.storeAddresses) : n.bytes[a] = m.bytes[a] :=
  h.invariant (P := fun memory => memory.bytes[a] = m.bytes[a])
    (fun s hs heq => (getElem_bytes_step ha (hkept s hs)).trans heq) rfl

section Fetches

variable {m : Machine} {i : Instruction}

theorem Fetches.filter_trace_log (h : m.Fetches i) :
    m.step.log.filter (·.level = .trace) = [.executing ⟨m.pc, i⟩] := by
  have hacted : (m.actedLog i).filter (·.level = .trace) = [.executing ⟨m.pc, i⟩] :=
    filter_level_actedLog m i (by decide) (by decide)
  rw [h.step_eq]
  split
  · exact hacted
  · rw [List.filter_append, hacted]
    rfl

end Fetches

theorem getElem_bytes_loaded {m : Machine} {rom : List UInt8} (hrom : rom.length ≤ 3584) {k : Nat}
    (hk : k < rom.length) :
    ∃ hlt : 0x200 + k < 4096, (m.load rom).machine.memory.bytes[0x200 + k] = rom[k] := by
  obtain ⟨memory, hmemory⟩ := Memory.exists_loadRom ({} : Memory).loadFont hrom
  rw [load, hmemory]
  exact Memory.getElem_loadRom hmemory hk

theorem step_agrees_with_listing {m : Machine} {rom : List UInt8} (hrom : rom.length ≤ 3584)
    {operations : List Operation} (hloads : (m.load rom).machine.LoadsNothing operations)
    {before after : List Machine} {s : Machine}
    (hhistory : (m.load rom).machine.history operations = before ++ s :: after)
    (hrunning : s.state = .running) (hstart : 0x200 ≤ s.pc.toNat) (heven : s.pc.toNat % 2 = 0)
    (hend : s.pc.toNat + 1 < 0x200 + rom.length)
    (hkept : ∀ u ∈ before,
      s.pc.toNat ∉ u.storeAddresses ∧ s.pc.toNat + 1 ∉ u.storeAddresses) :
    ∃ l : Listed,
      (disassemble rom romStart).filter (·.address = s.pc) = [l] ∧
        s.Fetches l.instruction ∧
        (∀ step, s.step.result = .ok step → step = .executed l.instruction) ∧
        s.step.log.filter (·.level = .trace) = [.executing l] ∧
        l.line = Numeral.hexPrefixed 3 s.pc.toNat ++ "  " ++ l.instruction.mnemonic ∧
        (Event.executing l).text.toList = singleSpaced l.line.toList := by
  have hpasses := steppedOnly_memory.passes hloads
  rw [hhistory] at hpasses
  have hbefore := hpasses.cut.1
  obtain ⟨k, hpc⟩ : ∃ k, s.pc.toNat = 0x200 + k := Nat.exists_eq_add_of_le hstart
  obtain ⟨hkept, hkeptNext⟩ := forall₂_and.mp hkept
  simp only [hpc, Nat.add_assoc] at hkept hkeptNext
  obtain ⟨hlt, hhi⟩ := getElem_bytes_loaded (m := m) hrom (k := k) (by omega)
  obtain ⟨hltNext, hlo⟩ := getElem_bytes_loaded (m := m) hrom (k := k + 1) (by omega)
  rw [← getElem_bytes_of_passes hbefore hlt hkept] at hhi
  rw [← getElem_bytes_of_passes hbefore hltNext hkeptNext] at hlo
  have hfetches : s.Fetches (.decode rom[k] rom[k + 1]) := by
    refine ⟨hrunning, rom[k], rom[k + 1], ?_, rfl⟩
    rw [Memory.fetch_of_lt (by omega)]
    simp only [hpc, hhi, Nat.add_assoc, hlo]
  refine ⟨⟨s.pc, .decode rom[k] rom[k + 1]⟩, ?_, hfetches, fun step => hfetches.eq_executed,
    hfetches.filter_trace_log, rfl, Listed.toList_text _⟩
  have hbase : romStart.toNat = 0x200 := by decide
  rw [disassemble, filter_disassembleFrom (by omega) (by omega) (by omega)]
  simp [hpc, hbase, Nat.add_assoc]

theorem step_agrees_with_listing_before_stored_bytes :
    let m := initial (.ofSeed 0)
    let rom : List UInt8 := [0xA2, 0x06, 0xF0, 0x33, 0x00, 0xE0, 0x12, 0x34, 0x56]
    let loaded := (m.load rom).machine
    let operations : List Operation := [.step, .step, .tick, .step]
    let third := (loaded.performAll [.step, .step, .tick]).machine
    rom.length ≤ 3584 ∧ loaded.LoadsNothing operations ∧ third.state = .running ∧
      third.pc = 0x204 ∧ loaded.step.machine.storeAddresses = [0x206, 0x207, 0x208] ∧
      third.Fetches .clear ∧
      third.step.log.filter (·.level = .trace) = [.executing ⟨0x204, .clear⟩] := by
  intro m rom loaded operations third
  have hrom : rom.length ≤ 3584 := by decide
  have hloads : loaded.LoadsNothing operations := by
    unfold LoadsNothing
    decide +kernel
  have hrunning : third.state = .running := by decide +kernel
  have hpc : third.pc = 0x204 := by decide +kernel
  have hfirst : loaded.storeAddresses = [] := by decide +kernel
  have hsecond : loaded.step.machine.storeAddresses = [0x206, 0x207, 0x208] := by decide +kernel
  have hkept : ∀ u ∈ [loaded, loaded.step.machine],
      third.pc.toNat ∉ u.storeAddresses ∧ third.pc.toNat + 1 ∉ u.storeAddresses := by
    simp [hpc, hfirst, hsecond]
  have hlisted : (disassemble rom romStart).filter (·.address = third.pc) =
      [⟨0x204, .clear⟩] := by
    rw [hpc]
    decide
  have hhistory : ∀ n : Machine, n.history operations =
      [n, n.step.machine] ++ (n.performAll [.step, .step, .tick]).machine :: [] := fun _ => rfl
  obtain ⟨l, hl, hfetches, -, hlog, -⟩ := step_agrees_with_listing hrom hloads (hhistory loaded)
    hrunning (by rw [hpc]; decide) (by rw [hpc]; decide) (by rw [hpc]; decide) hkept
  rw [hlisted] at hl
  cases hl
  exact ⟨hrom, hloads, hrunning, hpc, hsecond, hfetches, hlog⟩

end ChipEight.Machine
