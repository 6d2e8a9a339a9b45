import ChipEight.Proofs.Machine.Alike
import ChipEight.Proofs.Machine.Coherence
import ChipEight.Proofs.Machine.Loading

namespace ChipEight.Machine

/-- No operations tell the machines apart, whatever is looked at after them. -/
def Indistinguishable (m n : Machine) : Prop :=
  ∀ operations,
    (m.performAll operations).result = (n.performAll operations).result ∧
      (m.performAll operations).log = (n.performAll operations).log ∧
      (m.performAll operations).machine.view = (n.performAll operations).machine.view

theorem Alike.indistinguishable {m n : Machine} (h : m.Alike n) : m.Indistinguishable n := by
  intro operations
  have hall := h.performAll operations
  exact ⟨hall.result, hall.log, hall.machine.view_eq⟩

/-- A new machine with the settings, the random source and the count of a machine. -/
def renewed (m : Machine) : Machine :=
  let settings : List Setting :=
    [.dialect m.config.dialect, .opsPerCycle m.config.opsPerCycle, .palette m.config.palette]
  { settings.foldl configure (initial m.random) with anomalies := m.anomalies }

theorem Coherent.start_renewed {m : Machine} (h : m.Coherent) (memory : Memory) :
    m.renewed.start memory = { m.start memory with stack := CallStack.empty.clear } := by
  have hdisplay : m.renewed.display.clear = m.display.clear := by
    simp only [Display.clear, Display.present, h.palette, h.wrap]
    rfl
  simp only [start, hdisplay]
  rfl

theorem alike_start {m : Machine} {memory : Memory} {stack : CallStack} (h : stack.toList = []) :
    (m.start memory).Alike { m.start memory with stack := stack } :=
  ⟨stack, h.trans (CallStack.toList_clear m.stack).symm, rfl⟩

theorem exists_load_eq {rom : List UInt8} (h : rom.length ≤ 3584) :
    ∃ memory, ∀ m : Machine, m.load rom =
      { result := .ok (), machine := m.start memory, log := [.programLoaded rom.length] } := by
  obtain ⟨memory, -, hload⟩ := exists_start_of_le h
  exact ⟨memory, hload⟩

theorem load_forgets {m : Machine} (hm : m.Reachable) {rom : List UInt8}
    (hrom : rom.length ≤ 3584) :
    (m.load rom).result = .ok () ∧ (m.renewed.load rom).result = .ok () ∧
      (m.load rom).log = (m.renewed.load rom).log ∧
      (m.load rom).machine.Indistinguishable (m.renewed.load rom).machine ∧
      ∀ stack : CallStack, stack.toList = [] →
        (m.load rom).machine.Indistinguishable { (m.load rom).machine with stack := stack } := by
  obtain ⟨memory, hload⟩ := exists_load_eq hrom
  rw [hload, hload]
  refine ⟨rfl, rfl, rfl, ?_, fun stack hstack => (alike_start hstack).indistinguishable⟩
  rw [(coherent_of_reachable hm).start_renewed]
  exact (alike_start (CallStack.toList_clear .empty)).indistinguishable

/-- The second program is loaded during a call of the first one, whose return address stays behind
in its slot. -/
theorem load_forgets_during_call :
    let m := ((initial (.ofSeed 0)).performAll [.load [0x22, 0x02], .step]).machine
    let rom : List UInt8 := [0x00, 0xEE]
    m.stack.toList = [0x202] ∧
      (m.load rom).machine.stack ≠ (m.renewed.load rom).machine.stack ∧
      (m.load rom).machine.Indistinguishable (m.renewed.load rom).machine := by
  intro m rom
  have hm : m.Reachable := ⟨_, _, rfl⟩
  have hrom : rom.length ≤ 3584 := by decide
  refine ⟨by decide +kernel, by decide +kernel, ?_⟩
  obtain ⟨-, -, -, hrenewed, -⟩ := load_forgets hm hrom
  exact hrenewed

end ChipEight.Machine
