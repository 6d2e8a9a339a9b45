import ChipEight.Proofs.Machine.History
import Mathlib.Control.Monad.Basic

namespace ChipEight.Machine

section Fault

variable {m : Machine} {fault : Fault}

/-- EXA1 is about to ask for a key that is not on the keypad. -/
def AsksForNoKey (m : Machine) : Prop :=
  ∃ x, m.Fetches (.skipFree x) ∧ 0xF < (m.registerValue x).toNat

theorem Fetches.length_rejected {i : Instruction} (hfetches : m.Fetches i)
    (hcontrol : m.control i ≠ .next) :
    (m.AsksForNoKey → (m.effect i).rejected.length = 1) ∧
      (¬ m.AsksForNoKey → (m.effect i).rejected.length = 0) := by
  constructor
  · rintro ⟨x, hfree, hkey⟩
    obtain rfl := hfetches.unique hfree
    rw [rejected_effect hfetches.fits, rejections_skipFree hkey]
    rfl
  · intro hkeys
    rw [rejected_effect hfetches.fits, rejections_of_control hcontrol]
    · rfl
    · rintro x rfl
      refine Nat.lt_of_not_le fun hkey => hkeys ?_
      exact ⟨x, hfetches, hkey⟩

theorem machine_step_of_fault (hrunning : m.state = .running)
    (hfault : m.step.result = .error fault) :
    ∃ pc anomalies,
      m.step.machine = { m with pc := pc, anomalies := anomalies, state := .halted } ∧
        (m.AsksForNoKey → anomalies = m.anomalies + 1) ∧
        (¬ m.AsksForNoKey → anomalies = m.anomalies) := by
  have hstep := m.takes_step
  generalize m.step = outcome at hfault hstep
  cases hstep with
  | halted hstate | waits hstate | receives hstate =>
      rw [hrunning] at hstate
      cases hstate
  | executes => cases hfault
  | @misses pc hstate hfetch =>
      refine ⟨pc, m.anomalies, rfl, ?_, fun _ => rfl⟩
      rintro ⟨x, ⟨-, hi, lo, hfetched, -⟩, -⟩
      rw [hfetch] at hfetched
      cases hfetched
  | @faults hi lo i after fault hstate hfetch hdecode hfollow =>
      obtain ⟨hcontrol, pc, rfl⟩ := control_ne_next_of_fault hfollow
      have hfetches : m.Fetches i := ⟨hstate, hi, lo, hfetch, hdecode⟩
      obtain ⟨hasks, hasksNot⟩ := hfetches.length_rejected hcontrol
      refine ⟨pc, m.anomalies + (m.effect i).rejected.length, ?_, ?_, ?_⟩
      · rw [acted_of_control hcontrol]
      · intro h
        rw [hasks h]
      · intro h
        rw [hasksNot h, Nat.add_zero]

theorem filter_error_log_of_fault (hrunning : m.state = .running)
    (hfault : m.step.result = .error fault) :
    m.step.log.filter (·.level = .error) = [.stopped fault] := by
  have hstep := m.takes_step
  generalize m.step = outcome at hfault hstep
  cases hstep with
  | halted hstate | waits hstate | receives hstate =>
      rw [hrunning] at hstate
      cases hstate
  | executes => cases hfault
  | misses =>
      cases hfault
      rfl
  | faults =>
      cases hfault
      rw [List.filter_append, filter_level_actedLog m _ (by decide) (by decide)]
      rfl

end Fault

section Halted

variable {m : Machine}

theorem state_step_of_error {fault : Fault} (h : m.step.result = .error fault) :
    m.step.machine.state = .halted := by
  have hstep := m.takes_step
  generalize m.step = outcome at h hstep
  cases hstep with
  | halted hstate => exact hstate
  | misses | faults => rfl
  | waits | receives | executes => cases h

theorem config_step (m : Machine) : m.step.machine.config = m.config := by
  rcases m.step_acts_or_receives_or_keeps with
    ⟨i, stack, pc, -, hmachine⟩ | ⟨x, key, -, hmachine⟩ | ⟨-, pc, anomalies, state, hmachine⟩
  · rw [hmachine]
    exact config_effect m i
  · rw [hmachine]
    rfl
  · rw [hmachine]

theorem config_cycle (m : Machine) : m.cycle.machine.config = m.config :=
  run_of_step (P := fun n => n.config = m.config) (m := m.tick)
    (fun n hn => n.config_step.trans hn) rfl m.config.opsPerCycle

theorem state_cycle_of_error {fault : Fault} (h : m.cycle.result = .error fault) :
    m.cycle.machine.state = .halted ∧ m.config.opsPerCycle ≠ 0 := by
  simp only [cycle, run_eq] at h ⊢
  cases hlast : (m.tick.starts m.config.opsPerCycle).getLast? with
  | none => simp [hlast] at h
  | some s =>
      refine ⟨?_, ?_⟩
      · cases hresult : s.step.result with
        | ok step => simp [hlast, hresult] at h
        | error fault => exact state_step_of_error hresult
      · intro hzero
        rw [hzero] at hlast
        cases hlast

theorem step_of_halted (h : m.state = .halted) :
    m.step = { result := .error .halted, machine := m } :=
  step_eq_of_takes (.halted h)

theorem state_step_of_halted (m : Machine) (h : m.state = .halted) :
    m.step.machine.state = .halted := by
  rw [step_of_halted h]
  exact h

theorem state_of_mem_stepStarts (h : m.state = .halted) {operation : Operation} :
    ∀ s ∈ m.stepStarts operation, s.state = .halted := by
  cases operation with
  | step => exact List.forall_mem_singleton.mpr h
  | run count => exact forall_mem_starts state_step_of_halted h count
  | cycle => exact forall_mem_starts (m := m.tick) state_step_of_halted h _
  | configure | load | loadFile | tick | pressKey | releaseKey | takeDirty =>
      rintro s ⟨⟩

theorem cycle_of_halted (h : m.state = .halted) :
    m.cycle =
      { result := if m.config.opsPerCycle = 0 then .ok () else .error .halted
        machine := m.tick } := by
  have hstep : m.tick.step = { result := .error .halted, machine := m.tick } := step_of_halted h
  unfold cycle
  cases m.config.opsPerCycle with
  | zero => rfl
  | succ count =>
      have hends : Step.endsRun m.tick.step.result := by
        rw [hstep]
        rfl
      rw [run_succ_of_ends hends, hstep]
      rfl

theorem steppedOnly_state : SteppedOnly Machine.state where
  configure m setting := by cases setting <;> rfl
  others m timers keypad dirty := rfl

theorem state_performAll_of_halted (h : m.state = .halted) {operations : List Operation}
    (hloads : m.LoadsNothing operations) :
    (m.performAll operations).machine.state = .halted :=
  (steppedOnly_state.passes hloads).invariant (P := (· = .halted))
    (fun s _ => s.state_step_of_halted) h

end Halted

theorem fault_stops_for_good {m : Machine} {fault : Fault} (hrunning : m.state = .running)
    (hfault : m.step.result = .error fault) :
    (∃ pc anomalies,
      m.step.machine = { m with pc := pc, anomalies := anomalies, state := .halted } ∧
        (m.AsksForNoKey → anomalies = m.anomalies + 1) ∧
        (¬ m.AsksForNoKey → anomalies = m.anomalies)) ∧
      m.step.log.filter (·.level = .error) = [.stopped fault] ∧
      ∀ operations, m.step.machine.LoadsNothing operations →
        let stopped := (m.step.machine.performAll operations).machine
        stopped.state = .halted ∧
          (∀ operation, ∀ s ∈ stopped.stepStarts operation,
            s.step = { result := .error .halted, machine := s }) ∧
          stopped.cycle =
            { result := if stopped.config.opsPerCycle = 0 then .ok () else .error .halted
              machine := stopped.tick } ∧
          stopped.tick =
            { stopped with
              timers :=
                { delay := stopped.timers.delay - 1, sound := stopped.timers.sound - 1 } } := by
  refine ⟨machine_step_of_fault hrunning hfault, filter_error_log_of_fault hrunning hfault, ?_⟩
  intro operations hloads stopped
  have hhalted : m.step.machine.state = .halted := by
    obtain ⟨pc, anomalies, hmachine, -⟩ := machine_step_of_fault hrunning hfault
    rw [hmachine]
  have hstopped : stopped.state = .halted := state_performAll_of_halted hhalted hloads
  refine ⟨hstopped, ?_, cycle_of_halted hstopped, rfl⟩
  intro operation s hs
  exact step_of_halted (state_of_mem_stepStarts hstopped s hs)

/-- The program writes EXA1 to the last two bytes of memory and jumps there with 0x10, which is no
key, in V0. -/
theorem fault_stops_for_good_at_missing_key :
    let rom : List UInt8 := [0xAF, 0xFE, 0x60, 0xE0, 0x61, 0xA1, 0xF1, 0x55, 0x60, 0x10, 0x1F, 0xFE]
    let m := ((initial (.ofSeed 0)).performAll [.load rom, .run 6]).machine
    let operations : List Operation := [.pressKey 5, .load (.replicate 3585 0), .run 2]
    m.state = .running ∧ m.step.result = .error (.fetchOutOfBounds 0x1000) ∧ m.AsksForNoKey ∧
      m.step.machine.anomalies = m.anomalies + 1 ∧ m.step.machine.LoadsNothing operations ∧
      (m.step.machine.performAll operations).machine.step.result = .error .halted := by
  intro rom m operations
  obtain ⟨hrunning, hfault, hfetch, hkey⟩ : m.state = .running ∧
      m.step.result = .error (.fetchOutOfBounds 0x1000) ∧
      m.memory.fetch m.pc = .ok (0xE0, 0xA1) ∧ 0xF < (m.registerValue 0).toNat := by
    decide +kernel
  have hasks : m.AsksForNoKey := ⟨0, ⟨hrunning, 0xE0, 0xA1, hfetch, by decide⟩, hkey⟩
  have hloads : m.step.machine.LoadsNothing operations := by
    unfold LoadsNothing
    decide +kernel
  obtain ⟨⟨pc, anomalies, hmachine, hcount, -⟩, -, hstopped⟩ := fault_stops_for_good hrunning hfault
  obtain ⟨-, hsteps, -⟩ := hstopped operations hloads
  refine ⟨hrunning, hfault, hasks, ?_, hloads, ?_⟩
  · rw [hmachine]
    exact hcount hasks
  · rw [hsteps .step _ (List.mem_singleton_self _)]

end ChipEight.Machine
