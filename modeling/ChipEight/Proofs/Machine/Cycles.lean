import ChipEight.Proofs.Machine.Change
import ChipEight.Proofs.Machine.Countdowns
import ChipEight.Proofs.Machine.KeyWait
import Mathlib.Order.Bounds.Basic

namespace ChipEight.Machine

/-- The results of the steps of an operation. -/
def stepResults (m : Machine) (operation : Operation) : List (Except Fault Step) :=
  (m.stepStarts operation).map (·.step.result)

/-- Of `count` steps taken one after the other, the last one ends runs. -/
def EndsAt (m : Machine) (count : Nat) : Prop :=
  ∃ result, (m.performAll (.replicate count .step)).result.getLast? = some (.stepped result) ∧
    Step.endsRun result

section Run

variable {m : Machine} {count more : Nat}

theorem stepResults_run_succ (m : Machine) (count : Nat) :
    m.stepResults (.run (count + 1)) =
      m.step.result ::
        if Step.endsRun m.step.result then [] else m.step.machine.stepResults (.run count) := by
  rw [stepResults, stepStarts, starts, List.map_cons, apply_ite (List.map _)]
  rfl

theorem performAll_steps (m : Machine) (count : Nat) :
    let results := m.stepResults (.run count)
    m.performAll (.replicate results.length .step) =
      { result := results.map .stepped
        machine := (m.run count).machine
        log := (m.run count).log } := by
  induction count generalizing m with
  | zero => rfl
  | succ count ih =>
      rw [stepResults_run_succ]
      by_cases hends : Step.endsRun m.step.result
      · rw [if_pos hends, run_succ_of_ends hends]
        simp [performAll, perform, Outcome.map]
      · rw [if_neg hends, run_succ_of_goes_on hends]
        simp only [List.length_cons, List.replicate_succ, performAll, perform, Outcome.map, ih,
          List.map_cons]

theorem last_run (m : Machine) (count : Nat) :
    (m.run count).result.last = (m.stepResults (.run count)).getLast? := by
  rw [run_eq, stepResults, List.getLast?_map]
  rfl

theorem endsAt_succ :
    m.EndsAt (count + 1) ↔
      (count = 0 ∧ Step.endsRun m.step.result) ∨ m.step.machine.EndsAt count := by
  cases count with
  | zero => simp [EndsAt, performAll, perform, Outcome.map]
  | succ count =>
      simp only [EndsAt, List.replicate_succ, performAll, List.getLast?_cons_cons]
      simp [perform, Outcome.map]

theorem not_endsAt_zero (m : Machine) : ¬ m.EndsAt 0 := by
  simp [EndsAt, performAll]

theorem isLeast_length_stepResults (m : Machine) (count : Nat) :
    IsLeast {k | k = count ∨ m.EndsAt k} (m.stepResults (.run count)).length := by
  induction count generalizing m with
  | zero => exact ⟨.inl rfl, fun k _ => Nat.zero_le k⟩
  | succ count ih =>
      have hpos : ∀ k, k = count + 1 ∨ m.EndsAt k → 0 < k := by
        rintro k (rfl | hk)
        · exact Nat.succ_pos count
        · refine Nat.pos_of_ne_zero ?_
          rintro rfl
          exact m.not_endsAt_zero hk
      rw [stepResults_run_succ]
      by_cases hends : Step.endsRun m.step.result
      · rw [if_pos hends]
        exact ⟨.inr (endsAt_succ.mpr (.inl ⟨rfl, hends⟩)), hpos⟩
      · rw [if_neg hends]
        obtain ⟨hmem, hleast⟩ := ih m.step.machine
        refine ⟨hmem.imp (congrArg (· + 1)) fun h => endsAt_succ.mpr (.inr h), ?_⟩
        intro k hk
        obtain ⟨k, rfl⟩ := Nat.exists_eq_succ_of_ne_zero (hpos k hk).ne'
        refine Nat.succ_le_succ (hleast (hk.imp Nat.succ.inj fun h => ?_))
        exact (endsAt_succ.mp h).resolve_left fun h => hends h.2

theorem endsRun_of_length_ne {result : Except Fault Step}
    (hlength : (m.stepResults (.run count)).length ≠ count)
    (hlast : (m.stepResults (.run count)).getLast? = some result) : Step.endsRun result := by
  obtain ⟨last, hsteps, hends⟩ :=
    (m.isLeast_length_stepResults count).1.resolve_left hlength
  rw [performAll_steps, List.getLast?_map, hlast] at hsteps
  cases hsteps
  exact hends

theorem stepResults_run_prefix (m : Machine) (h : count ≤ more) :
    m.stepResults (.run count) <+: m.stepResults (.run more) := by
  induction count generalizing m more with
  | zero => exact List.nil_prefix
  | succ count ih =>
      obtain ⟨more, rfl⟩ := Nat.exists_eq_add_of_lt h
      rw [stepResults_run_succ, stepResults_run_succ, List.prefix_cons_inj]
      split
      · exact List.prefix_rfl
      · exact ih m.step.machine (by omega)

end Run

def frameLength (count : Nat) : Change where
  config c := { c with opsPerCycle := count }

theorem step_frameLength (m : Machine) (count : Nat) :
    ((frameLength count).apply m).step =
      { m.step with machine := (frameLength count).apply m.step.machine } := by
  have hcarries : ∀ i, (frameLength count).Carries m i := by
    intro i
    constructor
    · cases i <;> rfl
    · cases i <;> rfl
  exact Change.step_apply (fun _ _ => ⟨rfl, rfl⟩) fun i _ => hcarries i

theorem stepResults_frameLength (m : Machine) (count more : Nat) :
    ((frameLength more).apply m).stepResults (.run count) = m.stepResults (.run count) := by
  induction count generalizing m with
  | zero => rfl
  | succ count ih => rw [stepResults_run_succ, stepResults_run_succ, step_frameLength, ih]

section Waiting

variable {m : Machine} {x : UInt8}

theorem cycle_of_waiting (hstate : m.state = .awaitingKey x) (hlatch : m.keypad.latch = none) :
    m.cycle = { result := .ok (), machine := m.tick } := by
  have hstep : m.tick.step = { result := .ok .awaitingKey, machine := m.tick } :=
    step_of_waiting hstate hlatch
  unfold cycle
  cases m.config.opsPerCycle with
  | zero => rfl
  | succ count =>
      have hends : Step.endsRun m.tick.step.result := by
        rw [hstep]
        rfl
      rw [run_succ_of_ends hends, hstep]

theorem performAll_cycles_of_waiting (hstate : m.state = .awaitingKey x)
    (hlatch : m.keypad.latch = none) (count : Nat) :
    m.performAll (.replicate count .cycle) =
      { result := .replicate count (.cycled (.ok ()))
        machine :=
          { m with
            timers := { delay := m.timers.delay - count, sound := m.timers.sound - count } } } := by
  induction count generalizing m with
  | zero => rfl
  | succ count ih =>
      have hticked : ∀ timer : Nat, timer - 1 - count = timer - (count + 1) := by omega
      have hrest := ih (m := m.tick) hstate hlatch
      simp only [tick, Timers.tick, hticked] at hrest
      rw [List.replicate_succ, performAll, perform, cycle_of_waiting hstate hlatch]
      simp only [Outcome.map, tick, Timers.tick, hrest]
      rfl

end Waiting

theorem timers_step_of_error {m : Machine} {fault : Fault} (h : m.step.result = .error fault) :
    m.step.machine.timers = m.timers := by
  have hnone : ∀ i, m.step.result ≠ .ok (.executed i) := by simp [h]
  simp only [timers_step, stored?_step_of_none hnone]
  rfl

theorem timers_run_of_error {m : Machine} {fault : Fault} (h : m.step.result = .error fault)
    (count : Nat) : (m.run count).machine.timers = m.timers := by
  cases count with
  | zero => rfl
  | succ count =>
      have hends : Step.endsRun m.step.result := by
        rw [h]
        rfl
      rw [run_succ_of_ends hends]
      exact timers_step_of_error h

theorem cycle_eq (m : Machine) :
    let results := m.stepResults .cycle
    m.performAll (.tick :: .replicate results.length .step) =
      { result := .done :: results.map .stepped
        machine := m.cycle.machine
        log := m.cycle.log } := by
  intro results
  have hsteps : m.tick.performAll (.replicate results.length .step) = _ :=
    m.tick.performAll_steps m.config.opsPerCycle
  simp only [performAll, perform, hsteps, List.nil_append]
  rfl

theorem cycle_ticks_and_runs (m : Machine) :
    let count := m.config.opsPerCycle
    let results := m.stepResults .cycle
    m.performAll (.tick :: .replicate results.length .step) =
        { result := .done :: results.map .stepped
          machine := m.cycle.machine
          log := m.cycle.log } ∧
      IsLeast {k | k = count ∨ m.tick.EndsAt k} results.length ∧
      (∀ fault, m.cycle.result = .error fault ↔ results.getLast? = some (.error fault)) ∧
      (∀ fault, m.tick.step.result = .error fault → m.cycle.machine.timers = m.timers.tick) ∧
      (∀ more, count ≤ more → results <+: (m.configure (.opsPerCycle more)).stepResults .cycle) ∧
      (∀ key, results.getLast? = some (.ok (.keyReceived key)) → results.length = count) ∧
      ∀ x, m.state = .awaitingKey x → m.keypad.latch = none → ∀ n,
        m.performAll (.replicate n .cycle) =
          { result := .replicate n (.cycled (.ok ()))
            machine :=
              { m with
                timers := { delay := m.timers.delay - n, sound := m.timers.sound - n } } } := by
  intro count results
  refine ⟨m.cycle_eq, m.tick.isLeast_length_stepResults count, ?_, ?_, ?_, ?_, ?_⟩
  · intro fault
    have hlast : (m.tick.run count).result.last = results.getLast? := m.tick.last_run count
    rw [cycle, hlast]
    split
    · next last h => simp [h]
    · next h => simpa using h fault
  · intro fault hfault
    exact timers_run_of_error hfault count
  · intro more h
    exact m.tick.stepResults_frameLength more more ▸ m.tick.stepResults_run_prefix h
  · intro key hlast
    by_contra hlength
    exact absurd (endsRun_of_length_ne hlength hlast) (by simp [Step.endsRun])
  · intro x hstate hlatch n
    exact performAll_cycles_of_waiting hstate hlatch n

theorem cycle_ticks_and_runs_from_wait_to_fault :
    let rom : List UInt8 := [0x60, 0x02, 0xF0, 0x15, 0xF0, 0x0A, 0x00, 0xEE]
    let begun : List Operation := [.load rom, .run 3, .configure (.opsPerCycle 1)]
    let waiting := ((initial (.ofSeed 0)).performAll begun).machine
    let pressed := (waiting.pressKey 5).machine
    let longer := pressed.configure (.opsPerCycle 3)
    let fault : Fault := .stackUnderflow 0x206
    let halted := longer.cycle.machine
    waiting.state = .awaitingKey 0 ∧ waiting.keypad.latch = none ∧
      (waiting.performAll (.replicate 3 .cycle)).machine.timers = { delay := 2 - 3, sound := 0 - 3 } ∧
      (pressed.stepResults .cycle).getLast? = some (.ok (.keyReceived 5)) ∧
      (pressed.stepResults .cycle).length = pressed.config.opsPerCycle ∧
      pressed.config.opsPerCycle ≤ 3 ∧ pressed.stepResults .cycle <+: longer.stepResults .cycle ∧
      (longer.stepResults .cycle).getLast? = some (.error fault) ∧
      longer.cycle.result = .error fault ∧
      halted.tick.step.result = .error .halted ∧ halted.cycle.machine.timers = halted.timers.tick := by
  intro rom begun waiting pressed longer fault halted
  obtain ⟨hstate, hlatch, htimers, hreceived, hcount, hfault, hhalted⟩ :
      waiting.state = .awaitingKey 0 ∧ waiting.keypad.latch = none ∧
        waiting.timers = { delay := 2, sound := 0 } ∧
        (pressed.stepResults .cycle).getLast? = some (.ok (.keyReceived 5)) ∧
        pressed.config.opsPerCycle = 1 ∧
        (longer.stepResults .cycle).getLast? = some (.error fault) ∧
        halted.tick.step.result = .error .halted := by
    decide +kernel
  have hthree : pressed.config.opsPerCycle ≤ 3 := by omega
  obtain ⟨-, -, -, -, -, -, hwaits⟩ := cycle_ticks_and_runs waiting
  obtain ⟨-, -, -, -, hprefix, hkey, -⟩ := cycle_ticks_and_runs pressed
  obtain ⟨-, -, hresult, -⟩ := cycle_ticks_and_runs longer
  obtain ⟨-, -, -, hticked, -⟩ := cycle_ticks_and_runs halted
  refine ⟨hstate, hlatch, ?_, hreceived, hkey 5 hreceived, hthree, hprefix 3 hthree, hfault,
    (hresult fault).mpr hfault, hhalted, hticked .halted hhalted⟩
  rw [hwaits 0 hstate hlatch 3, htimers]

end ChipEight.Machine
