import ChipEight.Machine.Operation
import ChipEight.Proofs.Machine.StepRules
/-!
Runs as the steps they are made of, and machines as what operations lead to.

`run_eq` describes a run by the machines from which its steps start. `Kept` collects what an
invariant has to survive; `Kept.of_reachable` is the induction over all operations.
-/

namespace ChipEight.Machine

/-- The machines from which the steps of a run start, one after the other. -/
def starts (m : Machine) : Nat → List Machine
  | 0 => []
  | count + 1 => m :: if Step.endsRun m.step.result then [] else m.step.machine.starts count

/-- The machines from which the steps of an operation start. -/
def stepStarts (m : Machine) : Operation → List Machine
  | .step => [m]
  | .run count => m.starts count
  | .cycle => m.tick.starts m.config.opsPerCycle
  | _ => []

theorem eq_of_head?_starts {m s : Machine} {count : Nat} (h : (m.starts count).head? = some s) :
    s = m := by
  cases count with
  | zero => cases h
  | succ count => exact (Option.some.inj h).symm

theorem runOn_eq (progress : Progress) (log : Array Event) (count : Nat) (m : Machine) :
    runOn progress log count m =
      { result :=
          { steps := progress.steps + (m.starts count).length
            last := ((m.starts count).getLast?.map (·.step.result)).or progress.last }
        machine := ((m.starts count).getLast?.map (·.step.machine)).getD m
        log := log.toList ++ (m.starts count).flatMap (·.step.log) } := by
  induction count generalizing progress log m with
  | zero => simp [runOn, starts]
  | succ count ih =>
      rw [runOn, starts]
      by_cases hends : Step.endsRun m.step.result
      · simp [hends]
      · simp only [hends, Bool.false_eq_true, ↓reduceIte, ih, List.length_cons,
          List.flatMap_cons, List.getLast?_cons]
        cases (m.step.machine.starts count).getLast? with
        | none => simp [Nat.add_assoc, Nat.add_comm 1]
        | some s => simp [Nat.add_assoc, Nat.add_comm 1]

theorem run_eq (m : Machine) (count : Nat) :
    m.run count =
      { result :=
          { steps := (m.starts count).length
            last := (m.starts count).getLast?.map (·.step.result) }
        machine := ((m.starts count).getLast?.map (·.step.machine)).getD m
        log := (m.starts count).flatMap (·.step.log) } := by
  rw [run, runOn_eq]
  simp

theorem run_succ_of_ends {m : Machine} (h : Step.endsRun m.step.result) (count : Nat) :
    m.run (count + 1) =
      { result := { steps := 1, last := some m.step.result }
        machine := m.step.machine
        log := m.step.log } := by
  simp [run_eq, starts, h]

theorem run_succ_of_goes_on {m : Machine} (h : ¬ Step.endsRun m.step.result) (count : Nat) :
    m.run (count + 1) =
      { result :=
          { steps := (m.step.machine.run count).result.steps + 1
            last := some ((m.step.machine.run count).result.last.getD m.step.result) }
        machine := (m.step.machine.run count).machine
        log := m.step.log ++ (m.step.machine.run count).log } := by
  simp only [run_eq, starts, h, Bool.false_eq_true, ↓reduceIte, List.length_cons,
    List.flatMap_cons, List.getLast?_cons]
  cases (m.step.machine.starts count).getLast? <;> rfl

theorem exists_machine_pressKey (m : Machine) (key : UInt8) :
    ∃ held, (m.pressKey key).machine =
      { m with keypad := { held := held, latch := (Key.ofByte? key).or m.keypad.latch } } := by
  unfold pressKey Keypad.press
  cases Key.ofByte? key with
  | none => exact ⟨m.keypad.held, rfl⟩
  | some pressed => exact ⟨_, rfl⟩

theorem exists_machine_releaseKey (m : Machine) (key : UInt8) :
    ∃ held, (m.releaseKey key).machine = { m with keypad := { m.keypad with held := held } } := by
  unfold releaseKey Keypad.release
  cases Key.ofByte? key with
  | none => exact ⟨m.keypad.held, rfl⟩
  | some released => exact ⟨_, rfl⟩

theorem performAll_append (m : Machine) (before after : List Operation) :
    let first := m.performAll before
    let others := first.machine.performAll after
    m.performAll (before ++ after) =
      { result := first.result ++ others.result
        machine := others.machine
        log := first.log ++ others.log } := by
  induction before generalizing m with
  | nil => rfl
  | cons operation before ih =>
      simp only [List.cons_append, performAll, ih, List.append_assoc]

theorem machine_performAll_append (m : Machine) (before after : List Operation) :
    (m.performAll (before ++ after)).machine =
      ((m.performAll before).machine.performAll after).machine := by
  rw [performAll_append]

theorem log_load_eq_or (m : Machine) (rom : List UInt8) :
    (m.load rom).log = [] ∨ (m.load rom).log = [.programLoaded rom.length] := by
  unfold load
  split
  · exact .inr rfl
  · exact .inl rfl

/-- An operation reports what its steps report, and besides that at most the load of a program. -/
theorem exists_log_perform_eq (m : Machine) (operation : Operation) :
    ∃ loads : List Event, (∀ e ∈ loads, ∃ size, e = .programLoaded size) ∧
      (m.perform operation).log = (m.stepStarts operation).flatMap (·.step.log) ++ loads := by
  have hload : ∀ rom, ∃ loads : List Event, (∀ e ∈ loads, ∃ size, e = .programLoaded size) ∧
      (m.load rom).log = [] ++ loads := by
    intro rom
    refine ⟨(m.load rom).log, ?_, rfl⟩
    rcases m.log_load_eq_or rom with hlog | hlog
    · simp [hlog]
    · simp [hlog]
  have hsilent : ∃ loads : List Event, (∀ e ∈ loads, ∃ size, e = .programLoaded size) ∧
      ([] : List Event) = [] ++ loads := ⟨[], by simp, rfl⟩
  cases operation with
  | step => exact ⟨[], by simp, by simp [perform, stepStarts, Outcome.map]⟩
  | run count => exact ⟨[], by simp, by simp [perform, stepStarts, Outcome.map, run_eq]⟩
  | cycle => exact ⟨[], by simp, by simp [perform, stepStarts, Outcome.map, cycle, run_eq]⟩
  | load rom => exact hload rom
  | loadFile path contents =>
      cases contents with
      | error reason => exact hsilent
      | ok rom => exact hload rom
  | pressKey key =>
      have hlog : (m.perform (.pressKey key)).log = [] := by
        show (m.pressKey key).log = []
        unfold pressKey
        split <;> rfl
      rw [hlog]
      exact hsilent
  | releaseKey key =>
      have hlog : (m.perform (.releaseKey key)).log = [] := by
        show (m.releaseKey key).log = []
        unfold releaseKey
        split <;> rfl
      rw [hlog]
      exact hsilent
  | configure | tick | takeDirty => exact hsilent

theorem mem_log_perform {m : Machine} {operation : Operation} {e : Event}
    (h : e ∈ (m.perform operation).log) :
    (∃ s ∈ m.stepStarts operation, e ∈ s.step.log) ∨
      ∃ size, e = .programLoaded size := by
  obtain ⟨loads, hloads, hlog⟩ := m.exists_log_perform_eq operation
  rw [hlog] at h
  rcases List.mem_append.mp h with h | h
  · exact .inl (List.mem_flatMap.mp h)
  · exact .inr (hloads e h)

section Invariant

variable {P : Machine → Prop}

theorem forall_mem_starts (hstep : ∀ m, P m → P m.step.machine) {m : Machine} (hm : P m)
    (count : Nat) : ∀ s ∈ m.starts count, P s := by
  induction count generalizing m with
  | zero =>
      rintro s ⟨⟩
  | succ count ih =>
      intro s hs
      rw [starts] at hs
      rcases List.mem_cons.mp hs with rfl | hs
      · exact hm
      · split at hs
        · cases hs
        · exact ih (hstep m hm) s hs

theorem run_of_step (hstep : ∀ m, P m → P m.step.machine) {m : Machine} (hm : P m)
    (count : Nat) : P (m.run count).machine := by
  rw [run_eq]
  cases hlast : (m.starts count).getLast? with
  | none => exact hm
  | some s => exact hstep s (forall_mem_starts hstep hm count s (List.mem_of_getLast? hlast))

/-- What an invariant of machines has to survive. -/
structure Kept (P : Machine → Prop) : Prop where
  configure : ∀ m setting, P m → P (m.configure setting)
  load : ∀ m rom, P m → P (m.load rom).machine
  step : ∀ m, P m → P m.step.machine
  tick : ∀ m, P m → P m.tick
  pressKey : ∀ m key, P m → P (m.pressKey key).machine
  releaseKey : ∀ m key, P m → P (m.releaseKey key).machine
  takeDirty : ∀ m, P m → P m.takeDirty.machine

theorem Kept.perform (h : Kept P) {m : Machine} (hm : P m) (operation : Operation) :
    P (m.perform operation).machine := by
  cases operation with
  | configure setting => exact h.configure m setting hm
  | load rom => exact h.load m rom hm
  | loadFile path contents =>
      cases contents with
      | error reason => exact hm
      | ok rom => exact h.load m rom hm
  | step => exact h.step m hm
  | run count => exact run_of_step h.step hm count
  | cycle => exact run_of_step h.step (h.tick m hm) _
  | tick => exact h.tick m hm
  | pressKey key => exact h.pressKey m key hm
  | releaseKey key => exact h.releaseKey m key hm
  | takeDirty => exact h.takeDirty m hm

theorem Kept.performAll (h : Kept P) {m : Machine} (hm : P m) (operations : List Operation) :
    P (m.performAll operations).machine := by
  induction operations generalizing m with
  | nil => exact hm
  | cons operation rest ih => exact ih (h.perform hm operation)

theorem Kept.of_reachable (h : Kept P) (hinit : ∀ random, P (initial random)) {m : Machine}
    (hm : m.Reachable) : P m := by
  obtain ⟨random, operations, rfl⟩ := hm
  exact h.performAll (hinit random) operations

theorem Kept.forall_mem_stepStarts (h : Kept P) {m : Machine} (hm : P m) (operation : Operation) :
    ∀ s ∈ m.stepStarts operation, P s := by
  cases operation with
  | step => simpa [stepStarts] using hm
  | run count => exact forall_mem_starts h.step hm count
  | cycle => exact forall_mem_starts h.step (h.tick m hm) _
  | configure | load | loadFile | tick | pressKey | releaseKey | takeDirty => simp [stepStarts]

end Invariant

end ChipEight.Machine
