import ChipEight.Proofs.Machine.Effect
import ChipEight.Proofs.Memory.Fetch
/-!
The rules by which a machine takes a step.

`takes_step` and `step_eq_of_takes` are the two places where a step is opened up; what later proofs
know about a step they know by cases on `Takes`.
-/

namespace ChipEight.Machine

/-- The machine in which an instruction has had its effect, with the program counter behind the
instruction. -/
def acted (m : Machine) (i : Instruction) : Machine :=
  { (m.effect i).value.1 with
    pc := m.pc + 2
    anomalies := m.anomalies + (m.effect i).rejected.length }

/-- What is reported until an instruction has had its effect. -/
def actedLog (m : Machine) (i : Instruction) : List Event :=
  .executing ⟨m.pc, i⟩ :: ((m.effect i).rejected.map (.rejected m.pc) ++ i.remarks m.pc)

/-- The machine in which a key has ended the wait. -/
def received (m : Machine) (x : UInt8) (key : Key) : Machine :=
  { m with
    keypad := { m.keypad with latch := none }
    memory := (m.memory.putRegister x (UInt8.ofNat key.val)).value
    state := .running
    anomalies := m.anomalies + (m.memory.putRegister x (UInt8.ofNat key.val)).rejected.length }

inductive Takes (m : Machine) : Outcome (Except Fault Step) → Prop
  | halted (hstate : m.state = .halted) :
      Takes m { result := .error .halted, machine := m }
  | waits {x : UInt8} (hstate : m.state = .awaitingKey x) (hlatch : m.keypad.latch = none) :
      Takes m { result := .ok .awaitingKey, machine := m }
  | receives {x : UInt8} {key : Key} (hstate : m.state = .awaitingKey x)
      (hlatch : m.keypad.latch = some key) :
      Takes m
        { result := .ok (.keyReceived key)
          machine := m.received x key
          log := .keyReceived key m.pc ::
            (m.memory.putRegister x (UInt8.ofNat key.val)).rejected.map (.rejected (m.pc - 2)) }
  | misses {pc : UInt16} (hstate : m.state = .running) (hfetch : m.memory.fetch m.pc = .error pc) :
      Takes m
        { result := .error (.fetchOutOfBounds pc)
          machine := { m with pc := pc, state := .halted }
          log := [.stopped (.fetchOutOfBounds pc)] }
  | executes {hi lo : UInt8} {i : Instruction} {after : Machine} (hstate : m.state = .running)
      (hfetch : m.memory.fetch m.pc = .ok (hi, lo)) (hdecode : i = .decode hi lo)
      (hfollow : (m.acted i).follow m.pc (m.control i) = (after, none)) :
      Takes m { result := .ok (.executed i), machine := after, log := m.actedLog i }
  | faults {hi lo : UInt8} {i : Instruction} {after : Machine} {fault : Fault}
      (hstate : m.state = .running) (hfetch : m.memory.fetch m.pc = .ok (hi, lo))
      (hdecode : i = .decode hi lo)
      (hfollow : (m.acted i).follow m.pc (m.control i) = (after, some fault)) :
      Takes m
        { result := .error fault
          machine := { after with state := .halted }
          log := m.actedLog i ++ [.stopped fault] }

theorem level_of_mem_remarks {i : Instruction} {address : UInt16} {e : Event}
    (h : e ∈ i.remarks address) : e.level = .warn ∨ e.level = .debug := by
  cases i with
  | awaitKey x =>
      rw [List.mem_singleton.mp h]
      exact .inr rfl
  | unknown word =>
      rw [List.mem_singleton.mp h]
      exact .inl rfl
  | _ => cases h

theorem filter_level_actedLog (m : Machine) (i : Instruction) {level : Level}
    (hwarn : level ≠ .warn) (hdebug : level ≠ .debug) :
    (m.actedLog i).filter (·.level = level) =
      if level = .trace then [.executing ⟨m.pc, i⟩] else [] := by
  have hrest : ((m.effect i).rejected.map (Event.rejected m.pc) ++ i.remarks m.pc).filter
      (fun e : Event => e.level = level) = [] := by
    apply List.filter_eq_nil_iff.mpr
    intro e he
    rw [decide_eq_true_eq]
    rcases List.mem_append.mp he with he | he
    · obtain ⟨error, -, rfl⟩ := List.mem_map.mp he
      exact hwarn.symm
    · rcases level_of_mem_remarks he with hlevel | hlevel
      · exact fun h => hwarn (h.symm.trans hlevel)
      · exact fun h => hdebug (h.symm.trans hlevel)
  rw [actedLog, List.filter_cons, hrest]
  have hhead : (Event.executing ⟨m.pc, i⟩).level = .trace := rfl
  by_cases htrace : level = .trace
  · rw [if_pos htrace, if_pos (decide_eq_true (hhead.trans htrace.symm))]
  · rw [if_neg htrace, if_neg (by simpa [hhead] using Ne.symm htrace)]

theorem stack_acted (m : Machine) (i : Instruction) : (m.acted i).stack = m.stack :=
  stack_effect m i

theorem toNat_pc_acted {m : Machine} {hi lo : UInt8} (hfetch : m.memory.fetch m.pc = .ok (hi, lo))
    (i : Instruction) : (m.acted i).pc.toNat = m.pc.toNat + 2 := by
  obtain ⟨hlt, -⟩ := Memory.fetch_eq_ok hfetch
  exact Memory.toNat_succ_succ (by omega)

theorem acted_eq (m : Machine) (i : Instruction) :
    let effect := ({ m with pc := m.pc + 2 } : Machine).effect i
    m.acted i =
      { effect.value.1 with anomalies := effect.value.1.anomalies + effect.rejected.length } := by
  have hvalue := value_effect_with m i m.stack (m.pc + 2) m.anomalies
  have hrejected := rejected_effect_with m i m.stack (m.pc + 2) m.anomalies
  simp only [hvalue, hrejected, acted]
  congr 1
  exact stack_effect m i

theorem execute_eq (m : Machine) (i : Instruction) :
    ({ m with pc := m.pc + 2 } : Machine).execute m.pc i =
      let followed := (m.acted i).follow m.pc (m.control i)
      let outcome : Outcome (Except Fault Step) :=
        match followed.2 with
        | none => { result := .ok (.executed i), machine := followed.1 }
        | some fault => followed.1.halt fault
      { outcome with
        log := (m.effect i).rejected.map (.rejected m.pc) ++ i.remarks m.pc ++ outcome.log } := by
  have hvalue := value_effect_with m i m.stack (m.pc + 2) m.anomalies
  have hrejected := rejected_effect_with m i m.stack (m.pc + 2) m.anomalies
  have htransfer : (({ m with pc := m.pc + 2 } : Machine).effect i).value.2 = m.control i := by
    rw [hvalue, transfer_effect]
  have hacted := acted_eq m i
  simp only [hrejected] at hacted
  rcases hfollow : (m.acted i).follow m.pc (m.control i) with ⟨after, _ | fault⟩
  · simp only [execute, hrejected, htransfer, ← hacted, hfollow]
  · simp only [execute, hrejected, htransfer, ← hacted, hfollow]

theorem takes_step (m : Machine) : m.Takes m.step := by
  unfold step
  split
  · next hstate => exact .halted hstate
  · next x hstate =>
      unfold pollKey Keypad.takePress
      split
      · next hlatch => exact .waits hstate (Prod.ext_iff.mp hlatch).2
      · next keypad key hlatch =>
          obtain ⟨rfl, hlatch⟩ := Prod.ext_iff.mp hlatch
          exact .receives hstate hlatch
  · next hstate =>
      split
      · next pc hfetch => exact .misses hstate hfetch
      · next hi lo hfetch =>
          simp only [execute_eq]
          rcases hfollow : (m.acted (.decode hi lo)).follow m.pc (m.control (.decode hi lo)) with
            ⟨after, _ | fault⟩
          · have h := Takes.executes hstate hfetch rfl hfollow
            simpa [actedLog] using h
          · have h := Takes.faults hstate hfetch rfl hfollow
            simpa [actedLog, halt] using h

/-- At most one rule applies. -/
theorem Takes.unique {m : Machine} {first second : Outcome (Except Fault Step)}
    (hfirst : m.Takes first) (hsecond : m.Takes second) : first = second := by
  cases hfirst <;> cases hsecond <;> simp_all

theorem step_eq_of_takes {m : Machine} {outcome : Outcome (Except Fault Step)}
    (h : m.Takes outcome) : m.step = outcome :=
  m.takes_step.unique h

theorem follow_of_executed {m : Machine} {i : Instruction}
    (h : m.step.result = .ok (.executed i)) :
    m.state = .running ∧
      (∃ hi lo, m.memory.fetch m.pc = .ok (hi, lo) ∧ i = .decode hi lo) ∧
      (m.acted i).follow m.pc (m.control i) = (m.step.machine, none) := by
  have hstep := m.takes_step
  generalize m.step = outcome at h hstep
  cases hstep with
  | executes hstate hfetch hdecode hfollow =>
      cases h
      exact ⟨hstate, ⟨_, _, hfetch, hdecode⟩, hfollow⟩
  | halted | waits | receives | misses | faults => cases h

/-- The machine runs, and the instruction is the one at its program counter. -/
def Fetches (m : Machine) (i : Instruction) : Prop :=
  m.state = .running ∧ ∃ hi lo, m.memory.fetch m.pc = .ok (hi, lo) ∧ i = .decode hi lo

namespace Fetches

variable {m : Machine} {i j : Instruction}

theorem of_executed (h : m.step.result = .ok (.executed i)) : m.Fetches i := by
  obtain ⟨hrunning, hfetched, -⟩ := follow_of_executed h
  exact ⟨hrunning, hfetched⟩

theorem fits (h : m.Fetches i) : i.Fits := by
  obtain ⟨-, hi, lo, -, rfl⟩ := h
  exact Instruction.fits_decode hi lo

theorem unique (hfirst : m.Fetches i) (hsecond : m.Fetches j) : i = j := by
  obtain ⟨-, hi, lo, hfetch, rfl⟩ := hfirst
  obtain ⟨-, hi', lo', hfetch', rfl⟩ := hsecond
  rw [hfetch] at hfetch'
  cases hfetch'
  rfl

theorem toNat_pc_lt (h : m.Fetches i) : m.pc.toNat + 1 < 0x1000 := by
  obtain ⟨-, hi, lo, hfetch, -⟩ := h
  exact (Memory.fetch_eq_ok hfetch).1

theorem step_eq (h : m.Fetches i) :
    m.step =
      match (m.acted i).follow m.pc (m.control i) with
      | (after, none) =>
        { result := .ok (.executed i), machine := after, log := m.actedLog i }
      | (after, some fault) =>
        { result := .error fault
          machine := { after with state := .halted }
          log := m.actedLog i ++ [.stopped fault] } := by
  obtain ⟨hrunning, hi, lo, hfetch, hdecode⟩ := h
  rcases hfollow : (m.acted i).follow m.pc (m.control i) with ⟨after, _ | fault⟩
  · exact step_eq_of_takes (.executes hrunning hfetch hdecode hfollow)
  · exact step_eq_of_takes (.faults hrunning hfetch hdecode hfollow)

theorem eq_executed (h : m.Fetches i) {step : Step} (hstep : m.step.result = .ok step) :
    step = .executed i := by
  rw [h.step_eq] at hstep
  split at hstep
  · exact (Except.ok.inj hstep).symm
  · cases hstep

theorem executed_of_next (h : m.Fetches i) (hnext : m.control i = .next) :
    m.step.result = .ok (.executed i) := by
  rw [h.step_eq, hnext]
  rfl

theorem machine_of_next (h : m.Fetches i) (hnext : m.control i = .next) :
    m.step.machine = m.acted i := by
  rw [h.step_eq, hnext]
  rfl

end Fetches

/-- The instruction that the next step fetches, if it fetches one. -/
def fetched? (m : Machine) : Option Instruction :=
  match m.state, m.memory.fetch m.pc with
  | .running, .ok (hi, lo) => some (.decode hi lo)
  | _, _ => none

/-- The instruction that the next step executes, if it executes one. -/
def executed? (m : Machine) : Option Instruction :=
  match m.step.result with
  | .ok (.executed i) => some i
  | _ => none

theorem fetched?_eq_some_iff {m : Machine} {i : Instruction} :
    m.fetched? = some i ↔ m.Fetches i := by
  unfold fetched? Fetches
  constructor
  · intro h
    split at h
    · next hi lo hstate hfetch => exact ⟨hstate, hi, lo, hfetch, (Option.some.inj h).symm⟩
    · cases h
  · rintro ⟨hstate, hi, lo, hfetch, rfl⟩
    rw [hstate, hfetch]

theorem executed?_eq_some_iff {m : Machine} {i : Instruction} :
    m.executed? = some i ↔ m.step.result = .ok (.executed i) := by
  unfold executed?
  constructor
  · intro h
    split at h
    · next hresult =>
        rw [hresult, Option.some.inj h]
    · cases h
  · intro hresult
    rw [hresult]

theorem executed?_eq_none_iff {m : Machine} :
    m.executed? = none ↔ ∀ i, m.step.result ≠ .ok (.executed i) := by
  simp only [Option.eq_none_iff_forall_ne_some, ne_eq, executed?_eq_some_iff]

theorem Fetches.of_executed? {m : Machine} {i : Instruction} (h : m.executed? = some i) :
    m.Fetches i :=
  .of_executed (executed?_eq_some_iff.mp h)

theorem exists_follow_eq (m : Machine) (address : UInt16) (t : Transfer) :
    ∃ stack pc, (m.follow address t).1 = { m with stack := stack, pc := pc } := by
  cases t with
  | next => exact ⟨m.stack, m.pc, rfl⟩
  | jump target => exact ⟨m.stack, target, rfl⟩
  | skip | call | ret =>
      simp only [follow]
      split
      · exact ⟨_, _, rfl⟩
      · exact ⟨_, _, rfl⟩

theorem follow_map {f : Machine → Machine} {m : Machine} {address : UInt16} {t : Transfer}
    (hmemory : (f m).memory = m.memory) (hstack : (f m).stack = m.stack) (hpc : (f m).pc = m.pc)
    (hcarried : ∀ stack pc,
      f { m with stack := stack, pc := pc } = { f m with stack := stack, pc := pc }) :
    (f m).follow address t = (m.follow address t).map f id := by
  have hmoved : ∀ pc, { f m with pc := pc } = f { m with pc := pc } := by
    intro pc
    rw [hcarried m.stack pc, ← hstack]
  cases t with
  | next => rfl
  | jump target => exact Prod.ext (hmoved target) rfl
  | skip =>
      have hfetch : (f m).memory.fetch (f m).pc = m.memory.fetch m.pc := by rw [hmemory, hpc]
      have hbehind : (f m).pc + 2 = m.pc + 2 := by rw [hpc]
      simp only [follow, hfetch, hbehind]
      cases m.memory.fetch m.pc with
      | ok bytes => exact Prod.ext (hmoved _) rfl
      | error stop => exact Prod.ext (hmoved stop) rfl
  | call target =>
      have hpush : (f m).stack.push? (f m).pc = m.stack.push? m.pc := by rw [hstack, hpc]
      simp only [follow, hpush]
      cases m.stack.push? m.pc with
      | some stack => exact Prod.ext (hcarried stack target).symm rfl
      | none => rfl
  | ret =>
      have hpop : (f m).stack.pop? = m.stack.pop? := by rw [hstack]
      simp only [follow, hpop]
      cases m.stack.pop? with
      | some popped => exact Prod.ext (hcarried popped.2 popped.1).symm rfl
      | none => rfl

theorem follow_eq_fault {m after : Machine} {address : UInt16} {t : Transfer} {fault : Fault}
    (h : m.follow address t = (after, some fault)) :
    (∃ stop, t = .skip ∧ m.memory.fetch m.pc = .error stop ∧
        fault = .fetchOutOfBounds stop ∧ after = { m with pc := stop }) ∨
      (∃ target, t = .call target ∧ m.stack.push? m.pc = none ∧
        fault = .stackOverflow address ∧ after = m) ∨
      (t = .ret ∧ m.stack.pop? = none ∧ fault = .stackUnderflow address ∧ after = m) := by
  cases t with
  | next | jump target => cases h
  | skip =>
      simp only [follow] at h
      split at h
      · cases h
      · next stop hfetch =>
          cases h
          exact .inl ⟨stop, rfl, hfetch, rfl, rfl⟩
  | call target =>
      simp only [follow] at h
      split at h
      · cases h
      · next hpush =>
          cases h
          exact .inr (.inl ⟨target, rfl, hpush, rfl, rfl⟩)
  | ret =>
      simp only [follow] at h
      split at h
      · cases h
      · next hpop =>
          cases h
          exact .inr (.inr ⟨rfl, hpop, rfl, rfl⟩)

theorem acted_of_control {m : Machine} {i : Instruction} (h : m.control i ≠ .next) :
    m.acted i =
      { m with
        pc := m.pc + 2
        anomalies := m.anomalies + (m.effect i).rejected.length } := by
  rw [acted, value_effect_of_control h]

theorem control_ne_next_of_fault {m after : Machine} {address : UInt16} {i : Instruction}
    {fault : Fault} (h : (m.acted i).follow address (m.control i) = (after, some fault)) :
    m.control i ≠ .next ∧ ∃ pc, after = { m.acted i with pc := pc } := by
  rcases follow_eq_fault h with
    ⟨stop, hskip, -, -, rfl⟩ | ⟨target, hcall, -, -, rfl⟩ | ⟨hret, -, -, rfl⟩
  · rw [hskip]
    exact ⟨by simp, stop, rfl⟩
  · rw [hcall]
    exact ⟨by simp, _, rfl⟩
  · rw [hret]
    exact ⟨by simp, _, rfl⟩

/-- What a step does to the data of the machine: it executes an instruction, receives a key, or leaves
all but the control of the machine as it is. -/
theorem step_acts_or_receives_or_keeps (m : Machine) :
    (∃ i stack pc, m.step.result = .ok (.executed i) ∧
        m.step.machine = { m.acted i with stack := stack, pc := pc }) ∨
      (∃ x key, m.step.result = .ok (.keyReceived key) ∧ m.step.machine = m.received x key) ∨
      (∀ i, m.step.result ≠ .ok (.executed i)) ∧
        ∃ pc anomalies state,
          m.step.machine = { m with pc := pc, anomalies := anomalies, state := state } := by
  have hstep := m.takes_step
  generalize m.step = outcome at hstep
  cases hstep with
  | halted | waits => exact .inr (.inr ⟨by simp, m.pc, m.anomalies, m.state, rfl⟩)
  | @misses pc hstate hfetch => exact .inr (.inr ⟨by simp, pc, m.anomalies, .halted, rfl⟩)
  | @receives x key hstate hlatch => exact .inr (.inl ⟨x, key, rfl, rfl⟩)
  | @executes hi lo i after hstate hfetch hdecode hfollow =>
      obtain ⟨stack, pc, heq⟩ := exists_follow_eq (m.acted i) m.pc (m.control i)
      rw [hfollow] at heq
      exact .inl ⟨i, stack, pc, rfl, heq⟩
  | @faults hi lo i after fault hstate hfetch hdecode hfollow =>
      obtain ⟨hcontrol, pc, rfl⟩ := control_ne_next_of_fault hfollow
      rw [acted_of_control hcontrol]
      exact .inr (.inr ⟨by simp, pc, m.anomalies + (m.effect i).rejected.length, .halted, rfl⟩)

end ChipEight.Machine
