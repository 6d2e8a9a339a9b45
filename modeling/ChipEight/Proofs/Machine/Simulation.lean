import ChipEight.Proofs.Machine.History
/-!
Two machines side by side: a relation between machines that all operations keep, as long as the
instructions that they execute keep it, with the same replies and the same reports.

`Simulation.step` is the case of one step, and `Simulation.performAll` the induction over operations.
-/

namespace ChipEight

variable {R : Machine → Machine → Prop}

/-- The same answer, the same reports, and machines that are related. -/
structure Outcome.Related {α : Type} (R : Machine → Machine → Prop) (o p : Outcome α) : Prop where
  result : o.result = p.result
  log : o.log = p.log
  machine : R o.machine p.machine

theorem Outcome.Related.map {α β : Type} {o p : Outcome α} (h : o.Related R p) (f : α → β) :
    (o.map f).Related R (p.map f) where
  result := congrArg f h.result
  log := h.log
  machine := h.machine

namespace Machine

variable {m n : Machine}

/-- The effect of the instruction is reported alike on two machines, and following it leads to related
machines or to the same fault. -/
structure ActsAlike (R : Machine → Machine → Prop) (m n : Machine) (i : Instruction) : Prop where
  log : m.actedLog i = n.actedLog i
  fault : ((m.acted i).follow m.pc (m.control i)).2 = ((n.acted i).follow n.pc (n.control i)).2
  machine : R ((m.acted i).follow m.pc (m.control i)).1 ((n.acted i).follow n.pc (n.control i)).1

/-- What a relation has to survive besides instructions and settings: related machines agree in what
decides on their steps, and all that is done to both keeps them related. -/
structure Simulation (R : Machine → Machine → Prop) : Prop where
  state : ∀ {m n}, R m n → n.state = m.state
  pc : ∀ {m n}, R m n → n.pc = m.pc
  memory : ∀ {m n}, R m n → n.memory = m.memory
  latch : ∀ {m n}, R m n → n.keypad.latch = m.keypad.latch
  opsPerCycle : ∀ {m n}, R m n → n.config.opsPerCycle = m.config.opsPerCycle
  stop : ∀ {m n}, R m n → ∀ pc,
    R { m with pc := pc, state := .halted } { n with pc := pc, state := .halted }
  receive : ∀ {m n}, R m n → ∀ x key, R (m.received x key) (n.received x key)
  tick : ∀ {m n}, R m n → R m.tick n.tick
  load : ∀ {m n}, R m n → ∀ rom, (m.load rom).Related R (n.load rom)
  pressKey : ∀ {m n}, R m n → ∀ key, (m.pressKey key).Related R (n.pressKey key)
  releaseKey : ∀ {m n}, R m n → ∀ key, (m.releaseKey key).Related R (n.releaseKey key)
  takeDirty : ∀ {m n}, R m n → m.takeDirty.Related R n.takeDirty

theorem related_run {count : Nat} (h : R m n)
    (hsteps : ∀ s ∈ m.starts count, ∀ t, R s t → s.step.Related R t.step) :
    (m.run count).Related R (n.run count) := by
  induction count generalizing m n with
  | zero => exact ⟨rfl, rfl, h⟩
  | succ count ih =>
      rw [starts] at hsteps
      obtain ⟨hfirst, hrest⟩ := List.forall_mem_cons.mp hsteps
      have hstep := hfirst n h
      -- The results are equal, so that both runs end here or both go on.
      by_cases hends : Step.endsRun m.step.result
      · have hends' := hstep.result ▸ hends
        rw [run_succ_of_ends hends, run_succ_of_ends hends', hstep.result]
        exact ⟨rfl, hstep.log, hstep.machine⟩
      · have hends' := hstep.result ▸ hends
        rw [if_neg hends] at hrest
        have hothers := ih hstep.machine hrest
        rw [run_succ_of_goes_on hends, run_succ_of_goes_on hends', hstep.result, hothers.result,
          hstep.log, hothers.log]
        exact ⟨rfl, rfl, hothers.machine⟩

namespace Simulation

variable (hR : Simulation R)

include hR

theorem halt (h : R m n) :
    R { m with state := .halted } { n with state := .halted } := by
  have hstop := hR.stop h m.pc
  have hpc : ({ n with pc := m.pc, state := .halted } : Machine) = { n with state := .halted } := by
    rw [← hR.pc h]
  rwa [hpc] at hstop

theorem exists_takes (h : R m n) (hacts : ∀ i, m.Fetches i → ActsAlike R m n i)
    {outcome : Outcome (Except Fault Step)} (hm : m.Takes outcome) :
    ∃ other, n.Takes other ∧ outcome.Related R other := by
  have hstates := hR.state h
  have hlatches := hR.latch h
  have hpcs := hR.pc h
  have hmemories := hR.memory h
  -- The machines agree in what decides on the rule, so that the same one applies.
  cases hm with
  | halted hstate => exact ⟨_, .halted (hstates.trans hstate), rfl, rfl, h⟩
  | waits hstate hlatch =>
      exact ⟨_, .waits (hstates.trans hstate) (hlatches.trans hlatch), rfl, rfl, h⟩
  | @receives x key hstate hlatch =>
      refine ⟨_, .receives (hstates.trans hstate) (hlatches.trans hlatch), rfl, ?_, hR.receive h x key⟩
      rw [hmemories, hpcs]
  | @misses pc hstate hfetch =>
      rw [← hmemories, ← hpcs] at hfetch
      exact ⟨_, .misses (hstates.trans hstate) hfetch, rfl, rfl, hR.stop h pc⟩
  | @executes hi lo i after hstate hfetch hdecode hfollow =>
      obtain ⟨hlog, hfault, hafter⟩ := hacts i ⟨hstate, hi, lo, hfetch, hdecode⟩
      rw [← hmemories, ← hpcs] at hfetch
      rw [hfollow] at hfault hafter
      exact ⟨_, .executes (hstates.trans hstate) hfetch hdecode (Prod.ext rfl hfault.symm), rfl, hlog,
        hafter⟩
  | @faults hi lo i after fault hstate hfetch hdecode hfollow =>
      obtain ⟨hlog, hfault, hafter⟩ := hacts i ⟨hstate, hi, lo, hfetch, hdecode⟩
      rw [← hmemories, ← hpcs] at hfetch
      rw [hfollow] at hfault hafter
      refine ⟨_, .faults (hstates.trans hstate) hfetch hdecode (Prod.ext rfl hfault.symm), rfl, ?_,
        hR.halt hafter⟩
      rw [hlog]

theorem step (h : R m n) (hacts : ∀ i, m.Fetches i → ActsAlike R m n i) :
    m.step.Related R n.step := by
  obtain ⟨other, htakes, hrelated⟩ := hR.exists_takes h hacts m.takes_step
  rwa [step_eq_of_takes htakes]

theorem cycle (h : R m n)
    (hsteps : ∀ s ∈ m.stepStarts .cycle, ∀ t, R s t → s.step.Related R t.step) :
    m.cycle.Related R n.cycle := by
  have hrun := related_run (hR.tick h) hsteps
  have hcount := hR.opsPerCycle h
  refine ⟨?_, ?_, ?_⟩
  · simp only [Machine.cycle, hcount, hrun.result]
  · simp only [Machine.cycle, hcount, hrun.log]
  · simp only [Machine.cycle, hcount, hrun.machine]

theorem perform {operation : Operation} (h : R m n)
    (hsettings : ∀ setting, operation = .configure setting →
      R (m.configure setting) (n.configure setting))
    (hsteps : ∀ s ∈ m.stepStarts operation, ∀ t, R s t → s.step.Related R t.step) :
    (m.perform operation).Related R (n.perform operation) := by
  cases operation with
  | configure setting => exact ⟨rfl, rfl, hsettings setting rfl⟩
  | load rom => exact (hR.load h rom).map _
  | loadFile path contents =>
      cases contents with
      | error reason => exact ⟨rfl, rfl, h⟩
      | ok rom => exact ((hR.load h rom).map _).map _
  | step => exact (hsteps m (List.mem_singleton_self m) n h).map _
  | run count => exact (related_run h hsteps).map _
  | cycle => exact (hR.cycle h hsteps).map _
  | tick => exact ⟨rfl, rfl, hR.tick h⟩
  | pressKey key => exact (hR.pressKey h key).map _
  | releaseKey key => exact (hR.releaseKey h key).map _
  | takeDirty => exact (hR.takeDirty h).map _

theorem performAll {operations : List Operation} (h : R m n)
    (hsettings : ∀ setting, .configure setting ∈ operations →
      ∀ {m n}, R m n → R (m.configure setting) (n.configure setting))
    (hsteps : ∀ s ∈ m.history operations, ∀ t, R s t → s.step.Related R t.step) :
    (m.performAll operations).Related R (n.performAll operations) := by
  induction operations generalizing m n with
  | nil => exact ⟨rfl, rfl, h⟩
  | cons operation rest ih =>
      obtain ⟨hfirst, hrest⟩ := List.forall_mem_append.mp hsteps
      have hperform : (m.perform operation).Related R (n.perform operation) := by
        refine hR.perform h ?_ hfirst
        rintro setting rfl
        exact hsettings setting List.mem_cons_self h
      have hothers := ih hperform.machine
        (fun setting hmem => hsettings setting (List.mem_cons_of_mem _ hmem)) hrest
      refine ⟨?_, ?_, hothers.machine⟩
      · simp only [Machine.performAll, hperform.result, hothers.result]
      · simp only [Machine.performAll, hperform.log, hothers.log]

end Simulation

end Machine

end ChipEight
