import ChipEight.Proofs.Machine.Runs
import Mathlib.Data.List.Induction

namespace ChipEight

/-- The key that an operation presses, if it presses one. -/
def Operation.press? : Operation → Option Key
  | .pressKey key => Key.ofByte? key
  | _ => none

/-- An operation that neither loads a program nor changes a setting. -/
def Operation.Ordinary : Operation → Prop
  | .configure _ | .load _ | .loadFile _ _ => False
  | _ => True

def lastPress (operations : List Operation) : Option Key :=
  (operations.filterMap Operation.press?).getLast?

theorem getLast?_filterMap_concat {α β : Type} (f : α → Option β) (l : List α) (a : α) :
    ((l ++ [a]).filterMap f).getLast? = (f a).or (l.filterMap f).getLast? := by
  rw [List.filterMap_append, List.getLast?_append]
  cases hlast : f a with
  | none => simp [hlast]
  | some b => simp [hlast]

theorem lastPress_concat (operations : List Operation) (operation : Operation) :
    lastPress (operations ++ [operation]) = operation.press?.or (lastPress operations) :=
  getLast?_filterMap_concat Operation.press? operations operation

namespace Machine

/-- No step was taken after a key was pressed. -/
def Unanswered (m : Machine) (operations : List Operation) : Prop :=
  ∀ before operation after, operations = before ++ operation :: after →
    lastPress before ≠ none → (m.performAll before).machine.stepStarts operation = []

theorem unanswered_concat {m : Machine} {operations : List Operation} {operation : Operation} :
    m.Unanswered (operations ++ [operation]) ↔
      m.Unanswered operations ∧
        (lastPress operations ≠ none →
          (m.performAll operations).machine.stepStarts operation = []) := by
  constructor
  · intro h
    constructor
    · rintro before next after rfl hpress
      exact h before next (after ++ [operation]) (by simp) hpress
    · intro hpress
      exact h operations operation [] rfl hpress
  · rintro ⟨hbefore, hlast⟩ before next after heq hpress
    rcases List.eq_nil_or_concat after with rfl | ⟨others, last, rfl⟩
    · obtain ⟨rfl, hnext⟩ := List.append_inj' heq rfl
      cases hnext
      exact hlast hpress
    · refine hbefore before next others ?_ hpress
      rw [List.concat_eq_append, ← List.cons_append, ← List.append_assoc] at heq
      exact (List.append_inj' heq rfl).1

theorem unanswered_of_lastPress_eq_none {m : Machine} {operations : List Operation}
    (h : lastPress operations = none) : m.Unanswered operations := by
  rintro before operation after rfl hpress
  unfold lastPress at h hpress
  rw [List.getLast?_eq_none_iff] at h
  rw [Ne, List.getLast?_eq_none_iff] at hpress
  rw [List.filterMap_append] at h
  exact absurd (List.append_eq_nil_iff.mp h).1 hpress

/-- The second machine waits for a key because the first one executed FX0A: since then only timers,
keys and the dirty flag have changed. -/
def Awaits (m : Machine) (x : UInt8) (latch : Option Key) (s : Machine) : Prop :=
  ∃ timers held dirty, s =
    { m with
      pc := m.pc + 2
      state := .awaitingKey x
      timers := timers
      keypad := { held := held, latch := latch }
      display := { m.display with dirty := dirty } }

theorem awaits_of_executed {m : Machine} {x : UInt8}
    (h : m.step.result = .ok (.executed (.awaitKey x))) :
    x.toNat < 0x10 ∧ m.Awaits x none m.step.machine := by
  obtain ⟨-, ⟨hi, lo, -, hdecode⟩, hfollow⟩ := follow_of_executed h
  have hfits := Instruction.fits_decode hi lo
  rw [← hdecode] at hfits
  have hmachine : _ = m.step.machine := congrArg Prod.fst hfollow
  exact ⟨hfits, m.timers, m.keypad.held, m.display.dirty, hmachine.symm⟩

namespace Awaits

variable {m s : Machine} {x : UInt8} {latch : Option Key}

theorem step_of_none (h : m.Awaits x none s) :
    s.step = { result := .ok .awaitingKey, machine := s } := by
  rcases h with ⟨timers, held, dirty, rfl⟩
  exact step_eq_of_takes (.waits rfl rfl)

theorem step_of_some {key : Key} (hx : x.toNat < 0x10) (h : m.Awaits x (some key) s) :
    s.step =
      { result := .ok (.keyReceived key)
        machine :=
          { s with
            keypad := { s.keypad with latch := none }
            memory :=
              { s.memory with v := ⟨s.memory.v.values.set x.toNat (UInt8.ofNat key.val) hx⟩ }
            state := .running }
        log := [.keyReceived key (m.pc + 2)] } := by
  rcases h with ⟨timers, held, dirty, rfl⟩
  rw [step_eq_of_takes (.receives rfl rfl)]
  simp only [received, Memory.putRegister_of_lt hx]
  rfl

theorem tick (h : m.Awaits x latch s) : m.Awaits x latch s.tick := by
  rcases h with ⟨timers, held, dirty, rfl⟩
  exact ⟨timers.tick, held, dirty, rfl⟩

theorem starts_of_none (h : m.Awaits x none s) (count : Nat) :
    ∀ t ∈ s.starts count, t = s := by
  cases count with
  | zero =>
      rintro t ⟨⟩
  | succ count =>
      intro t ht
      have hends : Step.endsRun s.step.result := by
        rw [h.step_of_none]
        rfl
      rw [starts, if_pos hends] at ht
      exact List.mem_singleton.mp ht

theorem machine_run (h : m.Awaits x latch s) {count : Nat}
    (hanswer : latch ≠ none → s.starts count = []) : (s.run count).machine = s := by
  rw [run_eq]
  cases hlast : (s.starts count).getLast? with
  | none => rfl
  | some t =>
      have ht := List.mem_of_getLast? hlast
      cases latch with
      | some key =>
          rw [hanswer (by simp)] at ht
          cases ht
      | none =>
          rw [h.starts_of_none count t ht]
          simp [h.step_of_none]

theorem perform (h : m.Awaits x latch s) {operation : Operation} (hordinary : operation.Ordinary)
    (hanswer : latch ≠ none → s.stepStarts operation = []) :
    m.Awaits x (operation.press?.or latch) (s.perform operation).machine := by
  cases operation with
  | configure | load | loadFile => cases hordinary
  -- Until a key is pressed the steps change nothing, and from then on there are none.
  | run count =>
      show m.Awaits x latch (s.run count).machine
      rw [h.machine_run hanswer]
      exact h
  | cycle =>
      show m.Awaits x latch (s.tick.run s.config.opsPerCycle).machine
      rw [h.tick.machine_run hanswer]
      exact h.tick
  | step =>
      cases latch with
      | none =>
          show m.Awaits x none s.step.machine
          rw [h.step_of_none]
          exact h
      | some key => cases hanswer (by simp)
  | tick => exact h.tick
  | takeDirty =>
      rcases h with ⟨timers, held, dirty, rfl⟩
      exact ⟨timers, held, false, rfl⟩
  | pressKey key =>
      obtain ⟨held, hpressed⟩ := s.exists_machine_pressKey key
      show m.Awaits x ((Key.ofByte? key).or latch) (s.pressKey key).machine
      rw [hpressed]
      rcases h with ⟨timers, -, dirty, rfl⟩
      exact ⟨timers, held, dirty, rfl⟩
  | releaseKey key =>
      obtain ⟨held, hreleased⟩ := s.exists_machine_releaseKey key
      show m.Awaits x latch (s.releaseKey key).machine
      rw [hreleased]
      rcases h with ⟨timers, -, dirty, rfl⟩
      exact ⟨timers, held, dirty, rfl⟩

theorem performAll (h : m.Awaits x none s) {operations : List Operation}
    (hordinary : ∀ operation ∈ operations, operation.Ordinary)
    (hunanswered : s.Unanswered operations) :
    m.Awaits x (lastPress operations) (s.performAll operations).machine := by
  -- The latch holds the last press of the operations so far, so the list grows at its end.
  induction operations using List.reverseRecOn with
  | nil => exact h
  | append_singleton operations operation ih =>
      obtain ⟨hbefore, hanswer⟩ := unanswered_concat.mp hunanswered
      have hwaits := ih (fun o ho => hordinary o (List.mem_append_left _ ho)) hbefore
      rw [machine_performAll_append, lastPress_concat]
      exact hwaits.perform (hordinary operation (by simp)) hanswer

theorem of_mem_stepStarts (h : m.Awaits x none s) (operation : Operation) :
    ∀ t ∈ s.stepStarts operation, m.Awaits x none t := by
  cases operation with
  | step =>
      intro t ht
      rwa [List.mem_singleton.mp ht]
  | run count =>
      intro t ht
      rwa [h.starts_of_none count t ht]
  | cycle =>
      intro t ht
      rw [h.tick.starts_of_none _ t ht]
      exact h.tick
  | configure | load | loadFile | tick | pressKey | releaseKey | takeDirty =>
      rintro t ⟨⟩

theorem of_head_stepStarts (h : m.Awaits x latch s) {operation : Operation} {t : Machine}
    (ht : (s.stepStarts operation).head? = some t) : m.Awaits x latch t := by
  cases operation with
  | step => rwa [← Option.some.inj ht]
  | run count => rwa [eq_of_head?_starts ht]
  | cycle =>
      rw [eq_of_head?_starts ht]
      exact h.tick
  | configure | load | loadFile | tick | pressKey | releaseKey | takeDirty => cases ht

end Awaits

section Waits

variable {m s : Machine} {x : UInt8} {key : Key} {count : Nat}

theorem step_of_waiting (hstate : m.state = .awaitingKey x) (hlatch : m.keypad.latch = none) :
    m.step = { result := .ok .awaitingKey, machine := m } :=
  step_eq_of_takes (.waits hstate hlatch)

theorem result_of_waiting (hstate : m.state = .awaitingKey x) (hlatch : m.keypad.latch = none)
    (count : Nat) : ∀ s ∈ m.starts count, s.step.result = .ok .awaitingKey := by
  intro s hs
  have hstep := step_of_waiting hstate hlatch
  cases count with
  | zero => cases hs
  | succ count =>
      rw [starts, hstep] at hs
      rw [List.mem_singleton.mp hs, hstep]

theorem waits_step (h : m.step.machine.state = .awaitingKey x) :
    m.step.machine.keypad.latch = none ∧
      (m.step.result = .ok (.executed (.awaitKey x)) ∨
        m.step = { result := .ok .awaitingKey, machine := m }) := by
  have hstep := m.takes_step
  generalize m.step = outcome at h hstep
  cases hstep with
  | halted hstate =>
      rw [hstate] at h
      cases h
  | misses | receives | faults => cases h
  | waits hstate hlatch => exact ⟨hlatch, .inr rfl⟩
  | @executes hi lo i after hstate hfetch hdecode hfollow =>
      obtain ⟨stack, pc, heq⟩ := exists_follow_eq (m.acted i) m.pc (m.control i)
      rw [hfollow] at heq
      change after = _ at heq
      subst heq
      change (m.effect i).value.1.state = _ at h
      rw [state_effect] at h
      cases i with
      | awaitKey y =>
          cases h
          exact ⟨rfl, .inl rfl⟩
      | _ => cases hstate.symm.trans h

theorem waits_run (h : (m.run count).machine.state = .awaitingKey x) :
    ((m.run count).machine = m ∧ ∀ s ∈ m.starts count, s.step.result = .ok .awaitingKey) ∨
      (m.run count).machine.keypad.latch = none ∧
        ∃ s ∈ m.starts count, s.step.result = .ok (.executed (.awaitKey x)) := by
  induction count generalizing m with
  | zero => exact .inl ⟨rfl, by simp [starts]⟩
  | succ count ih =>
      rw [starts]
      by_cases hends : Step.endsRun m.step.result
      · rw [run_succ_of_ends hends] at h ⊢
        rw [if_pos hends]
        obtain ⟨hlatch, hbegun | hfound⟩ := waits_step h
        · exact .inr ⟨hlatch, m, List.mem_singleton_self m, hbegun⟩
        · rw [hfound]
          refine .inl ⟨rfl, ?_⟩
          intro s hs
          rw [List.mem_singleton.mp hs, hfound]
      · rw [run_succ_of_goes_on hends] at h ⊢
        rw [if_neg hends]
        rcases ih h with ⟨hkept, -⟩ | ⟨hlatch, s, hs, hbegun⟩
        · -- A step that finds no key ends the run, so that the first one has begun the wait.
          change (m.step.machine.run count).machine.state = _ at h
          rw [hkept] at h ⊢
          obtain ⟨hlatch, hbegun | hfound⟩ := waits_step h
          · exact .inr ⟨hlatch, m, List.mem_cons_self, hbegun⟩
          · rw [hfound] at hends
            exact absurd rfl hends
        · exact .inr ⟨hlatch, s, List.mem_cons_of_mem _ hs, hbegun⟩

theorem awaiting_of_received (h : s.step.result = .ok (.keyReceived key)) :
    ∃ x, s.state = .awaitingKey x ∧ s.keypad.latch = some key := by
  have hstep := s.takes_step
  generalize s.step = outcome at h hstep
  cases hstep with
  | receives hstate hlatch =>
      cases h
      exact ⟨_, hstate, hlatch⟩
  | halted | waits | misses | executes | faults => cases h

/-- No wait begins and ends in the same run. -/
theorem eq_of_received (hs : s ∈ m.starts count) (h : s.step.result = .ok (.keyReceived key)) :
    s = m := by
  cases count with
  | zero => cases hs
  | succ count =>
      rw [starts] at hs
      rcases List.mem_cons.mp hs with rfl | hs
      · rfl
      · split at hs
        · cases hs
        · have hlatch := forall_mem_starts (P := fun n => ∀ x, n.state = .awaitingKey x →
            n.keypad.latch = none) (fun n _ x hn => (waits_step hn).1)
            (fun x hn => (waits_step hn).1) count s hs
          obtain ⟨x, hstate, hsome⟩ := awaiting_of_received h
          rw [hlatch x hstate] at hsome
          cases hsome

end Waits

theorem awaitKey_resolves {m : Machine} {x : UInt8}
    (h : m.step.result = .ok (.executed (.awaitKey x))) {operations : List Operation}
    (hordinary : ∀ operation ∈ operations, operation.Ordinary) :
    let waiting := (m.step.machine.performAll operations).machine
    (lastPress operations = none → ∀ operation, ∀ s ∈ waiting.stepStarts operation,
      m.Awaits x none s ∧ s.step = { result := .ok .awaitingKey, machine := s }) ∧
    ∀ key, lastPress operations = some key → m.step.machine.Unanswered operations →
      ∀ operation s, (waiting.stepStarts operation).head? = some s →
        m.Awaits x (some key) s ∧ s.step.machine.pc = m.pc + 2 ∧
        ∃ hx : x.toNat < 0x10, s.step =
          { result := .ok (.keyReceived key)
            machine :=
              { s with
                keypad := { s.keypad with latch := none }
                memory :=
                  { s.memory with v := ⟨s.memory.v.values.set x.toNat (UInt8.ofNat key.val) hx⟩ }
                state := .running }
            log := [.keyReceived key (m.pc + 2)] } := by
  obtain ⟨hx, hawaits⟩ := awaits_of_executed h
  intro waiting
  constructor
  · intro hpress operation s hs
    have hwaiting := hawaits.performAll hordinary (unanswered_of_lastPress_eq_none hpress)
    rw [hpress] at hwaiting
    have hstart := hwaiting.of_mem_stepStarts operation s hs
    exact ⟨hstart, hstart.step_of_none⟩
  · intro key hpress hunanswered operation s hs
    have hwaiting := hawaits.performAll hordinary hunanswered
    rw [hpress] at hwaiting
    have hstart := hwaiting.of_head_stepStarts hs
    have hstep := hstart.step_of_some hx
    refine ⟨hstart, ?_, hx, hstep⟩
    rw [hstep]
    obtain ⟨timers, held, dirty, rfl⟩ := hstart
    rfl

/-- Key 7 is pressed before the wait, key 5 and then key 3 during it, and 16 is no key. -/
theorem awaitKey_resolves_to_last_press :
    let m := ((initial (.ofSeed 0)).performAll [.load [0xF1, 0x0A], .pressKey 7]).machine
    let operations : List Operation := [.cycle, .pressKey 5, .pressKey 3, .releaseKey 3, .pressKey 16]
    m.step.result = .ok (.executed (.awaitKey 1)) ∧
      (∀ operation ∈ operations, operation.Ordinary) ∧
      lastPress operations = some 3 ∧ m.step.machine.Unanswered operations ∧
      (m.step.machine.performAll operations).machine.step.result = .ok (.keyReceived 3) := by
  intro m operations
  have h : m.step.result = .ok (.executed (.awaitKey 1)) := by decide +kernel
  have hordinary : ∀ operation ∈ operations, operation.Ordinary := by
    simp [operations, Operation.Ordinary]
  have hpress : lastPress operations = some 3 := by decide
  have hcycle : m.step.machine.Unanswered [.cycle] :=
    unanswered_of_lastPress_eq_none (by decide)
  have hfive : m.step.machine.Unanswered ([.cycle] ++ [.pressKey 5]) :=
    unanswered_concat.mpr ⟨hcycle, fun _ => rfl⟩
  have hthree : m.step.machine.Unanswered ([.cycle, .pressKey 5] ++ [.pressKey 3]) :=
    unanswered_concat.mpr ⟨hfive, fun _ => rfl⟩
  have hrelease :
      m.step.machine.Unanswered ([.cycle, .pressKey 5, .pressKey 3] ++ [.releaseKey 3]) :=
    unanswered_concat.mpr ⟨hthree, fun _ => rfl⟩
  have hunanswered : m.step.machine.Unanswered operations :=
    unanswered_concat.mpr ⟨hrelease, fun _ => rfl⟩
  obtain ⟨-, hresolved⟩ := awaitKey_resolves h hordinary
  obtain ⟨-, -, hx, hstep⟩ := hresolved 3 hpress hunanswered .step _ rfl
  refine ⟨h, hordinary, hpress, hunanswered, ?_⟩
  rw [hstep]

end Machine

end ChipEight
