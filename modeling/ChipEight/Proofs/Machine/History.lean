import ChipEight.Proofs.Machine.Runs
/-!
Histories: the machines from which the steps of a list of operations start, one after the other, those
within runs and cycles included.

`Passes` follows one part of the machine through a history. `SteppedOnly.passes` says that a part
which only steps and loads change passes from each step to the next as long as nothing is loaded, and
`Undisturbed.passes` that one which loads do not change either passes through them.
-/

namespace ChipEight

/-- The operation that this replies to has loaded a program. -/
def Reply.loads : Reply → Bool
  | loaded (.ok _) | fileLoaded (.ok _) => true
  | _ => false

namespace Machine

def LoadsNothing (m : Machine) (operations : List Operation) : Prop :=
  ∀ reply ∈ (m.performAll operations).result, ¬ reply.loads

def history (m : Machine) : List Operation → List Machine
  | [] => []
  | operation :: rest => m.stepStarts operation ++ (m.perform operation).machine.history rest

theorem loadsNothing_cons {m : Machine} {operation : Operation} {rest : List Operation} :
    m.LoadsNothing (operation :: rest) ↔
      ¬ (m.perform operation).result.loads ∧
        (m.perform operation).machine.LoadsNothing rest :=
  List.forall_mem_cons

/-- Also the steps of a history start from machines that have the invariant. -/
theorem Kept.forall_mem_history {P : Machine → Prop} (h : Kept P) {m : Machine} (hm : P m)
    (operations : List Operation) : ∀ s ∈ m.history operations, P s := by
  induction operations generalizing m with
  | nil =>
      rintro s ⟨⟩
  | cons operation rest ih =>
      intro s hs
      rcases List.mem_append.mp hs with hs | hs
      · exact h.forall_mem_stepStarts hm operation s hs
      · exact ih (h.perform hm operation) s hs

theorem filter_log_performAll (m : Machine) (operations : List Operation) {p : Event → Bool}
    (hp : ∀ size, p (.programLoaded size) = false) :
    (m.performAll operations).log.filter p =
      (m.history operations).flatMap fun s => s.step.log.filter p := by
  induction operations generalizing m with
  | nil => rfl
  | cons operation rest ih =>
      obtain ⟨loads, hloads, hlog⟩ := m.exists_log_perform_eq operation
      have hnone : loads.filter p = [] := by
        apply List.filter_eq_nil_iff.mpr
        intro e he
        obtain ⟨size, rfl⟩ := hloads e he
        simp [hp]
      rw [performAll, history, List.filter_append, ih, hlog, List.filter_append, hnone,
        List.append_nil, List.filter_flatMap, List.flatMap_append]

section Passes

variable {α : Type} {part : Machine → α} {a b c : α} {before history after : List Machine}
  {m s : Machine}

/-- The part is `a` before the steps of a history and `b` after them, and nothing else changes it in
between: each step takes it up as the step before left it. -/
inductive Passes (part : Machine → α) : α → List Machine → α → Prop
  | nil (a : α) : Passes part a [] a
  | cons {s : Machine} {history : List Machine} {a b : α} (hstart : part s = a)
      (hrest : Passes part (part s.step.machine) history b) : Passes part a (s :: history) b

theorem Passes.append (hfirst : Passes part a before b) (hsecond : Passes part b after c) :
    Passes part a (before ++ after) c := by
  induction hfirst with
  | nil => exact hsecond
  | cons hstart _ ih => exact .cons hstart (ih hsecond)

/-- A history in which the part passes, cut at one of its steps. -/
theorem Passes.cut (h : Passes part a (before ++ s :: after) b) :
    Passes part a before (part s) ∧ Passes part (part s.step.machine) after b := by
  induction before generalizing a with
  | nil =>
      cases h with
      | cons hstart hrest => exact ⟨hstart ▸ .nil _, hrest⟩
  | cons u before ih =>
      cases h with
      | cons hstart hrest =>
          obtain ⟨hbefore, hafter⟩ := ih hrest
          exact ⟨.cons hstart hbefore, hafter⟩

theorem Passes.invariant {P : α → Prop} (h : Passes part a history b)
    (hstep : ∀ s ∈ history, P (part s) → P (part s.step.machine)) (ha : P a) : P b := by
  induction h with
  | nil => exact ha
  | cons hstart _ ih =>
      subst hstart
      refine ih (fun s hs => hstep s (List.mem_cons_of_mem _ hs)) ?_
      exact hstep _ List.mem_cons_self ha

theorem Passes.eq_foldl (h : Passes part a history b) {f : α → Machine → α}
    (hstep : ∀ s, part s.step.machine = f (part s) s) : b = history.foldl f a := by
  induction h with
  | nil => rfl
  | cons hstart _ ih =>
      subst hstart
      rw [ih, List.foldl_cons, hstep]

theorem passes_starts (part : Machine → α) (m : Machine) (count : Nat) :
    Passes part (part m) (m.starts count) (part (m.run count).machine) := by
  induction count generalizing m with
  | zero => exact .nil _
  | succ count ih =>
      rw [starts]
      by_cases hends : Step.endsRun m.step.result
      · rw [if_pos hends, run_succ_of_ends hends]
        exact .cons rfl (.nil _)
      · rw [if_neg hends, run_succ_of_goes_on hends]
        exact .cons rfl (ih m.step.machine)

/-- Besides steps, only loads change the part: it is independent of settings, and it is not among what
ticks, keys and the taking of the dirty flag change. -/
structure SteppedOnly (part : Machine → α) : Prop where
  configure : ∀ m setting, part (configure m setting) = part m
  others : ∀ (m : Machine) timers keypad dirty,
    part
      { m with
        timers := timers
        keypad := keypad
        display := { m.display with dirty := dirty } } = part m

theorem load_starts_or_rejects (m : Machine) (rom : List UInt8) :
    (∃ memory, m.load rom =
        { result := .ok (), machine := m.start memory, log := [.programLoaded rom.length] }) ∨
      ∃ e, m.load rom = { result := .error e, machine := m } := by
  unfold load
  split
  · exact .inl ⟨_, rfl⟩
  · exact .inr ⟨_, rfl⟩

theorem exists_start_of_load {rom : List UInt8} (h : Reply.loads (.loaded (m.load rom).result)) :
    ∃ memory, (m.load rom).machine = m.start memory := by
  rcases m.load_starts_or_rejects rom with ⟨memory, hload⟩ | ⟨e, hload⟩
  · rw [hload]
    exact ⟨memory, rfl⟩
  · rw [hload] at h
    cases h

theorem machine_load_of_not_loads {rom : List UInt8}
    (h : ¬ Reply.loads (.loaded (m.load rom).result)) : (m.load rom).machine = m := by
  rcases m.load_starts_or_rejects rom with ⟨memory, hload⟩ | ⟨e, hload⟩
  · rw [hload] at h
    exact absurd rfl h
  · rw [hload]

theorem loads_fileLoaded (result : Except AccessError Unit) :
    Reply.loads (.fileLoaded (result.mapError .rejected)) = Reply.loads (.loaded result) := by
  cases result with
  | ok => rfl
  | error e => rfl

theorem exists_start_of_loads {operation : Operation} (h : (m.perform operation).result.loads) :
    ∃ memory, (m.perform operation).machine = m.start memory := by
  cases operation with
  | load rom => exact exists_start_of_load h
  | loadFile path contents =>
      cases contents with
      | error reason => cases h
      | ok rom => exact exists_start_of_load ((loads_fileLoaded _).symm.trans h)
  | configure | step | run | cycle | tick | pressKey | releaseKey | takeDirty => cases h

/-- Ticks, keys and the taking of the dirty flag do not change the part. -/
def Undisturbed (part : Machine → α) : Prop :=
  ∀ (m : Machine) timers keypad dirty,
    part
      { m with
        timers := timers
        keypad := keypad
        display := { m.display with dirty := dirty } } = part m

namespace Undisturbed

variable (hpart : Undisturbed part)

include hpart

theorem tick (m : Machine) : part m.tick = part m :=
  hpart m m.timers.tick m.keypad m.display.dirty

theorem pressKey (m : Machine) (key : UInt8) : part (m.pressKey key).machine = part m := by
  obtain ⟨held, heq⟩ := m.exists_machine_pressKey key
  rw [heq]
  exact hpart m m.timers _ m.display.dirty

theorem releaseKey (m : Machine) (key : UInt8) : part (m.releaseKey key).machine = part m := by
  obtain ⟨held, heq⟩ := m.exists_machine_releaseKey key
  rw [heq]
  exact hpart m m.timers _ m.display.dirty

theorem takeDirty (m : Machine) : part m.takeDirty.machine = part m :=
  hpart m m.timers m.keypad false

theorem passes_stepStarts {operation : Operation}
    (hsettings : ∀ setting, operation = .configure setting → part (m.configure setting) = part m)
    (hloads : (m.perform operation).result.loads → part (m.perform operation).machine = part m) :
    Passes part (part m) (m.stepStarts operation) (part (m.perform operation).machine) := by
  cases operation with
  | configure setting => exact hsettings setting rfl ▸ .nil _
  | tick => exact hpart.tick m ▸ .nil _
  | pressKey key => exact hpart.pressKey m key ▸ .nil _
  | releaseKey key => exact hpart.releaseKey m key ▸ .nil _
  | takeDirty => exact hpart.takeDirty m ▸ .nil _
  | step => exact .cons rfl (.nil _)
  | run count => exact passes_starts part m count
  | cycle => exact hpart.tick m ▸ passes_starts part m.tick m.config.opsPerCycle
  | load rom =>
      -- A load that is rejected changes nothing, so that there is nothing to ask of the part.
      have hkept : part (m.load rom).machine = part m := by
        by_cases hload : Reply.loads (.loaded (m.load rom).result)
        · exact hloads hload
        · rw [machine_load_of_not_loads hload]
      show Passes part (part m) [] (part (m.load rom).machine)
      rw [hkept]
      exact .nil _
  | loadFile path contents =>
      cases contents with
      | error reason => exact .nil _
      | ok rom =>
          have hkept : part (m.load rom).machine = part m := by
            by_cases hload : Reply.loads (.loaded (m.load rom).result)
            · exact hloads ((loads_fileLoaded _).trans hload)
            · rw [machine_load_of_not_loads hload]
          show Passes part (part m) [] (part (m.load rom).machine)
          rw [hkept]
          exact .nil _

/-- A part that loads leave alone passes through all operations that do not set it. -/
theorem passes (hstart : ∀ m memory, part (start m memory) = part m) {operations : List Operation}
    (hsettings : ∀ m setting, .configure setting ∈ operations →
      part (configure m setting) = part m) :
    Passes part (part m) (m.history operations) (part (m.performAll operations).machine) := by
  induction operations generalizing m with
  | nil => exact .nil _
  | cons operation rest ih =>
      have hfirst : Passes part (part m) (m.stepStarts operation)
          (part (m.perform operation).machine) := by
        apply hpart.passes_stepStarts
        · rintro setting rfl
          exact hsettings m setting List.mem_cons_self
        · intro hloads
          obtain ⟨memory, hmachine⟩ := exists_start_of_loads hloads
          rw [hmachine, hstart]
      exact hfirst.append (ih fun m setting h => hsettings m setting (List.mem_cons_of_mem _ h))

end Undisturbed

namespace SteppedOnly

variable (hpart : SteppedOnly part)

include hpart

theorem passes_stepStarts {operation : Operation}
    (hloads : ¬ (m.perform operation).result.loads) :
    Passes part (part m) (m.stepStarts operation) (part (m.perform operation).machine) :=
  Undisturbed.passes_stepStarts hpart.others (fun setting _ => hpart.configure m setting)
    fun h => absurd h hloads

theorem passes {operations : List Operation}
    (hloads : m.LoadsNothing operations) :
    Passes part (part m) (m.history operations) (part (m.performAll operations).machine) := by
  induction operations generalizing m with
  | nil => exact .nil _
  | cons operation rest ih =>
      obtain ⟨hfirst, hrest⟩ := loadsNothing_cons.mp hloads
      exact (hpart.passes_stepStarts hfirst).append (ih hrest)

end SteppedOnly

end Passes

end Machine

end ChipEight
