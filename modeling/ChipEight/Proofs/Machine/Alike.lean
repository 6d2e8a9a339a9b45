import ChipEight.Machine.Dump
import ChipEight.Proofs.Machine.Simulation

namespace ChipEight

namespace CallStack

theorem toList_push? (s : CallStack) (address : UInt16) :
    (s.push? address).map toList =
      if s.toList.length = 16 then none else some (address :: s.toList) := by
  cases hpush : s.push? address with
  | none => rw [if_pos (push?_eq_none_iff.mp hpush), Option.map_none]
  | some t =>
      have hroom : s.toList.length ≠ 16 := by
        intro hfull
        rw [push?_eq_none_iff.mpr hfull] at hpush
        cases hpush
      rw [if_neg hroom, Option.map_some, toList_of_push hpush]

theorem toList_pop? (s : CallStack) :
    (s.pop?).map (Prod.map id toList) =
      s.toList.head?.map fun address => (address, s.toList.tail) := by
  cases hpop : s.pop? with
  | none => simp [pop?_eq_none_iff.mp hpop]
  | some popped =>
      obtain ⟨address, t⟩ := popped
      simp [toList_of_pop hpop]

end CallStack

namespace Machine

def Alike (m n : Machine) : Prop :=
  ∃ stack : CallStack, stack.toList = m.stack.toList ∧ n = { m with stack := stack }

end Machine

/-- The same answer, the same reports, and machines that are alike. -/
structure Outcome.Alike {α : Type} (o p : Outcome α) : Prop where
  result : o.result = p.result
  log : o.log = p.log
  machine : o.machine.Alike p.machine

namespace Machine

/-- Everything about a machine that can be asked for. -/
structure View where
  config : Config
  pc : UInt16
  index : UInt16
  registers : Registers
  depth : Nat
  timers : Timers
  state : RunState
  anomalies : Nat
  held : UInt8 → Bool
  dirty : Bool
  picture : Picture
  frame : Frame
  dump : String

def view (m : Machine) : View where
  config := m.config
  pc := m.pc
  index := m.memory.i
  registers := m.memory.v
  depth := m.stack.depth
  timers := m.timers
  state := m.state
  anomalies := m.anomalies
  held := m.keypad.isHeld
  dirty := m.display.dirty
  picture := m.display.picture
  frame := m.display.frame
  dump := m.dump

namespace Alike

variable {m n : Machine}

theorem view_eq (h : m.Alike n) : m.view = n.view := by
  rcases h with ⟨stack, hstack, rfl⟩
  have hdepth : stack.depth = m.stack.depth := by
    rw [← CallStack.length_toList, hstack, CallStack.length_toList]
  simp only [view, dump, dumpLines, counterLine, hdepth]

theorem control_eq (h : m.Alike n) (i : Instruction) : m.control i = n.control i := by
  rcases h with ⟨stack, -, rfl⟩
  cases i <;> rfl

theorem actedLog_eq (h : m.Alike n) (i : Instruction) : m.actedLog i = n.actedLog i := by
  rcases h with ⟨stack, -, rfl⟩
  have hrejected := rejected_effect_with m i stack m.pc m.anomalies
  simp only [actedLog, hrejected]

theorem acted (h : m.Alike n) (i : Instruction) : (m.acted i).Alike (n.acted i) := by
  rcases h with ⟨stack, hstack, rfl⟩
  have hvalue := value_effect_with m i stack m.pc m.anomalies
  have hrejected := rejected_effect_with m i stack m.pc m.anomalies
  refine ⟨stack, ?_, ?_⟩
  · change stack.toList = (m.effect i).value.1.stack.toList
    rw [stack_effect]
    exact hstack
  · simp only [Machine.acted, hvalue, hrejected]

theorem follow (h : m.Alike n) (address : UInt16) (t : Transfer) :
    (m.follow address t).2 = (n.follow address t).2 ∧
      (m.follow address t).1.Alike (n.follow address t).1 := by
  rcases h with ⟨stack, hstack, rfl⟩
  cases t with
  | next => exact ⟨rfl, stack, hstack, rfl⟩
  | jump target => exact ⟨rfl, stack, hstack, rfl⟩
  | skip =>
      simp only [Machine.follow]
      cases m.memory.fetch m.pc with
      | ok bytes => exact ⟨rfl, stack, hstack, rfl⟩
      | error stop => exact ⟨rfl, stack, hstack, rfl⟩
  | call target =>
      -- Both stacks have room for the address or neither has, whatever lies above their depth.
      have hpush : (stack.push? m.pc).map CallStack.toList =
          (m.stack.push? m.pc).map CallStack.toList := by
        rw [CallStack.toList_push?, CallStack.toList_push?, hstack]
      simp only [Machine.follow]
      cases hm : m.stack.push? m.pc with
      | none =>
          rw [hm] at hpush
          rw [Option.map_eq_none_iff.mp hpush]
          exact ⟨rfl, stack, hstack, rfl⟩
      | some pushed =>
          rw [hm] at hpush
          obtain ⟨other, hother, htoList⟩ := Option.map_eq_some_iff.mp hpush
          rw [hother]
          exact ⟨rfl, other, htoList, rfl⟩
  | ret =>
      have hpop : stack.pop?.map (Prod.map id CallStack.toList) =
          m.stack.pop?.map (Prod.map id CallStack.toList) := by
        rw [CallStack.toList_pop?, CallStack.toList_pop?, hstack]
      simp only [Machine.follow]
      cases hm : m.stack.pop? with
      | none =>
          rw [hm] at hpop
          rw [Option.map_eq_none_iff.mp hpop]
          exact ⟨rfl, stack, hstack, rfl⟩
      | some popped =>
          rw [hm] at hpop
          obtain ⟨⟨target, other⟩, hother, heq⟩ := Option.map_eq_some_iff.mp hpop
          obtain ⟨rfl, htoList⟩ := Prod.ext_iff.mp heq
          rw [hother]
          exact ⟨rfl, other, htoList, rfl⟩

theorem actsAlike (h : m.Alike n) (i : Instruction) : ActsAlike Alike m n i := by
  have hpc : m.pc = n.pc := by
    rcases h with ⟨stack, -, rfl⟩
    rfl
  obtain ⟨hfault, hafter⟩ := (h.acted i).follow m.pc (m.control i)
  refine ⟨h.actedLog_eq i, ?_, ?_⟩
  · rw [← h.control_eq, ← hpc, hfault]
  · rw [← h.control_eq, ← hpc]
    exact hafter

theorem configure (h : m.Alike n) (setting : Setting) :
    (m.configure setting).Alike (n.configure setting) := by
  rcases h with ⟨stack, hstack, rfl⟩
  cases setting <;> exact ⟨stack, hstack, rfl⟩

theorem load (h : m.Alike n) (rom : List UInt8) : (m.load rom).Related Alike (n.load rom) := by
  rcases h with ⟨stack, hstack, rfl⟩
  unfold Machine.load
  split
  · exact ⟨rfl, rfl, stack.clear, by simp [start, CallStack.toList_clear], rfl⟩
  · exact ⟨rfl, rfl, stack, hstack, rfl⟩

theorem pressKey (h : m.Alike n) (key : UInt8) :
    (m.pressKey key).Related Alike (n.pressKey key) := by
  rcases h with ⟨stack, hstack, rfl⟩
  simp only [Machine.pressKey]
  cases m.keypad.press key with
  | ok keypad => exact ⟨rfl, rfl, stack, hstack, rfl⟩
  | error e => exact ⟨rfl, rfl, stack, hstack, rfl⟩

theorem releaseKey (h : m.Alike n) (key : UInt8) :
    (m.releaseKey key).Related Alike (n.releaseKey key) := by
  rcases h with ⟨stack, hstack, rfl⟩
  simp only [Machine.releaseKey]
  cases m.keypad.release key with
  | ok keypad => exact ⟨rfl, rfl, stack, hstack, rfl⟩
  | error e => exact ⟨rfl, rfl, stack, hstack, rfl⟩

theorem simulation : Simulation Alike where
  state := by
    rintro m n ⟨stack, -, rfl⟩
    rfl
  pc := by
    rintro m n ⟨stack, -, rfl⟩
    rfl
  memory := by
    rintro m n ⟨stack, -, rfl⟩
    rfl
  latch := by
    rintro m n ⟨stack, -, rfl⟩
    rfl
  opsPerCycle := by
    rintro m n ⟨stack, -, rfl⟩
    rfl
  stop := by
    rintro m n ⟨stack, hstack, rfl⟩ pc
    exact ⟨stack, hstack, rfl⟩
  receive := by
    rintro m n ⟨stack, hstack, rfl⟩ x key
    exact ⟨stack, hstack, rfl⟩
  tick := by
    rintro m n ⟨stack, hstack, rfl⟩
    exact ⟨stack, hstack, rfl⟩
  load := load
  pressKey := pressKey
  releaseKey := releaseKey
  takeDirty := by
    rintro m n ⟨stack, hstack, rfl⟩
    exact ⟨rfl, rfl, stack, hstack, rfl⟩

theorem performAll (h : m.Alike n) (operations : List Operation) :
    (m.performAll operations).Alike (n.performAll operations) := by
  have hrelated : (m.performAll operations).Related Alike (n.performAll operations) := by
    apply simulation.performAll h
    · intro setting _ s t hst
      exact hst.configure setting
    · intro s _ t hst
      exact simulation.step hst fun i _ => hst.actsAlike i
  exact ⟨hrelated.result, hrelated.log, hrelated.machine⟩

end Alike

end Machine

end ChipEight
