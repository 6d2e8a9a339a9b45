import ChipEight.Proofs.Display.Framebuffer
import ChipEight.Proofs.Machine.Runs

namespace ChipEight

def Dialect.wrap (d : Dialect) : Wrap :=
  if d.legacyWrap then .narrow else .full

namespace Machine

structure Coherent (m : Machine) : Prop where
  palette : m.display.palette = m.config.palette
  wrap : m.display.wrap = m.config.dialect.wrap
  presented : m.display.Presented

theorem coherent_initial (random : RandomSource) : (initial random).Coherent where
  palette := rfl
  wrap := rfl
  presented := Display.presented_initial {}

theorem Coherent.with_display {m : Machine} (h : m.Coherent) {d : Display}
    (hpalette : d.palette = m.display.palette) (hwrap : d.wrap = m.display.wrap)
    (hpresented : d.Presented) : ({ m with display := d } : Machine).Coherent where
  palette := hpalette.trans h.palette
  wrap := hwrap.trans h.wrap
  presented := hpresented

theorem Coherent.of_effect {m : Machine} (h : m.Coherent) (i : Instruction) :
    (m.effect i).value.1.Coherent := by
  suffices hdisplay : ({ m with display := (m.effect i).value.1.display } : Machine).Coherent by
    refine ⟨?_, ?_, hdisplay.presented⟩
    · rw [config_effect]
      exact hdisplay.palette
    · rw [config_effect]
      exact hdisplay.wrap
  rw [display_effect]
  split
  · exact h.with_display rfl rfl (Display.presented_present _)
  · exact h.with_display rfl rfl (Display.presented_draw _ _ _ _)
  · exact h

theorem Coherent.step {m : Machine} (h : m.Coherent) : m.step.machine.Coherent := by
  have hacted : ∀ i, (m.acted i).Coherent := fun i => { h.of_effect i with }
  have hfollow : ∀ i t, ((m.acted i).follow m.pc t).1.Coherent := by
    intro i t
    obtain ⟨stack, pc, heq⟩ := exists_follow_eq (m.acted i) m.pc t
    rw [heq]
    exact { hacted i with }
  have hstep := m.takes_step
  generalize m.step = outcome at hstep
  cases hstep with
  | halted | waits => exact h
  | receives | misses => exact { h with }
  | @executes hi lo i after hstate hfetch hdecode hfollowed =>
      have hafter := hfollow i (m.control i)
      rwa [hfollowed] at hafter
  | @faults hi lo i after fault hstate hfetch hdecode hfollowed =>
      have hafter := hfollow i (m.control i)
      rw [hfollowed] at hafter
      exact { hafter with }

theorem kept_coherent : Kept Coherent where
  configure m setting h := by
    cases setting with
    | dialect | legacyWrap => exact ⟨h.palette, rfl, h.presented⟩
    | legacyShift | jumpAddOffset | memoryIncrementI | opsPerCycle | seed => exact { h with }
    | palette palette => exact ⟨rfl, h.wrap, Display.presented_present _⟩
  load m rom h := by
    unfold load
    split
    · exact ⟨h.palette, h.wrap, Display.presented_present _⟩
    · exact h
  step m h := h.step
  tick m h := { h with }
  pressKey m key h := by
    obtain ⟨held, heq⟩ := m.exists_machine_pressKey key
    rw [heq]
    exact { h with }
  releaseKey m key h := by
    obtain ⟨held, heq⟩ := m.exists_machine_releaseKey key
    rw [heq]
    exact { h with }
  takeDirty m h := ⟨h.palette, h.wrap, h.presented⟩

theorem coherent_of_reachable {m : Machine} (h : m.Reachable) : m.Coherent :=
  kept_coherent.of_reachable coherent_initial h

end Machine

end ChipEight
