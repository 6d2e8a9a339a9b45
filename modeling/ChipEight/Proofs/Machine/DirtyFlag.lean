import ChipEight.Proofs.Display.Framebuffer
import ChipEight.Proofs.Machine.Coherence
import ChipEight.Proofs.Machine.History
/-!
The dirty flag: while it is down, the display shows the picture that it showed when the flag was last
taken.

Steps that draw, and loads, raise the flag; a change of the palette colours the frame anew and leaves
the flag as it is. So the flag tells of every change of the frame but those of its colours.
-/

namespace ChipEight

/-- The step has drawn on the picture: it has executed 00E0 or DXYN. -/
def Step.draws : Except Fault Step → Bool
  | .ok (.executed .clear) => true
  | .ok (.executed (.draw _ _ _)) => true
  | _ => false

namespace Machine

section Draws

variable {m : Machine}

theorem dirty_step_of_draws (h : Step.draws m.step.result) :
    m.step.machine.display.dirty = true := by
  rcases m.step_acts_or_receives_or_keeps with
    ⟨i, stack, pc, hresult, hmachine⟩ | ⟨x, key, hresult, -⟩ | ⟨hresult, -⟩
  · rw [hresult] at h
    rw [hmachine]
    show (m.effect i).value.1.display.dirty = true
    rw [display_effect]
    cases i with
    | clear | draw => rfl
    | _ => cases h
  · rw [hresult] at h
    cases h
  · unfold Step.draws at h
    split at h
    · next hclear => exact absurd hclear (hresult _)
    · next hdraw => exact absurd hdraw (hresult _)
    · cases h

theorem display_step_of_not_draws (h : ¬ Step.draws m.step.result) :
    m.step.machine.display = m.display := by
  rcases m.step_acts_or_receives_or_keeps with
    ⟨i, stack, pc, hresult, hmachine⟩ | ⟨x, key, -, hmachine⟩ | ⟨-, pc, anomalies, state, hmachine⟩
  · rw [hresult] at h
    rw [hmachine]
    show (m.effect i).value.1.display = m.display
    rw [display_effect]
    cases i with
    | clear | draw => exact absurd rfl h
    | _ => rfl
  · rw [hmachine]
    rfl
  · rw [hmachine]

theorem display_step_of_clean (h : m.step.machine.display.dirty = false) :
    m.step.machine.display = m.display := by
  apply display_step_of_not_draws
  intro hdraws
  rw [dirty_step_of_draws hdraws] at h
  cases h

theorem dirty_step (h : m.display.dirty = true) : m.step.machine.display.dirty = true := by
  by_cases hdraws : Step.draws m.step.result
  · exact dirty_step_of_draws hdraws
  · rw [display_step_of_not_draws hdraws]
    exact h

theorem display_run_of_not_draws {count : Nat}
    (h : ∀ s ∈ m.starts count, ¬ Step.draws s.step.result) :
    (m.run count).machine.display = m.display :=
  (passes_starts Machine.display m count).invariant (P := (· = m.display))
    (fun s hs heq => (display_step_of_not_draws (h s hs)).trans heq) rfl

theorem dirty_run_iff {count : Nat} :
    (m.run count).machine.display.dirty = true ↔
      m.display.dirty = true ∨ ∃ s ∈ m.starts count, Step.draws s.step.result := by
  have hpasses := passes_starts (fun s : Machine => s.display.dirty) m count
  constructor
  · intro hdirty
    by_cases hdraws : ∃ s ∈ m.starts count, Step.draws s.step.result
    · exact .inr hdraws
    · simp only [not_exists, not_and] at hdraws
      rw [display_run_of_not_draws hdraws] at hdirty
      exact .inl hdirty
  · rintro (hdirty | ⟨s, hs, hdraws⟩)
    · exact hpasses.invariant (P := (· = true)) (fun s _ => dirty_step (m := s)) hdirty
    · -- From the step that draws on, the flag stays up.
      obtain ⟨before, after, heq⟩ := List.append_of_mem hs
      rw [heq] at hpasses
      exact hpasses.cut.2.invariant (P := (· = true)) (fun s _ => dirty_step (m := s))
        (dirty_step_of_draws hdraws)

theorem dirty_cycle_iff :
    m.cycle.machine.display.dirty = true ↔
      m.display.dirty = true ∨ ∃ s ∈ m.stepStarts .cycle, Step.draws s.step.result :=
  dirty_run_iff (m := m.tick)

theorem display_run_of_clean {count : Nat} (h : (m.run count).machine.display.dirty = false) :
    (m.run count).machine.display = m.display := by
  apply display_run_of_not_draws
  intro s hs hdraws
  have hdirty := dirty_run_iff.mpr (.inr ⟨s, hs, hdraws⟩)
  rw [h] at hdirty
  cases hdirty

theorem display_cycle_of_clean (h : m.cycle.machine.display.dirty = false) :
    m.cycle.machine.display = m.display :=
  display_run_of_clean (m := m.tick) h

end Draws

section Seen

variable {m : Machine} {seen : Display}

/-- The display that was seen last, if `operation` is performed after `seen` was seen. -/
def seenAfter (m : Machine) (seen : Display) : Operation → Display
  | .takeDirty => m.display
  | _ => seen

/-- The display as it was when operations took the dirty flag last, or `seen` if none of them does. -/
def lastSeen (m : Machine) (seen : Display) : List Operation → Display
  | [] => seen
  | operation :: rest =>
    (m.perform operation).machine.lastSeen (m.seenAfter seen operation) rest

/-- What was seen is still shown, unless the flag is up. -/
structure Flagged (m : Machine) (seen : Display) : Prop where
  presented : seen.Presented
  picture : m.display.dirty = false → m.display.picture = seen.picture

theorem flagged_display (h : m.Coherent) : m.Flagged m.display where
  presented := h.presented
  picture _ := rfl

theorem Flagged.of_display_eq {n : Machine} (h : m.Flagged seen)
    (hclean : n.display.dirty = false → n.display = m.display) : n.Flagged seen where
  presented := h.presented
  picture hdirty := by
    have heq := hclean hdirty
    rw [heq] at hdirty ⊢
    exact h.picture hdirty

theorem Flagged.configure (h : m.Flagged seen) (setting : Setting) :
    (m.configure setting).Flagged seen where
  presented := h.presented
  picture := by
    cases setting <;> exact h.picture

theorem Flagged.load (h : m.Flagged seen) (rom : List UInt8) :
    (m.load rom).machine.Flagged seen := by
  rcases m.load_starts_or_rejects rom with ⟨memory, hload⟩ | ⟨e, hload⟩
  · rw [hload]
    exact ⟨h.presented, fun hdirty => nomatch hdirty⟩
  · rw [hload]
    exact h

theorem Flagged.perform (hcoherent : m.Coherent) (h : m.Flagged seen) (operation : Operation) :
    (m.perform operation).machine.Flagged (m.seenAfter seen operation) := by
  cases operation with
  | configure setting => exact h.configure setting
  | load rom => exact h.load rom
  | loadFile path contents =>
      cases contents with
      | error reason => exact h
      | ok rom => exact h.load rom
  | step => exact h.of_display_eq display_step_of_clean
  | run count => exact h.of_display_eq display_run_of_clean
  | cycle => exact h.of_display_eq display_cycle_of_clean
  | tick => exact ⟨h.presented, h.picture⟩
  | pressKey key =>
      obtain ⟨held, heq⟩ := m.exists_machine_pressKey key
      have hdisplay : (m.pressKey key).machine.display = m.display := by rw [heq]
      exact h.of_display_eq fun _ => hdisplay
  | releaseKey key =>
      obtain ⟨held, heq⟩ := m.exists_machine_releaseKey key
      have hdisplay : (m.releaseKey key).machine.display = m.display := by rw [heq]
      exact h.of_display_eq fun _ => hdisplay
  | takeDirty => exact ⟨hcoherent.presented, fun _ => rfl⟩

theorem Flagged.performAll (hcoherent : m.Coherent) (h : m.Flagged seen)
    (operations : List Operation) :
    (m.performAll operations).machine.Flagged (m.lastSeen seen operations) := by
  induction operations generalizing m seen with
  | nil => exact h
  | cons operation rest ih =>
      exact ih (kept_coherent.perform hcoherent operation) (h.perform hcoherent operation)

end Seen

theorem dirty_of_frame_ne_lastSeen (random : RandomSource) (operations : List Operation) :
    let start := initial random
    let m := (start.performAll operations).machine
    let seen := start.lastSeen start.display operations
    (m.display.dirty = false → m.display.frame = seen.picture.coloured m.config.palette) ∧
      (m.display.frame ≠ seen.frame → m.config.palette = seen.palette →
        m.display.dirty = true) := by
  intro start m seen
  have hstart : start.Coherent := coherent_initial random
  have hm : m.Coherent := kept_coherent.performAll hstart operations
  have hflagged : m.Flagged seen := (flagged_display hstart).performAll hstart operations
  have hclean : m.display.dirty = false →
      m.display.frame = seen.picture.coloured m.config.palette := by
    intro hdirty
    rw [← hflagged.picture hdirty, ← hm.palette]
    exact hm.presented
  refine ⟨hclean, ?_⟩
  intro hframe hpalette
  cases hdirty : m.display.dirty with
  | true => rfl
  | false =>
      refine absurd ?_ hframe
      rw [hclean hdirty, hpalette]
      exact hflagged.presented.symm

theorem dirty_of_frame_ne_lastSeen_drawn :
    let start := initial (.ofSeed 0)
    let operations : List Operation := [.load [0xD0, 0x05], .takeDirty, .tick, .step]
    let m := (start.performAll operations).machine
    let seen := start.lastSeen start.display operations
    m.display.frame ≠ seen.frame ∧ m.config.palette = seen.palette ∧ m.display.dirty = true := by
  intro start operations m seen
  have hstart : start.Coherent := coherent_initial _
  have hm : m.Coherent := kept_coherent.performAll hstart operations
  have hflagged : m.Flagged seen := (flagged_display hstart).performAll hstart operations
  have hpalette : m.config.palette = seen.palette := by decide +kernel
  have hcolours : seen.palette.on ≠ seen.palette.off := by decide +kernel
  have hpicture : m.display.picture ≠ seen.picture := by decide +kernel
  have hframe : m.display.frame ≠ seen.frame := by
    intro heq
    rw [hm.presented, hflagged.presented, hm.palette, hpalette] at heq
    exact hpicture (Picture.eq_of_coloured_eq hcolours heq)
  have hdirty := dirty_of_frame_ne_lastSeen (.ofSeed 0) operations
  -- With the list in sight, comparing the two sides would run the program.
  clear_value operations
  exact ⟨hframe, hpalette, hdirty.2 hframe hpalette⟩

/-- A blue background shows at once, but the flag does not tell of it. -/
theorem frame_changes_with_palette_while_clean :
    ¬ ∀ (random : RandomSource) (operations : List Operation),
      let start := initial random
      let m := (start.performAll operations).machine
      m.display.frame ≠ (start.lastSeen start.display operations).frame →
        m.display.dirty = true := by
  intro h
  let palette : Palette := { off := ⟨0, 0, 255, 255⟩ }
  have hframe : Picture.dark.coloured palette ≠ .replicate 2048 ({} : Palette).off := by
    rw [Picture.coloured_dark]
    intro heq
    have hfirst := congrArg (·[0]) heq
    simp only [Vector.getElem_replicate] at hfirst
    cases hfirst
  cases h (.ofSeed 0) [.takeDirty, .configure (.palette palette)] hframe

end Machine

end ChipEight
