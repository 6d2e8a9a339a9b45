import ChipEight.Proofs.Machine.Adjustment
import ChipEight.Proofs.Machine.Halting
import ChipEight.Proofs.Machine.Presentation
/-!
Palettes: two machines that differ in their palette, and in the frame that is coloured in it, take the
same course, whatever palettes either of them is given on the way.

`performAll_recoloured` compares a machine with one that starts in another palette and is given no
palette any more. What two machines have in common they have in common with such a third one.
-/

namespace ChipEight

def Operation.setsPalette : Operation → Bool
  | .configure (.palette _) => true
  | _ => false

/-- The operations other than changes of the palette. -/
def withoutPalettes (operations : List Operation) : List Operation :=
  operations.filter (!·.setsPalette)

/-- The palette that was set last, or `palette` if none was set. -/
def lastPalette (palette : Palette) : List Operation → Palette
  | [] => palette
  | .configure (.palette other) :: rest => lastPalette other rest
  | _ :: rest => lastPalette palette rest

theorem exists_eq_of_setsPalette {operation : Operation} (h : operation.setsPalette) :
    ∃ p, operation = .configure (.palette p) := by
  unfold Operation.setsPalette at h
  split at h
  · next p => exact ⟨p, rfl⟩
  · cases h

theorem lastPalette_cons_of_not_setsPalette {operation : Operation} (h : ¬ operation.setsPalette)
    (palette : Palette) (rest : List Operation) :
    lastPalette palette (operation :: rest) = lastPalette palette rest := by
  rw [lastPalette]
  rintro other rfl
  exact h rfl

namespace Machine

/-- The two machines are equal but for their palettes, and for the frames of their displays. -/
def EqualButPalette (m n : Machine) : Prop :=
  n =
    { m with
      config := { m.config with palette := n.config.palette }
      display := { m.display with palette := n.display.palette, frame := n.display.frame } }

/-- The replies to the operations other than changes of the palette, each behind its operation. -/
def repliesWithoutPalettes (m : Machine) (operations : List Operation) : List (Operation × Reply) :=
  (operations.zip (m.performAll operations).result).filter (!·.1.setsPalette)

end Machine

namespace Display

variable (d : Display) (p : Palette)

theorem clear_setPalette : (d.setPalette p).clear = d.clear.setPalette p := by
  simp only [clear, setPalette, present]

theorem takeDirty_setPalette :
    (d.setPalette p).takeDirty = (d.takeDirty.1.setPalette p, d.takeDirty.2) := by
  simp only [takeDirty, setPalette, present]

theorem draw_setPalette (x y : Nat) (sprite : Sprite) :
    (d.setPalette p).draw x y sprite =
      ((d.draw x y sprite).1.setPalette p, (d.draw x y sprite).2) := by
  simp only [draw, setPalette, present]

end Display

def Adjustment.palette (p : Palette) : Adjustment where
  config c := { c with palette := p }
  display d := d.setPalette p
  opsPerCycle _ := rfl
  clear d := d.clear_setPalette p
  takeDirty d := d.takeDirty_setPalette p

namespace Machine

variable {m n : Machine}

def recoloured (m : Machine) (p : Palette) : Machine :=
  (Adjustment.palette p).apply m

theorem carries_palette (m : Machine) (p : Palette) (i : Instruction) :
    (Adjustment.palette p).Carries m i where
  value := by
    cases i with
    | clear =>
        simp only [effect, Access.value_pure, Adjustment.apply, Adjustment.palette,
          Display.clear_setPalette]
    | draw x y rows =>
        simp only [effect, Access.value_bind, Access.value_pure, Adjustment.apply,
          Adjustment.palette, Display.draw_setPalette]
    | _ => rfl
  rejected := by cases i <;> rfl

theorem configure_recoloured {setting : Setting} (h : ¬ (Operation.configure setting).setsPalette)
    (m : Machine) (p : Palette) :
    (m.recoloured p).configure setting = (m.configure setting).recoloured p := by
  cases setting with
  | palette other => exact absurd rfl h
  | _ => rfl

theorem related_perform_recoloured {operation : Operation} (h : ¬ operation.setsPalette)
    (m : Machine) (p : Palette) :
    (m.perform operation).Related (Adjustment.palette p).Relates
      ((m.recoloured p).perform operation) := by
  apply (Adjustment.palette p).simulation.perform rfl
  · rintro setting rfl
    exact configure_recoloured h m p
  · rintro s - t rfl
    exact (Adjustment.palette p).simulation.step rfl fun i _ => (carries_palette s p i).actsAlike

theorem recoloured_of_setsPalette {operation : Operation} (h : operation.setsPalette) (m : Machine)
    (p : Palette) : (m.perform operation).machine.recoloured p = m.recoloured p := by
  obtain ⟨other, rfl⟩ := exists_eq_of_setsPalette h
  rfl

theorem log_of_setsPalette {operation : Operation} (h : operation.setsPalette) (m : Machine) :
    (m.perform operation).log = [] := by
  obtain ⟨other, rfl⟩ := exists_eq_of_setsPalette h
  rfl

theorem performAll_recoloured (m : Machine) (p : Palette) (operations : List Operation) :
    let other := (m.recoloured p).performAll (withoutPalettes operations)
    m.repliesWithoutPalettes operations = (withoutPalettes operations).zip other.result ∧
      (m.performAll operations).log = other.log ∧
      (m.performAll operations).machine.recoloured p = other.machine := by
  induction operations generalizing m with
  | nil => exact ⟨rfl, rfl, rfl⟩
  | cons operation rest ih =>
      obtain ⟨hreplies, hlog, hmachine⟩ := ih (m.perform operation).machine
      by_cases hsets : operation.setsPalette
      · have herased : withoutPalettes (operation :: rest) = withoutPalettes rest :=
          List.filter_cons_of_neg (by simp [hsets])
        rw [recoloured_of_setsPalette hsets] at hreplies hlog hmachine
        refine ⟨?_, ?_, ?_⟩
        · rw [herased, ← hreplies]
          exact List.filter_cons_of_neg (by simp [hsets])
        · rw [herased, ← hlog, performAll, log_of_setsPalette hsets, List.nil_append]
        · rw [herased, ← hmachine, performAll]
      · have herased : withoutPalettes (operation :: rest) = operation :: withoutPalettes rest :=
          List.filter_cons_of_pos (by simp [hsets])
        obtain ⟨hresult, hfirst, hnext⟩ := related_perform_recoloured hsets m p
        have hnext : (m.perform operation).machine.recoloured p =
            ((m.recoloured p).perform operation).machine := hnext.symm
        rw [hnext] at hreplies hlog hmachine
        refine ⟨?_, ?_, ?_⟩
        · rw [herased, performAll, List.zip_cons_cons, ← hreplies, ← hresult]
          exact List.filter_cons_of_pos (by simp [hsets])
        · rw [herased, performAll, performAll, hfirst, hlog]
        · rw [herased, performAll, performAll, hmachine]

theorem equalButPalette_iff (p : Palette) :
    m.EqualButPalette n ↔ m.recoloured p = n.recoloured p := by
  constructor
  · intro h
    exact (congrArg (recoloured · p) h).symm
  · intro h
    rcases m with ⟨⟨⟩, _, ⟨⟩, _, _, _, _, _, _, _⟩
    rcases n with ⟨⟨⟩, _, ⟨⟩, _, _, _, _, _, _, _⟩
    simp_all [recoloured, Adjustment.apply, Adjustment.palette, Display.setPalette, Display.present,
      EqualButPalette]

theorem palette_perform {operation : Operation} (h : ¬ operation.setsPalette) (m : Machine) :
    (m.perform operation).machine.config.palette = m.config.palette := by
  have hundisturbed : Undisturbed fun m : Machine => m.config.palette := by
    intro m timers keypad dirty
    rfl
  have hpasses : Passes (fun m : Machine => m.config.palette) m.config.palette
      (m.stepStarts operation) (m.perform operation).machine.config.palette := by
    apply hundisturbed.passes_stepStarts
    · rintro setting rfl
      cases setting with
      | palette other => exact absurd rfl h
      | _ => rfl
    · intro hloads
      obtain ⟨memory, hmachine⟩ := exists_start_of_loads hloads
      rw [hmachine]
      rfl
  apply hpasses.invariant (P := (· = m.config.palette))
  · intro s _ hs
    rw [config_step, hs]
  · rfl

theorem palette_performAll (m : Machine) (operations : List Operation) :
    (m.performAll operations).machine.config.palette =
      lastPalette m.config.palette operations := by
  induction operations generalizing m with
  | nil => rfl
  | cons operation rest ih =>
      rw [performAll, ih]
      by_cases hsets : operation.setsPalette
      · obtain ⟨other, rfl⟩ := exists_eq_of_setsPalette hsets
        rfl
      · rw [palette_perform hsets, lastPalette_cons_of_not_setsPalette hsets]

theorem EqualButPalette.framebuffer_eq (h : m.EqualButPalette n) :
    n.framebuffer = m.framebuffer := by
  rw [EqualButPalette] at h
  rw [h]
  rfl

theorem Coherent.getElem?_frame_performAll (h : m.Coherent) (operations : List Operation)
    (x : Fin 64) (y : Fin 32) :
    let after := (m.performAll operations).machine
    let palette := lastPalette m.config.palette operations
    after.display.frame[64 * y.val + x.val]? =
      some (if after.framebuffer.byte ⟨x, y⟩ = 1 then palette.on else palette.off) := by
  intro after palette
  have hframe := (kept_coherent.performAll h operations).getElem_frame x y
  rw [palette_performAll] at hframe
  exact (Vector.getElem?_eq_getElem _).trans (congrArg some hframe)

theorem palettes_only_colour_frames {m n : Machine} (hm : m.Coherent) (hn : n.Coherent)
    (hmn : m.EqualButPalette n) {ofFirst ofSecond : List Operation}
    (hsame : withoutPalettes ofFirst = withoutPalettes ofSecond) :
    let first := m.performAll ofFirst
    let second := n.performAll ofSecond
    let inFirst := lastPalette m.config.palette ofFirst
    let inSecond := lastPalette n.config.palette ofSecond
    let fb := first.machine.framebuffer
    m.repliesWithoutPalettes ofFirst = n.repliesWithoutPalettes ofSecond ∧
      first.log = second.log ∧
      first.machine.EqualButPalette second.machine ∧
      ∀ (x : Fin 64) (y : Fin 32),
        first.machine.display.frame[64 * y.val + x.val]? =
            some (if fb.byte ⟨x, y⟩ = 1 then inFirst.on else inFirst.off) ∧
          second.machine.display.frame[64 * y.val + x.val]? =
            some (if fb.byte ⟨x, y⟩ = 1 then inSecond.on else inSecond.off) := by
  intro first second inFirst inSecond fb
  -- Both courses are compared with the one that starts in the first machine's palette and keeps it.
  let p := m.config.palette
  have hstart : m.recoloured p = n.recoloured p := (equalButPalette_iff p).mp hmn
  obtain ⟨hreplies, hlog, hmachine⟩ := performAll_recoloured m p ofFirst
  obtain ⟨hreplies', hlog', hmachine'⟩ := performAll_recoloured n p ofSecond
  rw [← hstart, ← hsame] at hreplies' hlog' hmachine'
  have hequal : first.machine.EqualButPalette second.machine :=
    (equalButPalette_iff p).mpr (hmachine.trans hmachine'.symm)
  refine ⟨hreplies.trans hreplies'.symm, hlog.trans hlog'.symm, hequal, ?_⟩
  intro x y
  refine ⟨hm.getElem?_frame_performAll ofFirst x y, ?_⟩
  show _ = some (if first.machine.framebuffer.byte ⟨x, y⟩ = 1 then _ else _)
  rw [← hequal.framebuffer_eq]
  exact hn.getElem?_frame_performAll ofSecond x y

/-- The first machine is given one colour for lit and dark cells between two drawings over each other,
and the second one starts in another palette and is given a third one at the end. -/
theorem palettes_only_colour_frames_drawn_twice :
    let red : Rgba := ⟨255, 0, 0, 255⟩
    let blue : Rgba := ⟨0, 0, 255, 255⟩
    let rom : List UInt8 := [0xF0, 0x29, 0xD0, 0x05, 0x60, 0x01, 0xD0, 0x05]
    let m := ((initial (.ofSeed 0)).performAll [.load rom]).machine
    let n := m.configure (.palette ⟨blue, red⟩)
    let ofFirst : List Operation := [.run 2, .configure (.palette ⟨red, red⟩), .takeDirty, .run 2]
    let ofSecond : List Operation := [.run 2, .takeDirty, .run 2, .configure (.palette ⟨red, blue⟩)]
    m.EqualButPalette n ∧ withoutPalettes ofFirst = withoutPalettes ofSecond ∧
      (m.performAll ofFirst).log = (n.performAll ofSecond).log ∧
      (m.performAll ofFirst).machine.memory.register 0xF = .ok 1 ∧
      (n.performAll ofSecond).machine.memory.register 0xF = .ok 1 ∧
      (m.performAll ofFirst).machine.display.frame[67]? = some red ∧
      (n.performAll ofSecond).machine.display.frame[67]? = some blue := by
  intro red blue rom m n ofFirst ofSecond
  have hm : m.Reachable := ⟨_, _, rfl⟩
  have hn : n.Reachable := ⟨.ofSeed 0, [.load rom, .configure (.palette ⟨blue, red⟩)], rfl⟩
  have hmn : m.EqualButPalette n := rfl
  have hsame : withoutPalettes ofFirst = withoutPalettes ofSecond := rfl
  obtain ⟨-, hlog, hequal, hframes⟩ := palettes_only_colour_frames (coherent_of_reachable hm)
    (coherent_of_reachable hn) hmn hsame
  obtain ⟨hflag, hdark⟩ : (m.performAll ofFirst).machine.memory.register 0xF = .ok 1 ∧
      (m.performAll ofFirst).machine.framebuffer.byte ⟨3, 1⟩ ≠ 1 := by
    decide +kernel
  obtain ⟨hfirst, hsecond⟩ := hframes 3 1
  rw [if_neg hdark] at hfirst hsecond
  refine ⟨hmn, hsame, hlog, hflag, ?_, hfirst, hsecond⟩
  rw [EqualButPalette] at hequal
  rw [hequal]
  exact hflag

end Machine

end ChipEight
