import ChipEight.Proofs.Display.Framebuffer
import ChipEight.Proofs.Machine.Coherence
import ChipEight.Proofs.Machine.History

namespace ChipEight

namespace Framebuffer

def execute (fb : Framebuffer) (m : Machine) : Instruction → Framebuffer
  | .clear => zero
  | .draw x y rows =>
    (fb.flipAll (Sprite.cells m.display.wrap (m.registerValue x).toNat (m.registerValue y).toNat
      (m.memory.readBlock m.memory.i.toNat rows.toNat).value)).1
  | _ => fb

/-- The framebuffer after the next step of a machine: only the execution of an instruction may write
to it. -/
def step (fb : Framebuffer) (m : Machine) : Framebuffer :=
  match m.step.result with
  | .ok (.executed i) => fb.execute m i
  | _ => fb

/-- The framebuffer after an operation on a machine: a load clears it, and steps are taken one after
the other. -/
def perform (fb : Framebuffer) (m : Machine) (operation : Operation) : Framebuffer :=
  if (m.perform operation).result.loads then zero else (m.stepStarts operation).foldl step fb

def performAll (fb : Framebuffer) (m : Machine) : List Operation → Framebuffer
  | [] => fb
  | operation :: rest => (fb.perform m operation).performAll (m.perform operation).machine rest

end Framebuffer

namespace Machine

def framebuffer (m : Machine) : Framebuffer :=
  m.display.picture.bytes

theorem framebuffer_initial (random : RandomSource) : (initial random).framebuffer = .zero :=
  Picture.bytes_dark

theorem framebuffer_acted (m : Machine) (i : Instruction) :
    (m.acted i).framebuffer = m.framebuffer.execute m i := by
  show (m.effect i).value.1.display.picture.bytes = m.display.picture.bytes.execute m i
  rw [display_effect]
  cases i with
  | clear => exact Picture.bytes_dark
  | draw x y rows => exact (congrArg Prod.fst (Picture.flipAll_bytes _ _)).symm
  | _ => rfl

theorem framebuffer_step (m : Machine) :
    m.step.machine.framebuffer = m.framebuffer.step m := by
  unfold Framebuffer.step
  rcases m.step_acts_or_receives_or_keeps with
    ⟨i, stack, pc, hresult, hmachine⟩ | ⟨x, key, hresult, hmachine⟩ |
      ⟨hresult, pc, anomalies, state, hmachine⟩
  · rw [hmachine, hresult]
    exact framebuffer_acted m i
  · rw [hmachine, hresult]
    rfl
  · rw [hmachine]
    split
    · next i hexecuted => exact absurd hexecuted (hresult i)
    · rfl

theorem steppedOnly_framebuffer : SteppedOnly framebuffer where
  configure m setting := by cases setting <;> rfl
  others m timers keypad dirty := rfl

theorem framebuffer_of_loads {m : Machine} {operation : Operation}
    (hloads : (m.perform operation).result.loads) :
    (m.perform operation).machine.framebuffer = .zero := by
  obtain ⟨memory, hmachine⟩ := exists_start_of_loads hloads
  rw [hmachine]
  exact Picture.bytes_dark

theorem framebuffer_perform (m : Machine) (operation : Operation) :
    (m.perform operation).machine.framebuffer = m.framebuffer.perform m operation := by
  unfold Framebuffer.perform
  by_cases hloads : (m.perform operation).result.loads
  · rw [if_pos hloads, framebuffer_of_loads hloads]
  · rw [if_neg hloads]
    exact (steppedOnly_framebuffer.passes_stepStarts hloads).eq_foldl framebuffer_step

theorem framebuffer_performAll (m : Machine) (operations : List Operation) :
    (m.performAll operations).machine.framebuffer = m.framebuffer.performAll m operations := by
  induction operations generalizing m with
  | nil => rfl
  | cons operation rest ih =>
      rw [Framebuffer.performAll, ← framebuffer_perform]
      exact ih (m.perform operation).machine

theorem width_wrap (d : Dialect) : d.wrap.width = if d.legacyWrap then 63 else 64 := by
  unfold Dialect.wrap
  split
  · rfl
  · rfl

theorem Coherent.getElem_frame {m : Machine} (h : m.Coherent) (x : Fin 64) (y : Fin 32) :
    m.display.frame[64 * y.val + x.val] =
      if m.framebuffer.byte ⟨x, y⟩ = 1 then m.config.palette.on else m.config.palette.off := by
  have hpresented : m.display.frame = m.display.picture.coloured m.config.palette := by
    rw [← h.palette]
    exact h.presented
  simp only [hpresented]
  exact m.display.picture.getElem_coloured m.config.palette ⟨x, y⟩

theorem display_follows_framebuffer_and_settings (random : RandomSource)
    (operations : List Operation) :
    let m := ((initial random).performAll operations).machine
    let fb := Framebuffer.zero.performAll (initial random) operations
    m.display.picture.bytes = fb ∧
      (∀ c, fb.byte c = 0 ∨ fb.byte c = 1) ∧
      (∀ (x : Fin 64) (y : Fin 32), m.display.frame[64 * y.val + x.val] =
        if fb.byte ⟨x, y⟩ = 1 then m.config.palette.on else m.config.palette.off) ∧
      m.display.palette = m.config.palette ∧
      m.display.wrap.width = if m.config.dialect.legacyWrap then 63 else 64 := by
  intro m fb
  have hcoherent : m.Coherent := coherent_of_reachable ⟨random, operations, rfl⟩
  have hfb : m.framebuffer = fb := by
    show _ = Framebuffer.zero.performAll (initial random) operations
    rw [← framebuffer_initial random]
    exact framebuffer_performAll (initial random) operations
  refine ⟨hfb, ?_, ?_, hcoherent.palette, ?_⟩
  · rw [← hfb]
    exact m.display.picture.byte_bytes_zero_or_one
  · rw [← hfb]
    exact hcoherent.getElem_frame
  · rw [hcoherent.wrap]
    exact width_wrap m.config.dialect

end Machine

end ChipEight
