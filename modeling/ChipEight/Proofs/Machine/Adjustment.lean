import ChipEight.Proofs.Machine.Change
import ChipEight.Proofs.Machine.Simulation
/-!
Adjustments: changes of a machine's settings, and of its display with them, that operations carry
along as long as they execute no instruction that works differently on the adjusted machine.

`simulation` says what every adjustment goes with, and `Carries` is what is asked of an instruction.
-/

namespace ChipEight

structure Adjustment where
  config : Config → Config
  display : Display → Display
  opsPerCycle : ∀ c, (config c).opsPerCycle = c.opsPerCycle
  clear : ∀ d, (display d).clear = display d.clear
  takeDirty : ∀ d, (display d).takeDirty = (display d.takeDirty.1, d.takeDirty.2)

namespace Adjustment

def apply (a : Adjustment) (m : Machine) : Machine :=
  { m with config := a.config m.config, display := a.display m.display }

/-- The second machine is the first one, adjusted. -/
def Relates (a : Adjustment) (m n : Machine) : Prop :=
  n = a.apply m

/-- The instruction works on the adjusted machine as it does on the machine. -/
structure Carries (a : Adjustment) (m : Machine) (i : Instruction) : Prop where
  value : ((a.apply m).effect i).value = (a.apply (m.effect i).value.1, (m.effect i).value.2)
  rejected : ((a.apply m).effect i).rejected = (m.effect i).rejected

variable {a : Adjustment} {m : Machine} {i : Instruction}

def change (a : Adjustment) : Change where
  config := a.config
  display := a.display

theorem Carries.actsAlike (h : a.Carries m i) :
    Machine.ActsAlike a.Relates m (a.apply m) i := by
  have hchange : a.change.Carries m i := ⟨h.value, h.rejected⟩
  have hfollow : ((a.apply m).acted i).follow (a.apply m).pc ((a.apply m).control i) =
      ((m.acted i).follow m.pc (m.control i)).map a.apply id :=
    hchange.follow
  refine ⟨hchange.actedLog.symm, ?_, ?_⟩
  · rw [hfollow]
    rfl
  · rw [hfollow]
    rfl

theorem start_apply (a : Adjustment) (m : Machine) (memory : Memory) :
    (a.apply m).start memory = a.apply (m.start memory) := by
  simp only [Machine.start, apply, a.clear]

theorem simulation (a : Adjustment) : Machine.Simulation a.Relates where
  state := by
    rintro m n rfl
    rfl
  pc := by
    rintro m n rfl
    rfl
  memory := by
    rintro m n rfl
    rfl
  latch := by
    rintro m n rfl
    rfl
  opsPerCycle := by
    rintro m n rfl
    exact a.opsPerCycle m.config
  stop := by
    rintro m n rfl pc
    rfl
  receive := by
    rintro m n rfl x key
    rfl
  tick := by
    rintro m n rfl
    rfl
  load := by
    rintro m n rfl rom
    unfold Machine.load
    split
    · exact ⟨rfl, rfl, a.start_apply m _⟩
    · exact ⟨rfl, rfl, rfl⟩
  pressKey := by
    rintro m n rfl key
    simp only [Machine.pressKey, apply]
    cases m.keypad.press key <;> exact ⟨rfl, rfl, rfl⟩
  releaseKey := by
    rintro m n rfl key
    simp only [Machine.releaseKey, apply]
    cases m.keypad.release key <;> exact ⟨rfl, rfl, rfl⟩
  takeDirty := by
    rintro m n rfl
    have hdisplay := a.takeDirty m.display
    simp only [Machine.takeDirty, apply, hdisplay]
    exact ⟨rfl, rfl, rfl⟩

theorem related_performAll {operations : List Operation}
    (hsettings : ∀ setting, .configure setting ∈ operations →
      ∀ m, (a.apply m).configure setting = a.apply (m.configure setting))
    (hcarries : ∀ s ∈ m.history operations, ∀ i, s.Fetches i → a.Carries s i) :
    (m.performAll operations).Related a.Relates ((a.apply m).performAll operations) := by
  apply a.simulation.performAll rfl
  · rintro setting hsetting m n rfl
    exact hsettings setting hsetting m
  · rintro s hs t rfl
    exact a.simulation.step rfl fun i hi => (hcarries s hs i hi).actsAlike

end Adjustment

end ChipEight
