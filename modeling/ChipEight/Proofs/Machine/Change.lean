import ChipEight.Proofs.Machine.StepRules

namespace ChipEight

structure Change where
  config : Config → Config := id
  display : Display → Display := id
  keypad : Keypad → Keypad := id
  timers : Timers → Timers := id

namespace Change

def apply (c : Change) (m : Machine) : Machine :=
  { m with
    config := c.config m.config
    display := c.display m.display
    keypad := c.keypad m.keypad
    timers := c.timers m.timers }

/-- The instruction does to the changed machine what it does to the machine. -/
structure Carries (c : Change) (m : Machine) (i : Instruction) : Prop where
  value : ((c.apply m).effect i).value = (c.apply (m.effect i).value.1, (m.effect i).value.2)
  rejected : ((c.apply m).effect i).rejected = (m.effect i).rejected

/-- A wait for a key goes on or ends as it would without the change. -/
def SparesWait (c : Change) (m : Machine) : Prop :=
  ∀ x, m.state = .awaitingKey x →
    (c.keypad m.keypad).latch = m.keypad.latch ∧
      (c.keypad m.keypad).takePress.1 = c.keypad m.keypad.takePress.1

variable {c : Change} {m : Machine} {i : Instruction}

namespace Carries

theorem actedLog (h : c.Carries m i) : (c.apply m).actedLog i = m.actedLog i := by
  simp only [Machine.actedLog, h.rejected]
  rfl

theorem follow (h : c.Carries m i) :
    ((c.apply m).acted i).follow (c.apply m).pc ((c.apply m).control i) =
      ((m.acted i).follow m.pc (m.control i)).map c.apply id := by
  have hcontrol : (c.apply m).control i = m.control i := by
    rw [← Machine.transfer_effect, ← Machine.transfer_effect, h.value]
  have hacted : (c.apply m).acted i = c.apply (m.acted i) := by
    simp only [Machine.acted, h.value, h.rejected]
    rfl
  rw [hcontrol, hacted]
  exact Machine.follow_map rfl rfl rfl fun _ _ => rfl

end Carries

theorem takes_apply (hwait : c.SparesWait m) (hcarries : ∀ i, m.Fetches i → c.Carries m i)
    {outcome : Outcome (Except Fault Step)} (hm : m.Takes outcome) :
    (c.apply m).Takes { outcome with machine := c.apply outcome.machine } := by
  cases hm with
  | halted hstate => exact .halted hstate
  | misses hstate hfetch => exact .misses hstate hfetch
  | waits hstate hlatch => exact .waits hstate ((hwait _ hstate).1.trans hlatch)
  | @receives x key hstate hlatch =>
      obtain ⟨hkept, htaken⟩ := hwait x hstate
      have hreceived : (c.apply m).received x key = c.apply (m.received x key) :=
        congrArg (fun keypad : Keypad =>
          { c.apply (m.received x key) with keypad := keypad }) htaken
      rw [← hreceived]
      exact .receives hstate (hkept.trans hlatch)
  | @executes hi lo i after hstate hfetch hdecode hfollow =>
      have hi := hcarries i ⟨hstate, hi, lo, hfetch, hdecode⟩
      have hchanged := hi.follow
      rw [hfollow] at hchanged
      rw [← hi.actedLog]
      exact .executes hstate hfetch hdecode hchanged
  | @faults hi lo i after fault hstate hfetch hdecode hfollow =>
      have hi := hcarries i ⟨hstate, hi, lo, hfetch, hdecode⟩
      have hchanged := hi.follow
      rw [hfollow] at hchanged
      have htakes := Machine.Takes.faults (m := c.apply m) hstate hfetch hdecode hchanged
      rwa [hi.actedLog] at htakes

theorem step_apply (hwait : c.SparesWait m) (hcarries : ∀ i, m.Fetches i → c.Carries m i) :
    (c.apply m).step = { m.step with machine := c.apply m.step.machine } :=
  Machine.step_eq_of_takes (takes_apply hwait hcarries m.takes_step)

end Change

end ChipEight
