import ChipEight.Proofs.Machine.Runs

namespace ChipEight

/-- The target is an address that an instruction can name, or such an address plus a register. -/
def Transfer.Within : Transfer → Prop
  | jump target | call target => target.toNat ≤ 0x10FE
  | _ => True

theorem Transfer.within_skipIf (condition : Bool) : (skipIf condition).Within := by
  cases condition <;> trivial

namespace CallStack

theorem slots_of_push {s t : CallStack} {address : UInt16} (h : s.push? address = some t) :
    ∃ hlt : s.depth < 16, t.slots = s.slots.set s.depth address hlt := by
  unfold push? at h
  split at h
  · next hlt =>
      cases h
      exact ⟨hlt, rfl⟩
  · cases h

theorem slots_of_pop {s t : CallStack} {address : UInt16} (h : s.pop? = some (address, t)) :
    0 < s.depth ∧ ∃ hlt : s.depth - 1 < 16, address = s.slots.get ⟨s.depth - 1, hlt⟩ := by
  have hle := s.depth_le
  unfold pop? at h
  split at h
  · cases h
  · cases h
    exact ⟨by omega, by omega, rfl⟩

end CallStack

namespace Machine

theorem toNat_jumpSum {address : UInt16} (h : address.toNat < 0x1000) (v : UInt8) :
    (address + v.toUInt16).toNat = address.toNat + v.toNat := by
  have hv := v.toNat_lt
  rw [UInt16.toNat_add, UInt8.toNat_toUInt16]
  exact Nat.mod_eq_of_lt (by simp; omega)

theorem within_control {m : Machine} {i : Instruction} (h : i.Fits) : (m.control i).Within := by
  cases i with
  | jump address | call address =>
      have haddress : address.toNat < 0x1000 := h
      show address.toNat ≤ 0x10FE
      omega
  | jumpPlus address =>
      have haddress : address.toNat < 0x1000 := h
      have hv := (m.registerValue (m.jumpOffset address)).toNat_lt
      show (address + (m.registerValue (m.jumpOffset address)).toUInt16).toNat ≤ 0x10FE
      rw [toNat_jumpSum haddress]
      omega
  | skipEqByte | skipNeByte | skipEq | skipNe | skipHeld | skipFree =>
      exact Transfer.within_skipIf _
  | _ => trivial

structure Bounded (m : Machine) : Prop where
  pc_le : m.pc.toNat ≤ 0x10FE
  returns : ∀ address ∈ m.stack.toList, 2 ≤ address.toNat ∧ address.toNat ≤ 0x1000
  register_le : ∀ x, m.state = .awaitingKey x → x.toNat ≤ 0xF
  delay_le : m.timers.delay ≤ 255
  sound_le : m.timers.sound ≤ 255

theorem bounded_initial (random : RandomSource) : (initial random).Bounded where
  pc_le := by
    show romStart.toNat ≤ 0x10FE
    decide
  returns := by
    rintro address ⟨⟩
  register_le := by
    rintro x ⟨⟩
  delay_le := Nat.zero_le _
  sound_le := Nat.zero_le _

namespace Bounded

variable {m : Machine}

theorem acted (h : m.Bounded) (hpc : m.pc.toNat < 0x1000) {i : Instruction} (hi : i.Fits) :
    (m.acted i).Bounded where
  pc_le := by
    have hbehind := Memory.toNat_succ_succ hpc
    show (m.pc + 2).toNat ≤ 0x10FE
    omega
  returns := by
    show ∀ address ∈ (m.effect i).value.1.stack.toList, _
    rw [stack_effect]
    exact h.returns
  register_le := by
    intro x hx
    change (m.effect i).value.1.state = .awaitingKey x at hx
    rw [state_effect] at hx
    split at hx
    · next y =>
        cases hx
        exact Nat.le_of_lt_succ hi
    · exact h.register_le x hx
  delay_le := by
    show (m.effect i).value.1.timers.delay ≤ 255
    rw [delay_effect]
    split
    · exact Nat.le_of_lt_succ (UInt8.toNat_lt _)
    · exact h.delay_le
  sound_le := by
    show (m.effect i).value.1.timers.sound ≤ 255
    rw [sound_effect]
    split
    · exact Nat.le_of_lt_succ (UInt8.toNat_lt _)
    · exact h.sound_le

theorem follow (h : m.Bounded) (hle : 2 ≤ m.pc.toNat) (hge : m.pc.toNat ≤ 0x1000)
    (address : UInt16) {t : Transfer} (ht : t.Within) : (m.follow address t).1.Bounded := by
  cases t with
  | next => exact h
  | jump target => exact { h with pc_le := ht }
  | skip =>
      simp only [Machine.follow]
      split
      · next bytes hfetch =>
          obtain ⟨hlt, -⟩ := Memory.fetch_eq_ok hfetch
          have hbehind : (m.pc + 2).toNat = m.pc.toNat + 2 := Memory.toNat_succ_succ (by omega)
          exact { h with pc_le := by dsimp only; omega }
      · next stop hfetch =>
          obtain ⟨-, rfl⟩ := Memory.fetch_eq_error hfetch
          have hstop : max m.pc.toNat 0x1000 = 0x1000 := by omega
          exact { h with pc_le := by simp [hstop] }
  | call target =>
      simp only [Machine.follow]
      split
      · next stack hpush =>
          refine { h with pc_le := ht, returns := ?_ }
          dsimp only
          rw [CallStack.toList_of_push hpush]
          exact List.forall_mem_cons.mpr ⟨⟨hle, hge⟩, h.returns⟩
      · exact h
  | ret =>
      simp only [Machine.follow]
      split
      · next target stack hpop =>
          -- A return restores what a call has pushed.
          have hreturns := h.returns
          rw [CallStack.toList_of_pop hpop] at hreturns
          obtain ⟨⟨-, htarget⟩, hrest⟩ := List.forall_mem_cons.mp hreturns
          exact { h with pc_le := by dsimp only; omega, returns := hrest }
      · exact h

theorem follow_acted (h : m.Bounded) {hi lo : UInt8} (hfetch : m.memory.fetch m.pc = .ok (hi, lo)) :
    ((m.acted (.decode hi lo)).follow m.pc (m.control (.decode hi lo))).1.Bounded := by
  obtain ⟨hlt, -⟩ := Memory.fetch_eq_ok hfetch
  have hbehind := toNat_pc_acted hfetch (.decode hi lo)
  have hfits := Instruction.fits_decode hi lo
  exact (h.acted (by omega) hfits).follow (by omega) (by omega) m.pc (within_control hfits)

theorem step (h : m.Bounded) : m.step.machine.Bounded := by
  have hstep := m.takes_step
  generalize m.step = outcome at hstep
  cases hstep with
  | halted hstate => exact h
  | waits hstate hlatch => exact h
  | receives hstate hlatch => exact { h with register_le := by rintro x ⟨⟩ }
  | misses hstate hfetch =>
      obtain ⟨-, rfl⟩ := Memory.fetch_eq_error hfetch
      have hpc := h.pc_le
      refine { h with pc_le := ?_, register_le := by rintro x ⟨⟩ }
      rw [Memory.toNat_stop]
      omega
  | executes hstate hfetch hdecode hfollow =>
      have hafter := hdecode ▸ h.follow_acted hfetch
      rwa [hfollow] at hafter
  | faults hstate hfetch hdecode hfollow =>
      have hafter := hdecode ▸ h.follow_acted hfetch
      rw [hfollow] at hafter
      exact { hafter with register_le := by rintro x ⟨⟩ }

theorem load (h : m.Bounded) (rom : List UInt8) : (m.load rom).machine.Bounded := by
  unfold Machine.load
  split
  · exact
      { pc_le := by
          show romStart.toNat ≤ 0x10FE
          decide
        returns := by
          intro address haddress
          change address ∈ m.stack.clear.toList at haddress
          rw [CallStack.toList_clear] at haddress
          cases haddress
        register_le := by
          rintro x ⟨⟩
        delay_le := Nat.zero_le _
        sound_le := Nat.zero_le _ }
  · exact h

end Bounded

theorem kept_bounded : Kept Bounded where
  configure m setting h := by
    cases setting <;> exact { h with }
  load m rom h := h.load rom
  step m h := h.step
  tick m h :=
    { h with
      delay_le := Nat.le_trans (Nat.sub_le _ _) h.delay_le
      sound_le := Nat.le_trans (Nat.sub_le _ _) h.sound_le }
  pressKey m key h := by
    obtain ⟨held, heq⟩ := m.exists_machine_pressKey key
    rw [heq]
    exact { h with }
  releaseKey m key h := by
    obtain ⟨held, heq⟩ := m.exists_machine_releaseKey key
    rw [heq]
    exact { h with }
  takeDirty m h := { h with }

theorem bounded_of_reachable {m : Machine} (h : m.Reachable) : m.Bounded :=
  kept_bounded.of_reachable bounded_initial h

theorem noSuchRegister_mem_of_rejected_mem {address origin : UInt16} {x : UInt8}
    {errors : List AccessError}
    (h : Event.rejected address (.noSuchRegister x) ∈ errors.map (.rejected origin)) :
    .noSuchRegister x ∈ errors := by
  obtain ⟨e, he, heq⟩ := List.mem_map.mp h
  cases heq
  exact he

theorem rejected_not_mem_remarks (address origin : UInt16) (e : AccessError) (i : Instruction) :
    Event.rejected address e ∉ i.remarks origin := by
  cases i <;> simp [Instruction.remarks]

theorem rejected_not_mem_actedLog {m : Machine} {i : Instruction} (hi : i.Fits) (address : UInt16)
    (x : UInt8) : Event.rejected address (.noSuchRegister x) ∉ m.actedLog i := by
  intro h
  rcases List.mem_cons.mp h with h | h
  · cases h
  · rcases List.mem_append.mp h with h | h
    · exact sparesRegisters_effect hi x (noSuchRegister_mem_of_rejected_mem h)
    · exact rejected_not_mem_remarks _ _ _ _ h

theorem Bounded.rejected_not_mem_log {m : Machine} (h : m.Bounded) (address : UInt16) (x : UInt8) :
    Event.rejected address (.noSuchRegister x) ∉ m.step.log := by
  have hstep := m.takes_step
  generalize m.step = outcome at hstep
  intro hmem
  cases hstep with
  | halted hstate => cases hmem
  | waits hstate hlatch => cases hmem
  | receives hstate hlatch =>
      rcases List.mem_cons.mp hmem with hmem | hmem
      · cases hmem
      · have hregister := Nat.lt_succ_of_le (h.register_le _ hstate)
        exact Memory.sparesRegisters_putRegister hregister _ x
          (noSuchRegister_mem_of_rejected_mem hmem)
  | misses hstate hfetch => simp at hmem
  | executes hstate hfetch hdecode hfollow =>
      exact rejected_not_mem_actedLog (hdecode ▸ Instruction.fits_decode _ _) address x hmem
  | faults hstate hfetch hdecode hfollow =>
      rcases List.mem_append.mp hmem with hmem | hmem
      · exact rejected_not_mem_actedLog (hdecode ▸ Instruction.fits_decode _ _) address x hmem
      · simp at hmem

/-- In the step of a machine no index, sum or narrowing leaves its range. -/
structure InRange (m : Machine) : Prop where
  call_slot : ∀ target, m.step.result = .ok (.executed (.call target)) →
    ∃ h : m.stack.depth < 16,
      m.step.machine.stack.slots = m.stack.slots.set m.stack.depth (m.pc + 2) h
  return_slot : m.step.result = .ok (.executed .ret) →
    0 < m.stack.depth ∧
      ∃ h : m.stack.depth - 1 < 16,
        m.step.machine.pc = m.stack.slots.get ⟨m.stack.depth - 1, h⟩
  jump_sum : ∀ address, m.step.result = .ok (.executed (.jumpPlus address)) →
    ∃ v, m.memory.register (m.jumpOffset address) = .ok v ∧
      address.toNat + v.toNat < 0x10000 ∧
      m.step.machine.pc.toNat = address.toNat + v.toNat
  /-- A program counter that goes past a byte it fetched does not wrap around. -/
  fetch_advance : ∀ pc bytes, m.memory.fetch pc = .ok bytes →
    (pc + 1).toNat = pc.toNat + 1 ∧ (pc + 2).toNat = pc.toNat + 2
  fetch_stop : ∀ pc stop, m.memory.fetch pc = .error stop →
    stop.toNat = pc.toNat ∨ stop.toNat = pc.toNat + 1
  executed_advance : ∀ i, m.step.result = .ok (.executed i) →
    (m.control i = .next → m.step.machine.pc.toNat = m.pc.toNat + 2) ∧
      (m.control i = .skip → m.step.machine.pc.toNat = m.pc.toNat + 4)
  fault_advance : ∀ fault, m.step.result = .error fault →
    m.pc.toNat ≤ m.step.machine.pc.toNat ∧ m.step.machine.pc.toNat ≤ m.pc.toNat + 3
  delay_kept : ∀ x, m.step.result = .ok (.executed (.readDelay x)) →
    ∃ v, m.step.machine.memory.register x = .ok v ∧ v.toNat = m.timers.delay
  registers_exist : ∀ address x, Event.rejected address (.noSuchRegister x) ∉ m.step.log

theorem fits_of_executed {m : Machine} {i : Instruction}
    (h : m.step.result = .ok (.executed i)) : i.Fits := by
  obtain ⟨-, ⟨hi, lo, -, rfl⟩, -⟩ := follow_of_executed h
  exact Instruction.fits_decode hi lo

theorem toNat_pc_of_follow {m after : Machine} {i : Instruction} {hi lo : UInt8}
    (hfetch : m.memory.fetch m.pc = .ok (hi, lo))
    (hfollow : (m.acted i).follow m.pc (m.control i) = (after, none)) :
    (m.control i = .next → after.pc.toNat = m.pc.toNat + 2) ∧
      (m.control i = .skip → after.pc.toNat = m.pc.toNat + 4) := by
  have hacted := toNat_pc_acted hfetch i
  constructor
  · intro hnext
    rw [hnext] at hfollow
    cases hfollow
    exact hacted
  · intro hskip
    rw [hskip] at hfollow
    simp only [Machine.follow] at hfollow
    split at hfollow
    · next bytes hbehind =>
        obtain ⟨hlt, -⟩ := Memory.fetch_eq_ok hbehind
        have hskipped : ((m.acted i).pc + 2).toNat = (m.acted i).pc.toNat + 2 :=
          Memory.toNat_succ_succ (by omega)
        cases hfollow
        dsimp only
        omega
    · simp at hfollow

theorem toNat_pc_of_fault {m : Machine} {fault : Fault} (h : m.step.result = .error fault) :
    m.pc.toNat ≤ m.step.machine.pc.toNat ∧ m.step.machine.pc.toNat ≤ m.pc.toNat + 3 := by
  have hstep := m.takes_step
  generalize m.step = outcome at h hstep
  cases hstep with
  | waits | receives | executes => cases h
  | halted hstate => exact ⟨Nat.le_refl _, by dsimp only; omega⟩
  | misses hstate hfetch =>
      obtain ⟨hle, rfl⟩ := Memory.fetch_eq_error hfetch
      dsimp only
      rw [Memory.toNat_stop]
      omega
  | faults hstate hfetch hdecode hfollow =>
      have hacted := toNat_pc_acted hfetch
      rcases follow_eq_fault hfollow with ⟨stop, -, hskip, -, rfl⟩ | ⟨-, -, -, -, rfl⟩ | ⟨-, -, -, rfl⟩
      · obtain ⟨hle, rfl⟩ := Memory.fetch_eq_error hskip
        obtain ⟨hlt, -⟩ := Memory.fetch_eq_ok hfetch
        rw [hacted] at hle
        dsimp only
        rw [Memory.toNat_stop, hacted]
        omega
      · dsimp only
        rw [hacted]
        omega
      · dsimp only
        rw [hacted]
        omega

theorem Bounded.inRange {m : Machine} (hm : m.Bounded) : m.InRange where
  call_slot := by
    intro target h
    obtain ⟨-, -, hfollow⟩ := follow_of_executed h
    simp only [control, Machine.follow, stack_acted] at hfollow
    split at hfollow
    · next stack hpush =>
        have hmachine : _ = m.step.machine := congrArg Prod.fst hfollow
        rw [← hmachine]
        exact CallStack.slots_of_push hpush
    · simp at hfollow
  return_slot := by
    intro h
    obtain ⟨-, -, hfollow⟩ := follow_of_executed h
    simp only [control, Machine.follow, stack_acted] at hfollow
    split at hfollow
    · next target stack hpop =>
        have hmachine : _ = m.step.machine := congrArg Prod.fst hfollow
        rw [← hmachine]
        exact CallStack.slots_of_pop hpop
    · simp at hfollow
  jump_sum := by
    intro address h
    have haddress : address.toNat < 0x1000 := fits_of_executed h
    have hoffset := toNat_jumpOffset_lt (m := m) haddress
    have hv := (m.memory.v.values[(m.jumpOffset address).toNat]).toNat_lt
    obtain ⟨-, -, hfollow⟩ := follow_of_executed h
    have hmachine : _ = m.step.machine := congrArg Prod.fst hfollow
    refine ⟨_, Registers.get_of_lt hoffset, by omega, ?_⟩
    rw [← hmachine, ← registerValue_of_lt hoffset]
    exact toNat_jumpSum haddress _
  fetch_advance := by
    intro pc bytes h
    obtain ⟨hlt, -⟩ := Memory.fetch_eq_ok h
    exact ⟨Memory.toNat_succ (by omega), Memory.toNat_succ_succ (by omega)⟩
  fetch_stop := by
    intro pc stop h
    obtain ⟨hle, rfl⟩ := Memory.fetch_eq_error h
    rw [Memory.toNat_stop]
    omega
  executed_advance := by
    intro i h
    obtain ⟨-, ⟨hi, lo, hfetch, rfl⟩, hfollow⟩ := follow_of_executed h
    exact toNat_pc_of_follow hfetch hfollow
  fault_advance := fun fault h => toNat_pc_of_fault h
  delay_kept := by
    intro x h
    have hx : x.toNat < 0x10 := fits_of_executed h
    obtain ⟨-, -, hfollow⟩ := follow_of_executed h
    have hmachine : _ = m.step.machine := congrArg Prod.fst hfollow
    refine ⟨UInt8.ofNat m.timers.delay, ?_, ?_⟩
    · rw [← hmachine]
      show (m.memory.putRegister x (UInt8.ofNat m.timers.delay)).value.v.get x = _
      rw [Memory.putRegister_of_lt hx, Registers.get_of_lt hx]
      simp
    · have hdelay := hm.delay_le
      rw [UInt8.toNat_ofNat']
      exact Nat.mod_eq_of_lt (by omega)
  registers_exist := hm.rejected_not_mem_log

theorem bounded_and_inRange_of_reachable {m : Machine} (h : m.Reachable) :
    (m.stack.depth ≤ 16 ∧ m.Bounded ∧ ∀ key, m.keypad.latch = some key → key.val ≤ 0xF) ∧
      ∀ operation, (∀ s ∈ m.stepStarts operation, s.InRange) ∧
        ∀ address x, Event.rejected address (.noSuchRegister x) ∉ (m.perform operation).log := by
  have hbounded := bounded_of_reachable h
  refine ⟨⟨m.stack.depth_le, hbounded, fun key _ => Nat.le_of_lt_succ key.isLt⟩, ?_⟩
  intro operation
  have hstarts := kept_bounded.forall_mem_stepStarts hbounded operation
  refine ⟨fun s hs => (hstarts s hs).inRange, ?_⟩
  intro address x hmem
  rcases mem_log_perform hmem with ⟨s, hs, hlog⟩ | ⟨size, hload⟩
  · exact (hstarts s hs).rejected_not_mem_log address x hlog
  · cases hload

/-- The jump BFFF with 0xFF in V0 leads to the largest program counter there is. -/
theorem bounded_and_inRange_at_largest_pc :
    let m := ((initial (.ofSeed 0)).performAll [.load [0x60, 0xFF, 0xBF, 0xFF], .step, .step]).machine
    m.pc = 0x10FE ∧ m.Bounded ∧ m.InRange := by
  intro m
  have hm : m.Reachable := ⟨_, _, rfl⟩
  have h := bounded_and_inRange_of_reachable hm
  refine ⟨by decide +kernel, h.1.2.1, ?_⟩
  exact (h.2 .step).1 m (List.mem_singleton_self m)

end Machine

end ChipEight
