import Mathlib.Control.Monad.Basic
import ChipEight.Machine.Operation
import ChipEight.Proofs.Machine.Bounds
import ChipEight.Proofs.Machine.Faults

namespace ChipEight.Machine

/-- The register that BNNN adds to its address: V0, or in the other dialect the one whose number the
address begins with. -/
def baseRegister (m : Machine) (word : Nat) : UInt8 :=
  if m.config.dialect.jumpAddOffset then UInt8.ofNat (word / 0x100 % 0x10) else 0

/-- Where the program goes on after an instruction word. -/
inductive GoesOnAt (m : Machine) (word : Nat) : Nat → Prop
  | jump (hword : word / 0x1000 = 1 ∨ word / 0x1000 = 2) : GoesOnAt m word (word % 0x1000)
  | jumpPlus (hword : word / 0x1000 = 0xB) :
      GoesOnAt m word (word % 0x1000 + (m.registerValue (m.baseRegister word)).toNat)
  | ret {address : UInt16} {rest : List UInt16} (hword : word = 0x00EE)
      (hstack : m.stack.toList = address :: rest) : GoesOnAt m word address.toNat
  | skip (hskips : m.SkipsOn word) : GoesOnAt m word (m.pc.toNat + 4)
  | next (hjump : word / 0x1000 ≠ 1) (hcall : word / 0x1000 ≠ 2) (hplus : word / 0x1000 ≠ 0xB)
      (hret : word ≠ 0x00EE) (hskips : ¬ m.SkipsOn word) : GoesOnAt m word (m.pc.toNat + 2)

variable {m : Machine} {word : Nat}

theorem SkipsOn.highNibble (h : m.SkipsOn word) :
    word / 0x1000 = 3 ∨ word / 0x1000 = 4 ∨ word / 0x1000 = 5 ∨ word / 0x1000 = 9 ∨
      word / 0x1000 = 0xE := by
  unfold SkipsOn at h
  omega

theorem GoesOnAt.unique {first second : Nat} (hfirst : m.GoesOnAt word first)
    (hsecond : m.GoesOnAt word second) : first = second := by
  cases hfirst <;> cases hsecond <;> grind [SkipsOn.highNibble]

section Targets

open Instruction

variable {hi lo : UInt8} {target : UInt16}

theorem toNat_address (hi lo : UInt8) :
    (wordOfBytes (hi &&& 0xF) lo).toNat = (0x100 * hi.toNat + lo.toNat) % 0x1000 := by
  have hlo := lo.toNat_lt
  rw [toNat_wordOfBytes, toNat_lowNibble]
  omega

theorem jumpOffset_wordOfBytes (hi lo : UInt8) :
    m.jumpOffset (wordOfBytes (hi &&& 0xF) lo) = m.baseRegister (0x100 * hi.toNat + lo.toNat) := by
  have hlo := lo.toNat_lt
  unfold jumpOffset baseRegister
  split
  · rw [← UInt8.toNat_inj, UInt16.toNat_toUInt8, UInt16.toNat_shiftRight, toNat_address,
      UInt8.toNat_ofNat', Nat.shiftRight_eq_div_pow]
    show (0x100 * hi.toNat + lo.toNat) % 0x1000 / 0x100 % 0x100 = _
    omega
  · rfl

theorem exists_control_eq_jump_iff :
    (∃ target, m.control (decode hi lo) = .jump target) ↔
      (0x100 * hi.toNat + lo.toNat) / 0x1000 = 1 ∨
        (0x100 * hi.toNat + lo.toNat) / 0x1000 = 0xB := by
  rw [control_decode, highNibble_word]
  generalize hi.toNat / 0x10 = high
  split
  · split <;> simp
  all_goals simp_all [Transfer.skipIf_ne_jump, control]

theorem toNat_of_control_call (h : m.control (decode hi lo) = .call target) :
    target.toNat = (0x100 * hi.toNat + lo.toNat) % 0x1000 := by
  have hword := exists_control_eq_call_iff.mp ⟨target, h⟩
  rw [highNibble_word] at hword
  rw [control_decode, hword] at h
  rw [← Transfer.call.inj h, toNat_address]

theorem toNat_of_control_jump (h : m.control (decode hi lo) = .jump target) :
    let word := 0x100 * hi.toNat + lo.toNat
    word / 0x1000 = 1 ∧ target.toNat = word % 0x1000 ∨
      word / 0x1000 = 0xB ∧
        target.toNat = word % 0x1000 + (m.registerValue (m.baseRegister word)).toNat := by
  intro word
  rcases exists_control_eq_jump_iff.mp ⟨target, h⟩ with hword | hword
  · have hhigh := (highNibble_word hi lo).symm.trans hword
    rw [control_decode, hhigh] at h
    rw [← Transfer.jump.inj h]
    exact .inl ⟨hword, toNat_address hi lo⟩
  · have hhigh := (highNibble_word hi lo).symm.trans hword
    have hbound : (wordOfBytes (hi &&& 0xF) lo).toNat < 0x1000 :=
      toNat_wordOfBytes_lt (toNat_lowNibble_lt hi) lo
    rw [control_decode, hhigh] at h
    rw [← Transfer.jump.inj h, toNat_jumpSum hbound, jumpOffset_wordOfBytes, toNat_address]
    exact .inr ⟨hword, rfl⟩

end Targets

theorem goesOnAt_of_follow {after : Machine} {hi lo : UInt8}
    (hfetch : m.memory.fetch m.pc = .ok (hi, lo))
    (hfollow : (m.acted (.decode hi lo)).follow m.pc (m.control (.decode hi lo)) = (after, none)) :
    m.GoesOnAt (0x100 * hi.toNat + lo.toNat) after.pc.toNat := by
  have hadvance := toNat_pc_of_follow hfetch hfollow
  have hjump : (∃ target, m.control (.decode hi lo) = .jump target) ↔ _ :=
    exists_control_eq_jump_iff
  have hcall : (∃ target, m.control (.decode hi lo) = .call target) ↔ _ :=
    exists_control_eq_call_iff
  cases hcontrol : m.control (.decode hi lo) with
  | next =>
      -- A word that is no jump, call, return or skip goes on to the next one.
      rw [hadvance.1 hcontrol]
      simp only [hcontrol, reduceCtorEq, exists_false, false_iff, not_or] at hjump hcall
      refine .next hjump.1 hcall hjump.2 ?_ ?_
      · rw [ne_eq, ← control_eq_ret_iff (m := m), hcontrol]
        simp
      · rw [← control_eq_skip_iff, hcontrol]
        simp
  | skip =>
      rw [hadvance.2 hcontrol]
      exact .skip (control_eq_skip_iff.mp hcontrol)
  | jump target =>
      rw [hcontrol] at hfollow
      cases hfollow
      rcases toNat_of_control_jump hcontrol with ⟨hword, htarget⟩ | ⟨hword, htarget⟩
      · show m.GoesOnAt _ target.toNat
        rw [htarget]
        exact .jump (.inl hword)
      · show m.GoesOnAt _ target.toNat
        rw [htarget]
        exact .jumpPlus hword
  | call target =>
      rw [hcontrol] at hfollow
      simp only [follow] at hfollow
      split at hfollow
      · cases hfollow
        show m.GoesOnAt _ target.toNat
        rw [toNat_of_control_call hcontrol]
        exact .jump (.inr (hcall.mp ⟨target, hcontrol⟩))
      · cases hfollow
  | ret =>
      rw [hcontrol] at hfollow
      simp only [follow, stack_acted] at hfollow
      split at hfollow
      · next target stack hpop =>
          cases hfollow
          exact .ret (control_eq_ret_iff.mp hcontrol) (CallStack.toList_of_pop hpop)
      · cases hfollow

theorem exists_wordAt?_of_skip {after : Machine} {hi lo : UInt8}
    (hfetch : m.memory.fetch m.pc = .ok (hi, lo))
    (hfollow : (m.acted (.decode hi lo)).follow m.pc (m.control (.decode hi lo)) = (after, none))
    (hskips : m.SkipsOn (0x100 * hi.toNat + lo.toNat)) :
    ∃ skipped, m.memory.wordAt? (m.pc.toNat + 2) = some skipped := by
  rw [control_eq_skip_iff.mpr hskips] at hfollow
  simp only [follow] at hfollow
  split at hfollow
  · next bytes hbehind =>
      obtain ⟨hlt, -⟩ := Memory.fetch_eq_ok hbehind
      rw [toNat_pc_acted hfetch] at hlt
      exact ⟨_, dif_pos hlt⟩
  · cases hfollow

theorem step_goes_on (m : Machine) :
    (∀ i, m.step.result = .ok (.executed i) →
      ∃ hi lo, m.memory.wordAt? m.pc.toNat = some (0x100 * hi.toNat + lo.toNat) ∧
        i = .decode hi lo ∧
        (∀ next, m.GoesOnAt (0x100 * hi.toNat + lo.toNat) next ↔ m.step.machine.pc.toNat = next) ∧
        (m.SkipsOn (0x100 * hi.toNat + lo.toNat) →
          ∃ skipped, m.memory.wordAt? (m.pc.toNat + 2) = some skipped)) ∧
      (∀ step, m.step.result = .ok step → (∀ i, step ≠ .executed i) →
        m.step.machine.pc = m.pc) ∧
      ∀ key, 0xF < key.toNat → m.keypad.isHeld key = false := by
  refine ⟨?_, ?_, fun key => Keypad.isHeld_of_le⟩
  · intro i h
    obtain ⟨-, ⟨hi, lo, hfetch, rfl⟩, hfollow⟩ := follow_of_executed h
    have hgoes := goesOnAt_of_follow hfetch hfollow
    refine ⟨hi, lo, wordAt?_of_fetch hfetch, rfl, ?_, exists_wordAt?_of_skip hfetch hfollow⟩
    intro next
    constructor
    · exact hgoes.unique
    · rintro rfl
      exact hgoes
  · intro step h hexecutes
    have hstep := m.takes_step
    generalize m.step = outcome at h hstep
    cases hstep with
    | halted | misses | faults => cases h
    | waits | receives => rfl
    | executes =>
        cases h
        exact absurd rfl (hexecutes _)

theorem step_goes_on_past_offset :
    let m := ((initial (.ofSeed 0)).performAll
      [.configure (.jumpAddOffset true), .load [0x63, 0x10, 0xB3, 0xF8], .step]).machine
    m.step.result = .ok (.executed (.jumpPlus 0x3F8)) ∧ m.step.machine.pc.toNat = 0x408 := by
  intro m
  have hexecuted : m.step.result = .ok (.executed (.jumpPlus 0x3F8)) := by decide +kernel
  obtain ⟨hgoes, -, -⟩ := step_goes_on m
  obtain ⟨hi, lo, hword, -, hnext, -⟩ := hgoes _ hexecuted
  have hvalue : m.memory.wordAt? m.pc.toNat = some 0xB3F8 ∧
      (m.registerValue (m.baseRegister 0xB3F8)).toNat = 0x10 := by
    decide +kernel
  rw [hvalue.1] at hword
  rw [← Option.some.inj hword] at hnext
  refine ⟨hexecuted, (hnext _).mp ?_⟩
  have hplus : m.GoesOnAt 0xB3F8 (0x3F8 + _) := .jumpPlus rfl
  rwa [hvalue.2] at hplus

end ChipEight.Machine
