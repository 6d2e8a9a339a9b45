import ChipEight.Proofs.Machine.Bounds
import ChipEight.Proofs.Machine.Halting
import Mathlib.Algebra.Group.Nat.Defs
import Mathlib.Data.List.Basic

namespace ChipEight.Machine

/-- The addresses outside of memory that are touched by the instruction that the next step executes,
one for each byte. -/
def outsideAddresses (m : Machine) : List Nat :=
  match m.executed? with
  | some i => (m.touchedAddresses i).filter (0x1000 ≤ ·)
  | none => []

/-- The number in VX of the next EX9E or EXA1, if it belongs to no key. -/
def missingKey? (m : Machine) : Option UInt8 :=
  match m.fetched? with
  | some (.skipHeld x) | some (.skipFree x) => (some (m.registerValue x)).filter (0xF < ·.toNat)
  | _ => none

/-- The instruction word that the next step passes over, because it stands for no instruction. -/
def unknownWord? (m : Machine) : Option UInt16 :=
  match m.executed? with
  | some (.unknown word) => some word
  | _ => none

def warnings (m : Machine) : List Event :=
  m.outsideAddresses.map (fun address => .rejected m.pc (.noSuchAddress address)) ++
    m.missingKey?.toList.map (fun key => .rejected m.pc (.noSuchKey key)) ++
    m.unknownWord?.toList.map (.unknownOpcode m.pc)

section Step

variable {m : Machine} {i : Instruction}

namespace Fetches

/-- An instruction that transfers control elsewhere touches no memory, so it makes no difference to
the addresses whether that faults. -/
theorem outsideAddresses_eq (h : m.Fetches i) :
    m.outsideAddresses = (m.touchedAddresses i).filter (0x1000 ≤ ·) := by
  by_cases hnext : m.control i = .next
  · rw [outsideAddresses, executed?_eq_some_iff.mpr (h.executed_of_next hnext)]
  · have hnone : m.touchedAddresses i = [] := by
      cases i with
      | draw | decimal | store | load => exact absurd rfl hnext
      | _ => rfl
    rw [hnone]
    unfold outsideAddresses
    split
    · next j hexecuted =>
        rw [(Fetches.of_executed? hexecuted).unique h, hnone]
    · rfl

theorem missingKey?_eq (h : m.Fetches i) :
    m.missingKey?.toList = (m.askedKeys i).filter (0x10 ≤ ·.toNat) := by
  unfold missingKey?
  rw [fetched?_eq_some_iff.mpr h]
  cases i with
  | skipHeld x | skipFree x => exact Option.toList_filter
  | _ => rfl

theorem rejections_eq (h : m.Fetches i) :
    m.rejections i =
      m.outsideAddresses.map .noSuchAddress ++ m.missingKey?.toList.map .noSuchKey := by
  rw [h.outsideAddresses_eq, h.missingKey?_eq, rejections]

theorem anomalies_step (h : m.Fetches i) :
    m.step.machine.anomalies = m.anomalies + (m.rejections i).length := by
  obtain ⟨stack, pc, hafter⟩ := exists_follow_eq (m.acted i) m.pc (m.control i)
  rw [h.step_eq, ← rejected_effect h.fits]
  split
  · next after hfollow =>
      rw [hfollow] at hafter
      subst hafter
      rfl
  · next after fault hfollow =>
      rw [hfollow] at hafter
      subst hafter
      rfl

theorem length_rejections_le (h : m.Fetches i) : (m.rejections i).length ≤ 16 := by
  have hfits := h.fits
  have hsum : (m.rejections i).length ≤
      (m.touchedAddresses i).length + (m.askedKeys i).length := by
    rw [rejections, List.length_append, List.length_map, List.length_map]
    exact Nat.add_le_add (List.length_filter_le _ _) (List.length_filter_le _ _)
  refine Nat.le_trans hsum ?_
  cases i with
  | draw x y rows =>
      have hrows : rows.toNat < 0x10 := hfits.2.2
      simp only [touchedAddresses, askedKeys, List.length_range', List.length_nil]
      omega
  | store x | load x =>
      have hx : x.toNat < 0x10 := hfits
      simp only [touchedAddresses, askedKeys, List.length_range', List.length_nil]
      omega
  | _ => simp [touchedAddresses, askedKeys]

theorem remarks_filter_warn (h : m.Fetches i) :
    (i.remarks m.pc).filter (·.level = .warn) = m.unknownWord?.toList.map (.unknownOpcode m.pc) := by
  by_cases hunknown : ∃ word, i = .unknown word
  · obtain ⟨word, rfl⟩ := hunknown
    rw [unknownWord?, executed?_eq_some_iff.mpr (h.executed_of_next rfl)]
    rfl
  · have hnone : m.unknownWord? = none := by
      unfold unknownWord?
      split
      · next word hexecuted =>
          exact absurd ⟨word, h.unique (Fetches.of_executed? hexecuted)⟩ hunknown
      · rfl
    rw [hnone]
    cases i with
    | unknown word => exact absurd ⟨word, rfl⟩ hunknown
    | _ => rfl

theorem filter_warn_step (h : m.Fetches i) :
    m.step.log.filter (·.level = .warn) = m.warnings := by
  have hacted : (m.actedLog i).filter (·.level = .warn) = m.warnings := by
    have hrejected : ∀ errors : List AccessError,
        (errors.map (Event.rejected m.pc)).filter (·.level = .warn) =
          errors.map (.rejected m.pc) := by
      intro errors
      apply List.filter_eq_self.mpr
      intro e he
      obtain ⟨error, -, rfl⟩ := List.mem_map.mp he
      rfl
    rw [actedLog, List.filter_cons_of_neg (by simp [Event.level]), List.filter_append, hrejected,
      h.remarks_filter_warn, rejected_effect h.fits, h.rejections_eq, warnings, List.map_append,
      List.map_map, List.map_map]
    rfl
  rw [h.step_eq]
  split
  · exact hacted
  · rw [List.filter_append, hacted]
    exact List.append_nil _

end Fetches

/-- A step that fetches nothing rejects nothing: the register that a key goes to exists. -/
theorem Bounded.quiet_step (hm : m.Bounded) (h : m.fetched? = none) :
    m.step.machine.anomalies = m.anomalies ∧ m.step.log.filter (·.level = .warn) = [] := by
  have hno : ∀ i, ¬ m.Fetches i := by
    intro i hi
    rw [fetched?_eq_some_iff.mpr hi] at h
    cases h
  have hstep := m.takes_step
  generalize m.step = outcome at hstep
  cases hstep with
  | halted | waits | misses => exact ⟨rfl, rfl⟩
  | receives hstate hlatch =>
      have hregister := Nat.lt_succ_of_le (hm.register_le _ hstate)
      refine ⟨?_, ?_⟩
      · simp [received, Memory.putRegister_of_lt hregister]
      · simp [Memory.putRegister_of_lt hregister, Event.level]
  | executes hstate hfetch hdecode => exact absurd ⟨hstate, _, _, hfetch, hdecode⟩ (hno _)
  | faults hstate hfetch hdecode => exact absurd ⟨hstate, _, _, hfetch, hdecode⟩ (hno _)

theorem eq_none_of_not_fetched (h : m.fetched? = none) :
    m.outsideAddresses = [] ∧ m.missingKey? = none ∧ m.unknownWord? = none := by
  have hexecuted : m.executed? = none := by
    rw [Option.eq_none_iff_forall_ne_some]
    intro i hi
    rw [fetched?_eq_some_iff.mpr (Fetches.of_executed? hi)] at h
    cases h
  refine ⟨?_, ?_, ?_⟩
  · rw [outsideAddresses, hexecuted]
  · rw [missingKey?, h]
  · rw [unknownWord?, hexecuted]

theorem Bounded.anomalies_step (hm : m.Bounded) :
    m.step.machine.anomalies =
      m.anomalies + (m.outsideAddresses.length + m.missingKey?.toList.length) := by
  cases hfetched : m.fetched? with
  | none =>
      obtain ⟨hanomalies, -⟩ := hm.quiet_step hfetched
      obtain ⟨houtside, hkey, -⟩ := eq_none_of_not_fetched hfetched
      rw [hanomalies, houtside, hkey]
      rfl
  | some i =>
      have hi := fetched?_eq_some_iff.mp hfetched
      rw [hi.anomalies_step, hi.rejections_eq, List.length_append, List.length_map,
        List.length_map]

theorem Bounded.anomalies_step_le (hm : m.Bounded) :
    m.step.machine.anomalies ≤ m.anomalies + 16 := by
  cases hfetched : m.fetched? with
  | none =>
      rw [(hm.quiet_step hfetched).1]
      exact Nat.le_add_right _ _
  | some i =>
      have hi := fetched?_eq_some_iff.mp hfetched
      rw [hi.anomalies_step]
      exact Nat.add_le_add_left hi.length_rejections_le _

theorem Bounded.filter_warn_step (hm : m.Bounded) :
    m.step.log.filter (·.level = .warn) = m.warnings := by
  cases hfetched : m.fetched? with
  | none =>
      obtain ⟨-, hlog⟩ := hm.quiet_step hfetched
      obtain ⟨houtside, hkey, hunknown⟩ := eq_none_of_not_fetched hfetched
      rw [hlog, warnings, houtside, hkey, hunknown]
      rfl
  | some i => exact (fetched?_eq_some_iff.mp hfetched).filter_warn_step

theorem text_of_mem_warnings {e : Event} (h : e ∈ m.warnings) :
    ∃ rest, e.text = Numeral.hexPrefixed 3 m.pc.toNat ++ ": " ++ rest := by
  rcases List.mem_append.mp h with h | h
  · rcases List.mem_append.mp h with h | h
    · obtain ⟨address, -, rfl⟩ := List.mem_map.mp h
      exact ⟨_, rfl⟩
    · obtain ⟨key, -, rfl⟩ := List.mem_map.mp h
      exact ⟨_, rfl⟩
  · obtain ⟨word, -, rfl⟩ := List.mem_map.mp h
    have hcolon : ": unknown opcode " = ": " ++ "unknown opcode " := by decide
    refine ⟨"unknown opcode " ++ Numeral.hexPrefixed 4 word.toNat, ?_⟩
    rw [Event.text, hcolon]
    simp only [String.append_assoc]

theorem Fetches.state_of_executed (h : m.Fetches i) (hresult : m.step.result = .ok (.executed i))
    (hwait : ∀ x, i ≠ .awaitKey x) : m.step.machine.state = .running := by
  obtain ⟨hrunning, -, hfollow⟩ := follow_of_executed hresult
  obtain ⟨stack, pc, hafter⟩ := exists_follow_eq (m.acted i) m.pc (m.control i)
  rw [hfollow] at hafter
  change m.step.machine = _ at hafter
  rw [hafter]
  show (m.effect i).value.1.state = .running
  rw [state_effect]
  split
  · next x => exact absurd rfl (hwait x)
  · exact hrunning

theorem AsksForNoKey.fetch_eq_error {fault : Fault} (h : m.AsksForNoKey)
    (hfault : m.step.result = .error fault) :
    m.memory.fetch (m.pc + 2) = .error 0x1000 ∧ fault = .fetchOutOfBounds 0x1000 := by
  obtain ⟨x, hfetches, hkey⟩ := h
  have hpc := hfetches.toNat_pc_lt
  have hskip : m.control (.skipFree x) = .skip := by
    rw [control, Keypad.isHeld_of_le hkey]
    rfl
  have hmemory : (m.acted (.skipFree x)).memory = m.memory := rfl
  have hbehind : (m.acted (.skipFree x)).pc = m.pc + 2 := rfl
  rw [hfetches.step_eq, hskip] at hfault
  cases hnext : m.memory.fetch (m.pc + 2) with
  | ok bytes => simp [follow, hmemory, hbehind, hnext] at hfault
  | error stop =>
      simp only [follow, hmemory, hbehind, hnext, Except.error.injEq] at hfault
      obtain ⟨hle, rfl⟩ := Memory.fetch_eq_error hnext
      rw [Memory.toNat_succ_succ (by omega)] at hle hfault ⊢
      have hmax : max (m.pc.toNat + 2) 0x1000 = 0x1000 := by omega
      rw [hmax] at hfault ⊢
      exact ⟨rfl, hfault.symm⟩

theorem exists_fetches_of_rejected (h : m.outsideAddresses ≠ [] ∨ m.missingKey? ≠ none) :
    ∃ i, m.Fetches i ∧ m.rejections i ≠ [] := by
  cases hfetched : m.fetched? with
  | none =>
      obtain ⟨houtside, hkey, -⟩ := eq_none_of_not_fetched hfetched
      rcases h with h | h
      · exact absurd houtside h
      · exact absurd hkey h
  | some i =>
      have hi := fetched?_eq_some_iff.mp hfetched
      refine ⟨i, hi, ?_⟩
      rw [hi.rejections_eq]
      simpa [or_iff_not_imp_left] using h

/-- After a rejected access a machine goes on, unless what EXA1 skips is not there: then it stops as it
does whenever the next instruction is outside of memory. -/
theorem goes_on_or_skips_out (h : m.outsideAddresses ≠ [] ∨ m.missingKey? ≠ none) :
    (∃ i, m.step.result = .ok (.executed i)) ∧ m.step.machine.state = .running ∨
      m.AsksForNoKey ∧ m.memory.fetch (m.pc + 2) = .error 0x1000 ∧
        m.step.result = .error (.fetchOutOfBounds 0x1000) := by
  obtain ⟨i, hi, hrejections⟩ := exists_fetches_of_rejected h
  cases hresult : m.step.result with
  | ok step =>
      obtain rfl := hi.eq_executed hresult
      refine .inl ⟨⟨i, rfl⟩, hi.state_of_executed hresult ?_⟩
      rintro x rfl
      exact hrejections rfl
  | error fault =>
      -- Only what transfers control elsewhere faults, and of that only EXA1 meets a rejection.
      have hcontrol : m.control i ≠ .next := by
        intro hnext
        rw [hi.executed_of_next hnext] at hresult
        cases hresult
      have hasks : m.AsksForNoKey := by
        by_contra hno
        have hlength := (hi.length_rejected hcontrol).2 hno
        rw [rejected_effect hi.fits] at hlength
        exact hrejections (List.length_eq_zero_iff.mp hlength)
      obtain ⟨hfetch, rfl⟩ := hasks.fetch_eq_error hresult
      exact .inr ⟨hasks, hfetch, rfl⟩

end Step

theorem undisturbed_anomalies : Undisturbed Machine.anomalies := by
  intro m timers keypad dirty
  rfl

theorem anomalies_configure (m : Machine) (setting : Setting) :
    (m.configure setting).anomalies = m.anomalies := by
  cases setting <;> rfl

theorem anomalies_of_passes {a b : Nat} {history : List Machine}
    (h : Passes Machine.anomalies a history b) (hbounded : ∀ s ∈ history, s.Bounded) :
    b = a + ((history.flatMap outsideAddresses).length +
      (history.filterMap missingKey?).length) := by
  rw [List.filterMap_eq_flatMap_toList]
  induction h with
  | nil => rfl
  | cons hstart _ ih =>
      subst hstart
      obtain ⟨hfirst, hrest⟩ := List.forall_mem_cons.mp hbounded
      rw [ih hrest, hfirst.anomalies_step]
      simp only [List.flatMap_cons, List.length_append]
      omega

theorem anomalies_le_of_passes {a b : Nat} {history : List Machine}
    (h : Passes Machine.anomalies a history b) (hbounded : ∀ s ∈ history, s.Bounded) :
    b ≤ a + 16 * history.length := by
  induction h with
  | nil => exact Nat.le_refl _
  | cons hstart _ ih =>
      subst hstart
      obtain ⟨hfirst, hrest⟩ := List.forall_mem_cons.mp hbounded
      have hstep := hfirst.anomalies_step_le
      have hothers := ih hrest
      rw [List.length_cons]
      omega

theorem passes_anomalies (m : Machine) (operations : List Operation) :
    Passes Machine.anomalies m.anomalies (m.history operations)
      (m.performAll operations).machine.anomalies := by
  apply undisturbed_anomalies.passes
  · intro m memory
    rfl
  · intro m setting _
    exact anomalies_configure m setting

/-- The count fits into 64 bits for as long as no machine can run in practice. -/
theorem anomalies_lt_of_length_history_lt (random : RandomSource) (operations : List Operation)
    (h : ((initial random).history operations).length < 2 ^ 60) :
    ((initial random).performAll operations).machine.anomalies < 2 ^ 64 := by
  have hbounded : ∀ s ∈ (initial random).history operations, s.Bounded :=
    kept_bounded.forall_mem_history (bounded_of_reachable ⟨random, [], rfl⟩) operations
  have hle := anomalies_le_of_passes (passes_anomalies _ operations) hbounded
  have hzero : (initial random).anomalies = 0 := rfl
  omega

theorem length_flatMap_warnings (history : List Machine) :
    (history.flatMap warnings).length =
      (history.flatMap outsideAddresses).length + (history.filterMap missingKey?).length +
        (history.filterMap unknownWord?).length := by
  simp only [List.filterMap_eq_flatMap_toList]
  induction history with
  | nil => rfl
  | cons s history ih =>
      simp only [List.flatMap_cons, List.length_append, ih, warnings, List.length_map]
      omega

theorem anomalies_and_warnings_accounted {m : Machine} (hm : m.Reachable)
    (operations : List Operation) :
    let history := m.history operations
    let after := (m.performAll operations).machine
    let warned := (m.performAll operations).log.filter (·.level = .warn)
    after.anomalies = m.anomalies + ((history.flatMap outsideAddresses).length +
        (history.filterMap missingKey?).length) ∧
      warned = history.flatMap warnings ∧
      warned.length = (after.anomalies - m.anomalies) + (history.filterMap unknownWord?).length ∧
      ∀ s ∈ history,
        (s.step.log.filter (·.level = .warn) = s.warnings ∧
          ∀ e ∈ s.warnings, ∃ rest, e.text = Numeral.hexPrefixed 3 s.pc.toNat ++ ": " ++ rest) ∧
        (s.outsideAddresses ≠ [] ∨ s.missingKey? ≠ none →
          (∃ i, s.step.result = .ok (.executed i)) ∧ s.step.machine.state = .running ∨
            s.AsksForNoKey ∧ s.memory.fetch (s.pc + 2) = .error 0x1000 ∧
              s.step.result = .error (.fetchOutOfBounds 0x1000)) := by
  intro history after warned
  have hbounded : ∀ s ∈ history, s.Bounded :=
    kept_bounded.forall_mem_history (bounded_of_reachable hm) operations
  have hpasses : Passes Machine.anomalies m.anomalies history after.anomalies :=
    m.passes_anomalies operations
  have hanomalies := anomalies_of_passes hpasses hbounded
  have hwarned : warned = history.flatMap warnings := by
    have hsteps := filter_log_performAll m operations (p := (·.level = .warn)) fun _ => rfl
    refine hsteps.trans ?_
    exact List.flatMap_congr fun s hs => (hbounded s hs).filter_warn_step
  refine ⟨hanomalies, hwarned, ?_, ?_⟩
  · rw [hwarned, length_flatMap_warnings]
    omega
  · intro s hs
    exact ⟨⟨(hbounded s hs).filter_warn_step, fun e he => text_of_mem_warnings he⟩,
      goes_on_or_skips_out⟩

/-- The program writes EXA1 to the last two bytes of memory, behind which its sprite reaches, and
jumps there with 0xE0, which is no key, in V0. The load between does not take back the count. -/
theorem anomalies_and_warnings_accounted_at_end_of_memory :
    let rom : List UInt8 := [0x00, 0x00, 0x60, 0xE0, 0x61, 0xA1, 0xAF, 0xFE, 0xD0, 0x04, 0xF1, 0x55,
      0x1F, 0xFE]
    let m := initial (.ofSeed 0)
    let operations : List Operation := [.load rom, .run 20, .load rom, .step]
    let performed := m.performAll operations
    m.Reachable ∧
      (m.history operations).flatMap outsideAddresses = [0x1000, 0x1001] ∧
      (m.history operations).filterMap missingKey? = [0xE0] ∧
      (m.history operations).filterMap unknownWord? = [0, 0] ∧
      performed.machine.anomalies = 3 ∧
      (performed.log.filter (·.level = .warn)).length = 5 := by
  intro rom m operations performed
  have hm : m.Reachable := ⟨_, [], rfl⟩
  obtain ⟨houtside, hkeys, hunknown⟩ :
      (m.history operations).flatMap outsideAddresses = [0x1000, 0x1001] ∧
        (m.history operations).filterMap missingKey? = [0xE0] ∧
        (m.history operations).filterMap unknownWord? = [0, 0] := by
    decide +kernel
  obtain ⟨hanomalies, -, hwarned, -⟩ := anomalies_and_warnings_accounted hm operations
  rw [houtside, hkeys] at hanomalies
  rw [hanomalies, hunknown] at hwarned
  exact ⟨hm, houtside, hkeys, hunknown, hanomalies, hwarned⟩

end ChipEight.Machine
