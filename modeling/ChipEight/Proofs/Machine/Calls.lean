import ChipEight.Proofs.Machine.History
import Mathlib.Control.Monad.Basic

namespace ChipEight.Machine

section Step

variable {m : Machine}

/-- The next step calls a subroutine. -/
def calls (m : Machine) : Bool :=
  match m.step.result with
  | .ok (.executed (.call _)) => true
  | _ => false

/-- The next step returns from a subroutine. -/
def returns (m : Machine) : Bool :=
  match m.step.result with
  | .ok (.executed .ret) => true
  | _ => false

theorem exists_executed_of_calls (h : m.calls) :
    ∃ target, m.step.result = .ok (.executed (.call target)) := by
  unfold calls at h
  split at h
  · next target hresult => exact ⟨target, hresult⟩
  · cases h

theorem executed_of_returns (h : m.returns) : m.step.result = .ok (.executed .ret) := by
  unfold returns at h
  split at h
  · next hresult => exact hresult
  · cases h

theorem not_returns_of_calls (h : m.calls) : ¬ m.returns := by
  intro hreturns
  obtain ⟨target, hcall⟩ := exists_executed_of_calls h
  rw [executed_of_returns hreturns] at hcall
  cases hcall

theorem eq_call_of_control {i : Instruction} {target : UInt16} (h : m.control i = .call target) :
    i = .call target := by
  cases i with
  | call => exact congrArg Instruction.call (Transfer.call.inj h)
  | skipEqByte | skipNeByte | skipEq | skipNe | skipHeld | skipFree =>
      exact absurd h Transfer.skipIf_ne_call
  | _ => cases h

theorem eq_ret_of_control {i : Instruction} (h : m.control i = .ret) : i = .ret := by
  cases i with
  | ret => rfl
  | skipEqByte | skipNeByte | skipEq | skipNe | skipHeld | skipFree =>
      exact absurd h Transfer.skipIf_ne_ret
  | _ => cases h

theorem toList_step_of_calls (h : m.calls) :
    m.step.machine.stack.toList = (m.pc + 2) :: m.stack.toList := by
  obtain ⟨target, hexecuted⟩ := exists_executed_of_calls h
  obtain ⟨-, -, hfollow⟩ := follow_of_executed hexecuted
  simp only [control, follow, stack_acted] at hfollow
  split at hfollow
  · next stack hpush =>
      have hmachine : _ = m.step.machine := congrArg Prod.fst hfollow
      rw [← hmachine]
      exact CallStack.toList_of_push hpush
  · simp at hfollow

theorem toList_step_of_returns (h : m.returns) :
    m.stack.toList = m.step.machine.pc :: m.step.machine.stack.toList := by
  obtain ⟨-, -, hfollow⟩ := follow_of_executed (executed_of_returns h)
  simp only [control, follow, stack_acted] at hfollow
  split at hfollow
  · next target stack hpop =>
      have hmachine : _ = m.step.machine := congrArg Prod.fst hfollow
      rw [← hmachine]
      exact CallStack.toList_of_pop hpop
  · simp at hfollow

theorem stack_follow_of_ne {address : UInt16} {t : Transfer} (hcall : ∀ target, t ≠ .call target)
    (hret : t ≠ .ret) : (m.follow address t).1.stack = m.stack := by
  cases t with
  | next | jump => rfl
  | skip =>
      simp only [follow]
      split
      · rfl
      · rfl
  | call target => exact absurd rfl (hcall target)
  | ret => exact absurd rfl hret

theorem stack_step_of_neither (hcalls : ¬ m.calls) (hreturns : ¬ m.returns) :
    m.step.machine.stack = m.stack := by
  have hstep := m.takes_step
  unfold calls at hcalls
  unfold returns at hreturns
  generalize m.step = outcome at hcalls hreturns hstep
  cases hstep with
  | halted | waits | receives | misses => rfl
  | @executes hi lo i after hstate hfetch hdecode hfollow =>
      have hafter : ((m.acted i).follow m.pc (m.control i)).1.stack = (m.acted i).stack := by
        apply stack_follow_of_ne
        · intro target hcontrol
          obtain rfl := eq_call_of_control hcontrol
          exact hcalls rfl
        · intro hcontrol
          obtain rfl := eq_ret_of_control hcontrol
          exact hreturns rfl
      rw [hfollow] at hafter
      exact hafter.trans (stack_acted m i)
  | @faults hi lo i after fault hstate hfetch hdecode hfollow =>
      rcases follow_eq_fault hfollow with
        ⟨-, -, -, -, rfl⟩ | ⟨-, -, -, -, rfl⟩ | ⟨-, -, -, rfl⟩
      · exact stack_acted m i
      · exact stack_acted m i
      · exact stack_acted m i

theorem Fetches.executed_call_iff {target : UInt16} (h : m.Fetches (.call target)) :
    m.step.result = .ok (.executed (.call target)) ↔ m.stack.toList.length < 16 := by
  have hle := m.stack.depth_le
  rw [h.step_eq]
  simp only [control, follow, stack_acted]
  cases hpush : m.stack.push? (m.acted (.call target)).pc with
  | none =>
      have hfull := CallStack.push?_eq_none_iff.mp hpush
      simp [hfull]
  | some stack =>
      have hroom : m.stack.toList.length ≠ 16 := by
        intro hfull
        rw [CallStack.push?_eq_none_iff.mpr hfull] at hpush
        cases hpush
      rw [CallStack.length_toList] at hroom ⊢
      simp
      omega

theorem Fetches.executed_ret_iff (h : m.Fetches .ret) :
    m.step.result = .ok (.executed .ret) ↔ 0 < m.stack.toList.length := by
  rw [h.step_eq]
  simp only [control, follow, stack_acted]
  cases hpop : m.stack.pop? with
  | none =>
      have hempty := CallStack.pop?_eq_none_iff.mp hpop
      simp [hempty]
  | some popped =>
      obtain ⟨target, stack⟩ := popped
      simp [CallStack.toList_of_pop hpop]

end Step

/-- The pending calls after one more step. -/
def pendingAfter (pending : List Machine) (s : Machine) : List Machine :=
  if s.calls then s :: pending else if s.returns then pending.tail else pending

/-- The machines that made the calls which a history has left pending, the newest first. -/
def pendingCalls (history : List Machine) : List Machine :=
  history.foldl pendingAfter []

def returnAddress (s : Machine) : UInt16 := s.pc + 2

section History

variable {m : Machine} {a b : CallStack} {history : List Machine}

theorem toList_step {pending : List Machine} (h : m.stack.toList = pending.map returnAddress) :
    m.step.machine.stack.toList = (pendingAfter pending m).map returnAddress := by
  unfold pendingAfter
  split
  · next hcalls =>
      rw [toList_step_of_calls hcalls, h]
      rfl
  · next hcalls =>
      split
      · next hreturns =>
          rw [List.map_tail, ← h, toList_step_of_returns hreturns]
          rfl
      · next hreturns => rwa [stack_step_of_neither hcalls hreturns]

theorem toList_of_passes (h : Passes Machine.stack a history b) {pending : List Machine}
    (ha : a.toList = pending.map returnAddress) :
    b.toList = (history.foldl pendingAfter pending).map returnAddress := by
  induction h generalizing pending with
  | nil => exact ha
  | cons hstart _ ih =>
      subst hstart
      exact ih (toList_step ha)

theorem depth_step (m : Machine) :
    m.step.machine.stack.depth + (if m.returns then 1 else 0) =
      m.stack.depth + if m.calls then 1 else 0 := by
  rw [← CallStack.length_toList, ← CallStack.length_toList]
  by_cases hcalls : m.calls
  · rw [if_pos hcalls, if_neg (not_returns_of_calls hcalls), toList_step_of_calls hcalls]
    rfl
  · by_cases hreturns : m.returns
    · rw [if_neg hcalls, if_pos hreturns, toList_step_of_returns hreturns]
      rfl
    · rw [if_neg hcalls, if_neg hreturns, stack_step_of_neither hcalls hreturns]

theorem depth_of_passes (h : Passes Machine.stack a history b) :
    b.depth + history.countP returns = a.depth + history.countP calls := by
  induction h with
  | nil => rfl
  | @cons s history a b hstart _ ih =>
      subst hstart
      have hstep := s.depth_step
      rw [List.countP_cons, List.countP_cons]
      omega

/-- What lies on the call stack stays there for as long as no return reaches it. -/
theorem suffix_of_passes {base : List UInt16} (h : Passes Machine.stack a history b)
    (ha : base <:+ a.toList)
    (hdeep : ∀ s ∈ history, s.returns → s.step.machine.stack.depth + 1 ≠ base.length) :
    base <:+ b.toList := by
  induction h with
  | nil => exact ha
  | @cons s history a b hstart _ ih =>
      subst hstart
      refine ih ?_ (fun u hu => hdeep u (List.mem_cons_of_mem _ hu))
      by_cases hcalls : s.calls
      · rw [toList_step_of_calls hcalls]
        exact ha.trans (List.suffix_cons _ _)
      by_cases hreturns : s.returns
      · rw [toList_step_of_returns hreturns] at ha
        rcases List.suffix_cons_iff.mp ha with hbase | hbase
        · have hdepth := hdeep s List.mem_cons_self hreturns
          rw [hbase, List.length_cons, CallStack.length_toList] at hdepth
          exact absurd rfl hdepth
        · exact hbase
      · rwa [stack_step_of_neither hcalls hreturns]

/-- The first return to the depth of a call goes behind the call. -/
theorem pc_of_matching_return {s t : Machine}
    (h : Passes Machine.stack s.step.machine.stack history t.stack) (hcalls : s.calls)
    (hreturns : t.returns) (hdepth : t.step.machine.stack.depth = s.stack.depth)
    (hfirst : ∀ u ∈ history, u.returns → u.step.machine.stack.depth ≠ s.stack.depth) :
    t.step.machine.pc = s.pc + 2 := by
  have hsuffix : (s.pc + 2) :: s.stack.toList <:+ t.stack.toList := by
    apply suffix_of_passes h
    · exact toList_step_of_calls hcalls ▸ List.suffix_rfl
    · intro u hu hreturn
      have hne := hfirst u hu hreturn
      rw [List.length_cons, CallStack.length_toList]
      omega
  rw [toList_step_of_returns hreturns] at hsuffix
  rcases List.suffix_cons_iff.mp hsuffix with heq | hbelow
  · exact (List.cons.inj heq).1.symm
  · have hlength := hbelow.length_le
    rw [List.length_cons, CallStack.length_toList, CallStack.length_toList] at hlength
    omega

end History

theorem steppedOnly_stack : SteppedOnly Machine.stack where
  configure m setting := by cases setting <;> rfl
  others m timers keypad dirty := rfl

/-- The call stack of the machine is what a history makes of it: it holds the return addresses of
the calls that the history has left pending, and they are as many as there were more calls than
returns. -/
structure Tracks (m : Machine) (history : List Machine) : Prop where
  contents : m.stack.toList = (pendingCalls history).map returnAddress
  depth : m.stack.depth + history.countP returns = history.countP calls

theorem tracks_of_passes {m : Machine} {a : CallStack} {history : List Machine}
    (h : Passes Machine.stack a history m.stack) (ha : a.toList = []) : m.Tracks history where
  contents := toList_of_passes h ha
  depth := by
    have hdepth := depth_of_passes h
    rwa [← a.length_toList, ha, List.length_nil, Nat.zero_add] at hdepth

theorem toList_stack_of_loaded {m : Machine} {rom : List UInt8}
    (h : (m.load rom).result = .ok ()) : (m.load rom).machine.stack.toList = [] := by
  obtain ⟨memory, hmachine⟩ : ∃ memory, (m.load rom).machine = m.start memory := by
    apply exists_start_of_load
    rw [h]
    rfl
  rw [hmachine]
  exact m.stack.toList_clear

theorem callStack_tracks_pendingCalls {m : Machine} {rom : List UInt8}
    (hrom : (m.load rom).result = .ok ()) {operations : List Operation}
    (hloads : (m.load rom).machine.LoadsNothing operations) :
    let loaded := (m.load rom).machine
    let history := loaded.history operations
    (loaded.performAll operations).machine.Tracks history ∧
      (∀ before s after, history = before ++ s :: after →
        s.Tracks before ∧
          (∀ target, s.Fetches (.call target) →
            (s.step.result = .ok (.executed (.call target)) ↔ (pendingCalls before).length < 16)) ∧
          (s.Fetches .ret →
            (s.step.result = .ok (.executed .ret) ↔ 0 < (pendingCalls before).length))) ∧
      ∀ before s between t after, history = before ++ s :: (between ++ t :: after) →
        s.calls → t.returns → t.step.machine.stack.depth = s.stack.depth →
        (∀ u ∈ between, u.returns → u.step.machine.stack.depth ≠ s.stack.depth) →
        t.step.machine.pc = s.pc + 2 ∧ t.step.machine.pc.toNat = s.pc.toNat + 2 := by
  intro loaded history
  have hempty : loaded.stack.toList = [] := toList_stack_of_loaded hrom
  have hpasses : Passes Machine.stack loaded.stack history
      (loaded.performAll operations).machine.stack := steppedOnly_stack.passes hloads
  refine ⟨tracks_of_passes hpasses hempty, ?_, ?_⟩
  · intro before s after hhistory
    rw [hhistory] at hpasses
    have htracks : s.Tracks before := tracks_of_passes hpasses.cut.1 hempty
    have hlength : s.stack.toList.length = (pendingCalls before).length := by
      rw [htracks.contents, List.length_map]
    refine ⟨htracks, ?_, ?_⟩
    · intro target hfetches
      rw [hfetches.executed_call_iff, hlength]
    · intro hfetches
      rw [hfetches.executed_ret_iff, hlength]
  · intro before s between t after hhistory hcalls hreturns hdepth hfirst
    rw [hhistory] at hpasses
    -- Cut behind the call and in front of its return, the history is what lies between them.
    have hbetween := hpasses.cut.2.cut.1
    have hpc := pc_of_matching_return hbetween hcalls hreturns hdepth hfirst
    obtain ⟨target, hexecuted⟩ := exists_executed_of_calls hcalls
    have hlt := (Fetches.of_executed hexecuted).toNat_pc_lt
    refine ⟨hpc, ?_⟩
    rw [hpc]
    exact Memory.toNat_succ_succ (by omega)

theorem callStack_tracks_pendingCalls_nested :
    let m := initial (.ofSeed 0)
    let rom : List UInt8 :=
      [0x22, 0x06, 0x12, 0x02, 0x00, 0x00, 0x22, 0x0A, 0x00, 0xEE, 0x00, 0xEE]
    let loaded := (m.load rom).machine
    let operations : List Operation := [.step, .step, .step, .pressKey 1, .step]
    let outer := (loaded.performAll [.step, .step, .step, .pressKey 1]).machine
    (m.load rom).result = .ok () ∧ loaded.LoadsNothing operations ∧
      loaded.calls ∧ outer.returns ∧ outer.step.machine.stack.depth = loaded.stack.depth ∧
      outer.step.machine.pc = loaded.pc + 2 ∧
      (loaded.performAll operations).machine.Tracks (loaded.history operations) := by
  intro m rom loaded operations outer
  have hrom : (m.load rom).result = .ok () := by decide +kernel
  have hloads : loaded.LoadsNothing operations := by
    unfold LoadsNothing
    decide +kernel
  let second := loaded.step.machine
  let third := second.step.machine
  obtain ⟨hcalls, hreturns, hdepth, hsecond, hthird⟩ : loaded.calls ∧ outer.returns ∧
      outer.step.machine.stack.depth = loaded.stack.depth ∧ ¬ second.returns ∧
      third.step.machine.stack.depth ≠ loaded.stack.depth := by
    decide +kernel
  obtain ⟨htracks, -, hmatching⟩ := callStack_tracks_pendingCalls hrom hloads
  have hfirst : ∀ u ∈ [second, third], u.returns →
      u.step.machine.stack.depth ≠ loaded.stack.depth := by
    simp [hsecond, hthird]
  have hhistory : ∀ n : Machine, n.history operations =
      [] ++ n :: ([n.step.machine, n.step.machine.step.machine] ++
        (n.performAll [.step, .step, .step, .pressKey 1]).machine :: []) := fun _ => rfl
  obtain ⟨hpc, -⟩ := hmatching [] loaded [second, third] outer [] (hhistory loaded) hcalls hreturns
    hdepth hfirst
  exact ⟨hrom, hloads, hcalls, hreturns, hdepth, hpc, htracks⟩

end ChipEight.Machine
