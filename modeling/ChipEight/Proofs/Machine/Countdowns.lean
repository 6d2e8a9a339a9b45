import ChipEight.Proofs.Machine.History
import ChipEight.Proofs.Memory.Contents
import Mathlib.Data.List.DropRight
/-!
What the timers show: the value that an instruction stored last since a program was loaded, less the
ticks since then.

A timeline lists the ticks, loads and steps of a list of operations in order. `remaining` reads a
timer off it, `Elapses` follows the timers of the machine along it, and `eq_counted_of_elapses` says
that the two agree.
-/

namespace ChipEight

/-- The register that an instruction stores in the delay timer. -/
def Instruction.delayOperand? : Instruction → Option UInt8
  | setDelay x => some x
  | _ => none

/-- The register that an instruction stores in the sound timer. -/
def Instruction.soundOperand? : Instruction → Option UInt8
  | setSound x => some x
  | _ => none

/-- What bears on the timers. -/
inductive Moment
  | tick
  | load
  | step (start : Machine)

namespace Moment

def isTick : Moment → Bool
  | tick => true
  | _ => false

def isLoad : Moment → Bool
  | load => true
  | _ => false

/-- The value that is stored in the timer whose instruction has the operand. -/
def stored? (operand? : Instruction → Option UInt8) : Moment → Option UInt8
  | step start => (start.executed?.bind operand?).map start.registerValue
  | _ => none

end Moment

/-- An operation that counts the timers down, before it takes any step. -/
def Operation.ticks : Operation → Bool
  | tick | cycle => true
  | _ => false

namespace Machine

def moments (m : Machine) (operation : Operation) : List Moment :=
  (if operation.ticks then [.tick] else []) ++ (m.stepStarts operation).map .step ++
    if (m.perform operation).result.loads then [.load] else []

def timeline (m : Machine) : List Operation → List Moment
  | [] => []
  | operation :: rest => m.moments operation ++ (m.perform operation).machine.timeline rest

end Machine

section Remaining

variable (operand? : Instruction → Option UInt8)

def sinceLoad (timeline : List Moment) : List Moment :=
  timeline.rtakeWhile fun moment => !moment.isLoad

/-- The value stored last, or zero if there is none. -/
def lastStored (timeline : List Moment) : Nat :=
  ((timeline.filterMap (·.stored? operand?)).getLast?.map UInt8.toNat).getD 0

def ticksSinceStored (timeline : List Moment) : Nat :=
  (timeline.rtakeWhile fun moment => (moment.stored? operand?).isNone).countP Moment.isTick

/-- What is left of the value stored last since a program was loaded: each tick since then takes one
away, until nothing is left. -/
def remaining (timeline : List Moment) : Nat :=
  lastStored operand? (sinceLoad timeline) - ticksSinceStored operand? (sinceLoad timeline)

theorem remaining_concat_load (timeline : List Moment) :
    remaining operand? (timeline ++ [.load]) = 0 := by
  have hnothing : sinceLoad (timeline ++ [.load]) = [] :=
    List.rtakeWhile_concat_neg _ _ _ (by simp [Moment.isLoad])
  rw [remaining, hnothing]
  rfl

theorem sinceLoad_concat {moment : Moment} (h : moment.isLoad = false) (timeline : List Moment) :
    sinceLoad (timeline ++ [moment]) = sinceLoad timeline ++ [moment] :=
  List.rtakeWhile_concat_pos _ _ _ (by simp [h])

theorem remaining_concat_of_stored {moment : Moment} {value : UInt8}
    (h : moment.stored? operand? = some value) (timeline : List Moment) :
    remaining operand? (timeline ++ [moment]) = value.toNat := by
  have hload : moment.isLoad = false := by
    cases moment with
    | load => cases h
    | tick | step start => rfl
  simp [remaining, sinceLoad_concat hload, lastStored, ticksSinceStored, List.filterMap_append, h]

theorem remaining_concat_of_not_stored {moment : Moment} (hload : moment.isLoad = false)
    (h : moment.stored? operand? = none) (timeline : List Moment) :
    remaining operand? (timeline ++ [moment]) =
      remaining operand? timeline - moment.isTick.toNat := by
  simp only [remaining, sinceLoad_concat hload, lastStored, ticksSinceStored,
    List.filterMap_append, List.rtakeWhile_concat, h, Option.isNone_none, if_true,
    List.countP_append, List.countP_singleton]
  cases moment.isTick <;> simp [h, Nat.sub_sub]

theorem remaining_concat_tick (timeline : List Moment) :
    remaining operand? (timeline ++ [.tick]) = remaining operand? timeline - 1 :=
  remaining_concat_of_not_stored operand? rfl rfl timeline

theorem remaining_lt (timeline : List Moment) : remaining operand? timeline < 256 := by
  have hstored : lastStored operand? (sinceLoad timeline) < 256 := by
    unfold lastStored
    cases ((sinceLoad timeline).filterMap (·.stored? operand?)).getLast? with
    | none => decide
    | some value => exact value.toNat_lt
  exact Nat.lt_of_le_of_lt (Nat.sub_le _ _) hstored

end Remaining

def Timers.counted (timeline : List Moment) : Timers :=
  { delay := remaining Instruction.delayOperand? timeline
    sound := remaining Instruction.soundOperand? timeline }

/-- The timers are `t` before the moments and `u` after them: each step takes them up as the moment
before left them. -/
inductive Elapses : Timers → List Moment → Timers → Prop
  | nil (t : Timers) : Elapses t [] t
  | tick {t u : Timers} {rest : List Moment} (hrest : Elapses t.tick rest u) :
      Elapses t (.tick :: rest) u
  | load {t u : Timers} {rest : List Moment} (hrest : Elapses {} rest u) :
      Elapses t (.load :: rest) u
  | step {s : Machine} {t u : Timers} {rest : List Moment} (hstart : s.timers = t)
      (hrest : Elapses s.step.machine.timers rest u) : Elapses t (.step s :: rest) u

namespace Elapses

variable {t u w : Timers} {earlier later : List Moment} {s : Machine}

theorem append (hfirst : Elapses t earlier u) (hsecond : Elapses u later w) :
    Elapses t (earlier ++ later) w := by
  induction hfirst with
  | nil => exact hsecond
  | tick _ ih => exact .tick (ih hsecond)
  | load _ ih => exact .load (ih hsecond)
  | step hstart _ ih => exact .step hstart (ih hsecond)

theorem before_step (h : Elapses t (earlier ++ .step s :: later) u) :
    Elapses t earlier s.timers := by
  induction earlier generalizing t with
  | nil =>
      cases h with
      | step hstart hrest => exact hstart ▸ .nil _
  | cons moment earlier ih =>
      cases h with
      | tick hrest => exact .tick (ih hrest)
      | load hrest => exact .load (ih hrest)
      | step hstart hrest => exact .step hstart (ih hrest)

theorem of_passes {history : List Machine} (h : Machine.Passes Machine.timers t history u) :
    Elapses t (history.map .step) u := by
  induction h with
  | nil t => exact .nil t
  | cons hstart _ ih => exact .step hstart ih

end Elapses

namespace Machine

variable {m : Machine}

theorem stored?_step {i : Instruction} (h : m.step.result = .ok (.executed i))
    (operand? : Instruction → Option UInt8) :
    Moment.stored? operand? (.step m) = (operand? i).map m.registerValue := by
  rw [Moment.stored?, executed?_eq_some_iff.mpr h, Option.bind_some]

theorem stored?_step_of_none (h : ∀ i, m.step.result ≠ .ok (.executed i))
    (operand? : Instruction → Option UInt8) : Moment.stored? operand? (.step m) = none := by
  rw [Moment.stored?, executed?_eq_none_iff.mpr h, Option.bind_none, Option.map_none]

theorem timers_step (m : Machine) :
    let stored := fun operand? => (Moment.stored? operand? (.step m)).map UInt8.toNat
    m.step.machine.timers =
      { delay := (stored Instruction.delayOperand?).getD m.timers.delay
        sound := (stored Instruction.soundOperand?).getD m.timers.sound } := by
  rcases m.step_acts_or_receives_or_keeps with
    ⟨i, stack, pc, hresult, hmachine⟩ | ⟨x, key, hresult, hmachine⟩ |
      ⟨hnone, pc, anomalies, state, hmachine⟩
  · simp only [stored?_step hresult, hmachine]
    cases i <;> rfl
  · have hnone : ∀ i, m.step.result ≠ .ok (.executed i) := by
      rw [hresult]
      simp
    simp only [stored?_step_of_none hnone, hmachine]
    rfl
  · simp only [stored?_step_of_none hnone, hmachine]
    rfl

theorem elapses_load (m : Machine) (rom : List UInt8) :
    Elapses m.timers (if Reply.loads (.loaded (m.load rom).result) then [.load] else [])
      (m.load rom).machine.timers := by
  rcases m.load_starts_or_rejects rom with ⟨memory, hload⟩ | ⟨e, hload⟩
  · rw [hload]
    exact .load (.nil _)
  · rw [hload]
    exact .nil _

theorem elapses_perform (m : Machine) (operation : Operation) :
    Elapses m.timers (m.moments operation) (m.perform operation).machine.timers := by
  have hsteps : ∀ (n : Machine) count,
      Elapses n.timers ((n.starts count).map .step ++ []) (n.run count).machine.timers := by
    intro n count
    rw [List.append_nil]
    exact .of_passes (passes_starts Machine.timers n count)
  cases operation with
  | configure setting =>
      have hkept : (m.configure setting).timers = m.timers := by
        cases setting <;> rfl
      exact hkept ▸ .nil _
  | load rom => exact m.elapses_load rom
  | loadFile path contents =>
      cases contents with
      | error reason => exact .nil _
      | ok rom =>
          show Elapses _ (if Reply.loads (.fileLoaded ((m.load rom).result.mapError .rejected)) then
            [.load] else []) _
          rw [loads_fileLoaded]
          exact m.elapses_load rom
  | step => exact .step rfl (.nil _)
  | run count => exact hsteps m count
  | cycle => exact .tick (hsteps m.tick m.config.opsPerCycle)
  | tick => exact .tick (.nil _)
  | pressKey key =>
      obtain ⟨held, hmachine⟩ := m.exists_machine_pressKey key
      show Elapses _ [] (m.pressKey key).machine.timers
      rw [hmachine]
      exact .nil _
  | releaseKey key =>
      obtain ⟨held, hmachine⟩ := m.exists_machine_releaseKey key
      show Elapses _ [] (m.releaseKey key).machine.timers
      rw [hmachine]
      exact .nil _
  | takeDirty => exact .nil _

theorem elapses_performAll (m : Machine) (operations : List Operation) :
    Elapses m.timers (m.timeline operations) (m.performAll operations).machine.timers := by
  induction operations generalizing m with
  | nil => exact .nil m.timers
  | cons operation rest ih => exact (m.elapses_perform operation).append (ih _)

theorem timeline_append (m : Machine) (before after : List Operation) :
    m.timeline (before ++ after) =
      m.timeline before ++ (m.performAll before).machine.timeline after := by
  induction before generalizing m with
  | nil => rfl
  | cons operation before ih =>
      simp only [List.cons_append, timeline, performAll, ih, List.append_assoc]

end Machine

section Counted

variable {t u : Timers} {moments : List Moment} {s : Machine}

theorem counted_concat_tick (timeline : List Moment) :
    .counted (timeline ++ [.tick]) = (Timers.counted timeline).tick := by
  simp only [Timers.counted, Timers.tick, remaining_concat_tick]

theorem counted_concat_load (timeline : List Moment) :
    .counted (timeline ++ [.load]) = ({} : Timers) := by
  simp only [Timers.counted, remaining_concat_load]

theorem remaining_concat_step (operand? : Instruction → Option UInt8) (timeline : List Moment)
    (s : Machine) :
    remaining operand? (timeline ++ [.step s]) =
      ((Moment.stored? operand? (.step s)).map UInt8.toNat).getD (remaining operand? timeline) := by
  cases h : Moment.stored? operand? (.step s) with
  | none => exact remaining_concat_of_not_stored operand? rfl h timeline
  | some value => exact remaining_concat_of_stored operand? h timeline

theorem counted_concat_step {timeline : List Moment} (h : s.timers = .counted timeline) :
    .counted (timeline ++ [.step s]) = s.step.machine.timers := by
  simp only [s.timers_step, h, Timers.counted, remaining_concat_step]

/-- By induction on what elapses: it goes on where the timeline so far has left the timers. -/
theorem eq_counted_of_elapses (h : Elapses t moments u) (earlier : List Moment)
    (ht : t = .counted earlier) : u = .counted (earlier ++ moments) := by
  induction h generalizing earlier with
  | nil t => rw [ht, List.append_nil]
  | tick _ ih =>
      have hnow := ih (earlier ++ [.tick]) (by rw [counted_concat_tick, ht])
      rwa [List.append_assoc] at hnow
  | load _ ih =>
      have hnow := ih (earlier ++ [.load]) (by rw [counted_concat_load])
      rwa [List.append_assoc] at hnow
  | step hstart _ ih =>
      have hnow := ih _ (counted_concat_step (hstart.trans ht)).symm
      rwa [List.append_assoc] at hnow

end Counted

namespace Machine

theorem Fetches.reads_delay {m : Machine} {x : UInt8} (h : m.Fetches (.readDelay x))
    (hdelay : m.timers.delay < 256) :
    m.step.result = .ok (.executed (.readDelay x)) ∧
      ∃ value, m.step.machine.memory.register x = .ok value ∧ value.toNat = m.timers.delay := by
  refine ⟨h.executed_of_next rfl, UInt8.ofNat m.timers.delay, ?_, UInt8.toNat_ofNat_of_lt hdelay⟩
  rw [h.machine_of_next rfl]
  show (m.memory.putRegister x _).value.register x = _
  rw [Memory.register_putRegister h.fits, if_pos rfl]

theorem timers_count_down_from_last_stored (random : RandomSource) (operations : List Operation) :
    let timeline := (initial random).timeline operations
    let delayLeft := remaining Instruction.delayOperand?
    let soundLeft := remaining Instruction.soundOperand?
    let final := ((initial random).performAll operations).machine
    (final.timers = { delay := delayLeft timeline, sound := soundLeft timeline } ∧
        (final.timers.sounding = true ↔ 0 < soundLeft timeline)) ∧
      ∀ earlier s later, timeline = earlier ++ .step s :: later →
        s.timers = { delay := delayLeft earlier, sound := soundLeft earlier } ∧
          (s.timers.sounding = true ↔ 0 < soundLeft earlier) ∧
          ∀ x, s.Fetches (.readDelay x) →
            s.step.result = .ok (.executed (.readDelay x)) ∧
              ∃ value, s.step.machine.memory.register x = .ok value ∧
                value.toNat = delayLeft earlier := by
  intro timeline delayLeft soundLeft final
  have helapses : Elapses {} timeline final.timers :=
    (initial random).elapses_performAll operations
  have hfinal : final.timers = .counted timeline :=
    eq_counted_of_elapses helapses [] rfl
  refine ⟨⟨hfinal, by simp [hfinal, Timers.sounding, Timers.counted, soundLeft]⟩, ?_⟩
  intro earlier s later htimeline
  have hs : s.timers = .counted earlier := by
    have hbefore : Elapses {} earlier s.timers := (htimeline ▸ helapses).before_step
    exact eq_counted_of_elapses hbefore [] rfl
  refine ⟨hs, by simp [hs, Timers.sounding, Timers.counted, soundLeft], ?_⟩
  intro x hfetches
  have hdelay : s.timers.delay = delayLeft earlier := by
    rw [hs]
    rfl
  rw [← hdelay]
  exact hfetches.reads_delay (hdelay ▸ remaining_lt _ earlier)

/-- The program sets the delay timer to three and the sound timer to one within a frame; two ticks
later it reads the delay timer. -/
theorem timers_count_down_from_last_stored_in_frame :
    let rom : List UInt8 := [0x60, 0x03, 0xF0, 0x15, 0x61, 0x01, 0xF1, 0x18, 0xF2, 0x07]
    let begun : List Operation :=
      [.load rom, .configure (.opsPerCycle 4), .cycle, .pressKey 7, .tick]
    let operations := begun ++ [.tick, .step]
    let m := initial (.ofSeed 0)
    let s := (m.performAll begun).machine.tick
    let earlier := m.timeline begun ++ [.tick]
    m.timeline operations = earlier ++ .step s :: [] ∧ s.Fetches (.readDelay 2) ∧
      remaining Instruction.delayOperand? earlier = 1 ∧
      s.timers = { delay := 1, sound := 0 } ∧ s.timers.sounding = false ∧
      s.step.result = .ok (.executed (.readDelay 2)) ∧
      ∃ value, s.step.machine.memory.register 2 = .ok value ∧ value.toNat = 1 := by
  intro rom begun operations m s earlier
  have htimeline : m.timeline operations = earlier ++ .step s :: [] := by
    rw [timeline_append]
    exact (List.append_assoc _ _ _).symm
  obtain ⟨hfetched, hdelay, hsound⟩ :
      s.fetched? = some (.readDelay 2) ∧ remaining Instruction.delayOperand? earlier = 1 ∧
        remaining Instruction.soundOperand? earlier = 0 := by
    decide +kernel
  have hfetches : s.Fetches (.readDelay 2) := fetched?_eq_some_iff.mp hfetched
  obtain ⟨-, hsteps⟩ := timers_count_down_from_last_stored (.ofSeed 0) operations
  obtain ⟨htimers, hsounding, hread⟩ := hsteps earlier s [] htimeline
  obtain ⟨hresult, value, hvalue, hnat⟩ := hread 2 hfetches
  rw [hdelay, hsound] at htimers
  refine ⟨htimeline, hfetches, hdelay, htimers, ?_, hresult, value, hvalue, hnat.trans hdelay⟩
  rw [htimers]
  rfl

end Machine

end ChipEight
