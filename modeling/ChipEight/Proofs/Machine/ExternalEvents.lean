import ChipEight.Proofs.Machine.Change
import ChipEight.Proofs.Machine.Runs
import Mathlib.Control.Monad.Basic
import Mathlib.Logic.Relation
/-!
External events: ticks of the timers, and keys that are pressed and released between steps. An event
and a step exchange their places without a difference to the outcome, unless the step has to do with
what the event changes.

`step_befall` is the case of one event before one step, and `Rearranged` the exchange of any number of
events and steps.
-/

namespace ChipEight

theorem Keypad.latch_release (k : Keypad) (key : UInt8) :
    (Access.attempt k (k.release key)).value.latch = k.latch := by
  unfold release
  cases Key.ofByte? key <;> rfl

theorem Keypad.takePress_release (k : Keypad) (key : UInt8) :
    (Access.attempt k (k.release key)).value.takePress.1 =
      (Access.attempt k.takePress.1 (k.takePress.1.release key)).value := by
  unfold release
  cases Key.ofByte? key <;> rfl

inductive ExternalEvent
  | tick
  | press (key : UInt8)
  | release (key : UInt8)
deriving Repr

namespace ExternalEvent

def operation : ExternalEvent → Operation
  | tick => .tick
  | press key => .pressKey key
  | release key => .releaseKey key

def timers : ExternalEvent → Timers → Timers
  | tick, t => t.tick
  | press _, t | release _, t => t

def keypad : ExternalEvent → Keypad → Keypad
  | tick, k => k
  | press key, k => (Access.attempt k (k.press key)).value
  | release key, k => (Access.attempt k (k.release key)).value

/-- The machine to which the event has happened. -/
def befall (e : ExternalEvent) (m : Machine) : Machine :=
  { m with timers := e.timers m.timers, keypad := e.keypad m.keypad }

/-- The instruction reads or writes what the event changes. -/
def concernsInstruction : ExternalEvent → Instruction → Bool
  | tick, .readDelay _ | tick, .setDelay _ | tick, .setSound _ => true
  | press _, .skipHeld _ | press _, .skipFree _ | press _, .awaitKey _ => true
  | release _, .skipHeld _ | release _, .skipFree _ => true
  | _, _ => false

/-- The next step has to do with what the event changes: it fetches such an instruction, or it looks
whether a key was pressed that ends the wait for one. -/
def concerns (e : ExternalEvent) (m : Machine) : Bool :=
  m.fetched?.any e.concernsInstruction ||
    match e, m.state with
    | press _, .awaitingKey _ => true
    | _, _ => false

/-- What the event is answered: there is nothing to say to a tick, and a key has to exist. -/
def answer : ExternalEvent → Reply
  | tick => .done
  | press key | release key =>
    .keyed ((Key.ofByte? key).elim (.error (.noSuchKey key)) fun _ => .ok ())

theorem perform_operation (e : ExternalEvent) (m : Machine) :
    m.perform e.operation = { result := e.answer, machine := e.befall m } := by
  cases e with
  | tick => rfl
  | press key =>
      simp only [operation, Machine.perform, Machine.pressKey, Keypad.press, answer, befall, keypad]
      cases Key.ofByte? key <;> rfl
  | release key =>
      simp only [operation, Machine.perform, Machine.releaseKey, Keypad.release, answer, befall,
        keypad]
      cases Key.ofByte? key <;> rfl

section Step

variable {e : ExternalEvent} {m : Machine} {i : Instruction}

theorem value_effect_befall (h : ¬ e.concernsInstruction i) :
    ((e.befall m).effect i).value = (e.befall (m.effect i).value.1, (m.effect i).value.2) := by
  cases i with
  | skipHeld x | skipFree x =>
      cases e with
      | tick => rfl
      | press | release => exact absurd rfl h
  | readDelay x | setDelay x | setSound x =>
      cases e with
      | tick => exact absurd rfl h
      | press | release => rfl
  | awaitKey x =>
      cases e with
      | tick => rfl
      | press => exact absurd rfl h
      | release key =>
          have hkeypad := m.keypad.takePress_release key
          simp only [Machine.effect, Access.value_pure, befall, keypad, hkeypad]
  | _ => rfl

theorem rejected_effect_befall (h : ¬ e.concernsInstruction i) :
    ((e.befall m).effect i).rejected = (m.effect i).rejected := by
  cases i with
  | skipHeld x | skipFree x =>
      cases e with
      | tick => rfl
      | press | release => exact absurd rfl h
  | readDelay x =>
      cases e with
      | tick => exact absurd rfl h
      | press | release => rfl
  | _ => rfl

def change (e : ExternalEvent) : Change where
  keypad := e.keypad
  timers := e.timers

theorem not_concernsInstruction (h : ¬ e.concerns m) (hi : m.Fetches i) :
    ¬ e.concernsInstruction i := by
  intro hconcerns
  exact h (by simp [concerns, Machine.fetched?_eq_some_iff.mpr hi, hconcerns])

theorem sparesWait_change (h : ¬ e.concerns m) : e.change.SparesWait m := by
  intro x hstate
  cases e with
  | tick => exact ⟨rfl, rfl⟩
  | press key => simp [concerns, hstate] at h
  | release key => exact ⟨m.keypad.latch_release key, m.keypad.takePress_release key⟩

theorem step_befall (h : ¬ e.concerns m) :
    (e.befall m).step = { m.step with machine := e.befall m.step.machine } := by
  have hcarries : ∀ i, m.Fetches i → e.change.Carries m i := by
    intro i hi
    have hinstruction := not_concernsInstruction h hi
    exact ⟨value_effect_befall hinstruction, rejected_effect_befall hinstruction⟩
  exact Change.step_apply (sparesWait_change h) hcarries

end Step

end ExternalEvent

/-- What a step has led to, if this replies to one. -/
def Reply.stepped? : Reply → Option (Except Fault Step)
  | stepped result => some result
  | _ => none

theorem ExternalEvent.stepped?_answer (e : ExternalEvent) : e.answer.stepped? = none := by
  cases e <;> rfl

/-- The same machine, the same reports, and the same replies to steps and to all else, each in the
same order. -/
structure Outcome.Agrees (o p : Outcome (List Reply)) : Prop where
  machine : o.machine = p.machine
  log : o.log = p.log
  steps : o.result.filterMap Reply.stepped? = p.result.filterMap Reply.stepped?
  others : o.result.filter (·.stepped?.isNone) = p.result.filter (·.stepped?.isNone)

namespace Outcome.Agrees

variable {o p q : Outcome (List Reply)}

theorem refl (o : Outcome (List Reply)) : o.Agrees o :=
  ⟨rfl, rfl, rfl, rfl⟩

theorem symm (h : o.Agrees p) : p.Agrees o :=
  ⟨h.machine.symm, h.log.symm, h.steps.symm, h.others.symm⟩

theorem trans (hop : o.Agrees p) (hpq : p.Agrees q) : o.Agrees q :=
  ⟨hop.machine.trans hpq.machine, hop.log.trans hpq.log, hop.steps.trans hpq.steps,
    hop.others.trans hpq.others⟩

end Outcome.Agrees

namespace Machine

/-- An event and a step behind it have exchanged their places. -/
inductive Exchanged (m : Machine) : List Operation → List Operation → Prop
  | exchange {e : ExternalEvent} (before after : List Operation)
      (h : ¬ e.concerns (m.performAll before).machine) :
      Exchanged m (before ++ e.operation :: .step :: after) (before ++ .step :: e.operation :: after)

/-- Exchanges in either direction lead from the one list of operations to the other. -/
def Rearranged (m : Machine) : List Operation → List Operation → Prop :=
  Relation.EqvGen m.Exchanged

section Rearranged

variable {e : ExternalEvent} {m : Machine} {first second : List Operation}

theorem performAll_event_step (h : ¬ e.concerns m) :
    m.performAll [e.operation, .step] =
      { result := [e.answer, .stepped m.step.result]
        machine := e.befall m.step.machine
        log := m.step.log } := by
  have hstep : (e.befall m).perform .step = _ :=
    congrArg (Outcome.map Reply.stepped) (ExternalEvent.step_befall h)
  simp only [performAll, e.perform_operation, hstep]
  simp [Outcome.map]

theorem performAll_step_event (e : ExternalEvent) (m : Machine) :
    m.performAll [.step, e.operation] =
      { result := [.stepped m.step.result, e.answer]
        machine := e.befall m.step.machine
        log := m.step.log } := by
  have hstep : m.perform .step = m.step.map .stepped := rfl
  simp only [performAll, e.perform_operation, hstep]
  simp [Outcome.map]

theorem agrees_exchange (h : ¬ e.concerns m) (after : List Operation) :
    (m.performAll ([e.operation, .step] ++ after)).Agrees
      (m.performAll ([.step, e.operation] ++ after)) := by
  have hanswer := e.stepped?_answer
  have hstepped : (Reply.stepped m.step.result).stepped? = some m.step.result := rfl
  rw [performAll_append, performAll_append, performAll_event_step h, performAll_step_event]
  refine ⟨rfl, rfl, ?_, ?_⟩
  · simp [hanswer, hstepped]
  · simp [hanswer, hstepped]

theorem agrees_append (before : List Operation)
    (h : ((m.performAll before).machine.performAll first).Agrees
      ((m.performAll before).machine.performAll second)) :
    (m.performAll (before ++ first)).Agrees (m.performAll (before ++ second)) := by
  rw [performAll_append, performAll_append]
  refine ⟨h.machine, ?_, ?_, ?_⟩
  · simp only [h.log]
  · simp only [List.filterMap_append, h.steps]
  · simp only [List.filter_append, h.others]

theorem agrees_of_exchanged (h : m.Exchanged first second) :
    (m.performAll first).Agrees (m.performAll second) := by
  cases h with
  | exchange before after hconcerns => exact agrees_append before (agrees_exchange hconcerns after)

theorem agrees_of_rearranged (h : m.Rearranged first second) :
    (m.performAll first).Agrees (m.performAll second) := by
  induction h with
  | rel first second hexchanged => exact agrees_of_exchanged hexchanged
  | refl operations => exact .refl _
  | symm first second _ ih => exact ih.symm
  | trans first second third _ _ ihfirst ihsecond => exact ihfirst.trans ihsecond

end Rearranged

theorem external_events_commute_with_steps (m : Machine) :
    (∀ e : ExternalEvent, ¬ e.concerns m →
      let eventFirst := m.performAll [e.operation, .step]
      let stepFirst := m.performAll [.step, e.operation]
      eventFirst.machine = stepFirst.machine ∧ eventFirst.log = stepFirst.log ∧
        eventFirst.result = stepFirst.result.reverse) ∧
      ∀ first second, m.Rearranged first second →
        (m.performAll first).Agrees (m.performAll second) := by
  refine ⟨?_, fun first second => agrees_of_rearranged⟩
  intro e h eventFirst stepFirst
  have hevent : eventFirst = _ := performAll_event_step h
  have hstep : stepFirst = _ := performAll_step_event e m
  rw [hevent, hstep]
  exact ⟨rfl, rfl, rfl⟩

theorem external_events_commute_with_steps_at_fault :
    let m := ((initial (.ofSeed 0)).performAll [.load [0x00, 0xEE]]).machine
    let eventsFirst : List Operation := [.pressKey 5, .tick, .step, .step]
    let stepsFirst : List Operation := [.step, .step, .pressKey 5, .tick]
    m.step.result = .error (.stackUnderflow 0x200) ∧
      (m.performAll [.pressKey 5, .step]).machine = (m.performAll [.step, .pressKey 5]).machine ∧
      m.Rearranged eventsFirst stepsFirst ∧
      (m.performAll eventsFirst).Agrees (m.performAll stepsFirst) := by
  intro m eventsFirst stepsFirst
  obtain ⟨hfault, hpress, htick, hpress', htick'⟩ :
      m.step.result = .error (.stackUnderflow 0x200) ∧
        ¬ (ExternalEvent.press 5).concerns m ∧
        ¬ ExternalEvent.tick.concerns (m.performAll [.pressKey 5]).machine ∧
        ¬ (ExternalEvent.press 5).concerns (m.performAll [.step]).machine ∧
        ¬ ExternalEvent.tick.concerns (m.performAll [.step, .pressKey 5]).machine := by
    decide +kernel
  have hrearranged : m.Rearranged eventsFirst stepsFirst := by
    clear_value m
    apply Relation.EqvGen.trans _ [.pressKey 5, .step, .tick, .step]
    · exact .rel _ _ (.exchange (e := .tick) [.pressKey 5] [.step] htick)
    apply Relation.EqvGen.trans _ [.step, .pressKey 5, .tick, .step]
    · exact .rel _ _ (.exchange (e := .press 5) [] [.tick, .step] hpress)
    apply Relation.EqvGen.trans _ [.step, .pressKey 5, .step, .tick]
    · exact .rel _ _ (.exchange (e := .tick) [.step, .pressKey 5] [] htick')
    · exact .rel _ _ (.exchange (e := .press 5) [.step] [.tick] hpress')
  obtain ⟨hexchange, hmoved⟩ := external_events_commute_with_steps m
  exact ⟨hfault, (hexchange (.press 5) hpress).1, hrearranged, hmoved _ _ hrearranged⟩

end Machine

end ChipEight
