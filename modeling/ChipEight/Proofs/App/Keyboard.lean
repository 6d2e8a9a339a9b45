import ChipEight.Proofs.App.Whereabouts
import ChipEight.Proofs.Machine.KeyWait
import Mathlib.Data.Fintype.Basic

namespace ChipEight

instance : Fintype KeyCode where
  elems :=
    {.digit1, .digit2, .digit3, .digit4, .keyQ, .keyW, .keyE, .keyR, .keyA, .keyS, .keyD, .keyF,
      .keyZ, .keyX, .keyC, .keyV, .escape, .other}
  complete code := by cases code <;> decide

theorem OpenWindow.existsUnique_keypadKey? (layout : Layout) (key : Key) :
    ∃! code, keypadKey? layout code = some key := by
  show ∃ code, keypadKey? layout code = some key ∧
    ∀ code', keypadKey? layout code' = some key → code' = code
  revert key
  cases layout with
  | cosmac => decide +kernel
  | sequential => decide +kernel

theorem OpenWindow.keypadKey?_eq_none_iff (layout : Layout) (code : KeyCode) :
    keypadKey? layout code = none ↔ code = .escape ∨ code = .other := by
  revert code
  cases layout with
  | cosmac => decide +kernel
  | sequential => decide +kernel

namespace Keypad

def heldKeys (k : Keypad) : Finset Key :=
  Finset.univ.filter fun key => k.held.get key = true

theorem heldKeys_empty : ({} : Keypad).heldKeys = ∅ := by
  decide

theorem mem_heldKeys_set (k : Keypad) (key other : Key) (down : Bool) (latch : Option Key) :
    other ∈ heldKeys { held := k.held.set key down key.isLt, latch := latch } ↔
      if key = other then down = true else other ∈ k.heldKeys := by
  have hget : ∀ held : Vector Bool 16, held.get other = held[other.val] := fun _ => rfl
  simp only [heldKeys, Finset.mem_filter, Finset.mem_univ, true_and, hget, Vector.getElem_set,
    Fin.ext_iff]
  split
  · rfl
  · rfl

end Keypad

/-- The keys held after an occurrence: one that goes down is added, one that goes up is taken away. -/
def heldAfter (layout : Layout) (held : Finset Key) (o : Occurrence) : Finset Key :=
  match o.press? layout, o.release? layout with
  | some key, _ => insert key held
  | none, some key => held.erase key
  | none, none => held

theorem Keypad.heldKeys_change (k : Keypad) (layout : Layout) (o : Occurrence) :
    (k.change (o.press? layout) (o.release? layout)).heldKeys =
      heldAfter layout k.heldKeys o := by
  unfold change heldAfter
  ext key
  cases o.press? layout with
  | some pressed =>
      rw [mem_heldKeys_set, Finset.mem_insert]
      by_cases h : pressed = key
      · simp [h]
      · simp [h, Ne.symm h]
  | none =>
      cases o.release? layout with
      | some released =>
          rw [mem_heldKeys_set, Finset.mem_erase]
          by_cases h : released = key
          · simp [h]
          · simp [h, Ne.symm h]
      | none => rfl

namespace Machine

theorem held_step (m : Machine) : m.step.machine.keypad.held = m.keypad.held := by
  rcases m.step_acts_or_receives_or_keeps with
    ⟨i, stack, pc, -, hmachine⟩ | ⟨x, key, -, hmachine⟩ | ⟨-, pc, anomalies, state, hmachine⟩
  · rw [hmachine]
    exact held_effect m i
  · rw [hmachine]
    rfl
  · rw [hmachine]

theorem held_cycle (m : Machine) : m.cycle.machine.keypad.held = m.keypad.held :=
  run_of_step (P := fun n => n.keypad.held = m.keypad.held) (m := m.tick)
    (fun n hn => n.held_step.trans hn) rfl m.config.opsPerCycle

end Machine

namespace App

section Step

variable {settings : AppSettings} {w w' : OpenWindow} {d : Desktop} {o : Occurrence}

theorem machine_undergo_of_ne_frame (ho : o ≠ .frame)
    (hopened : (undergo ⟨settings, .opened w⟩ d o).app = ⟨settings, .opened w'⟩) :
    w'.machine =
      { w.machine with
        keypad :=
          w.machine.keypad.change (o.press? settings.layout) (o.release? settings.layout) } := by
  rw [(window_undergo hopened).1, machine_performAll_of_ne_frame ho settings w]

theorem latch_undergo_of_ne_frame (ho : o ≠ .frame)
    (hopened : (undergo ⟨settings, .opened w⟩ d o).app = ⟨settings, .opened w'⟩) :
    w'.machine.keypad.latch = (o.press? settings.layout).or w.machine.keypad.latch := by
  rw [machine_undergo_of_ne_frame ho hopened]
  exact Keypad.latch_change _ _ _

theorem machine_undergo_of_no_key (ho : o ≠ .frame) (hpress : o.press? settings.layout = none)
    (hrelease : o.release? settings.layout = none)
    (hopened : (undergo ⟨settings, .opened w⟩ d o).app = ⟨settings, .opened w'⟩) :
    w'.machine = w.machine := by
  rw [machine_undergo_of_ne_frame ho hopened, hpress, hrelease]
  rfl

theorem machine_undergo_frame
    (hopened : (undergo ⟨settings, .opened w⟩ d .frame).app = ⟨settings, .opened w'⟩) :
    w'.machine.keypad = w.machine.cycle.machine.keypad ∧
      w'.machine.state = w.machine.cycle.machine.state := by
  cases hcycle : w.machine.cycle.result with
  | ok =>
      simp only [undergo, frame_opened_of_ok settings d hcycle] at hopened
      cases hopened
      exact ⟨rfl, rfl⟩
  | error fault =>
      simp only [undergo, frame_opened_of_error settings d hcycle] at hopened
      cases hopened
      exact ⟨rfl, rfl⟩

theorem heldKeys_undergo
    (hopened : (undergo ⟨settings, .opened w⟩ d o).app = ⟨settings, .opened w'⟩) :
    w'.machine.keypad.heldKeys = heldAfter settings.layout w.machine.keypad.heldKeys o := by
  by_cases ho : o = .frame
  · subst ho
    show (Finset.univ.filter fun key => w'.machine.keypad.held[key] = true) = _
    rw [(machine_undergo_frame hopened).1, Machine.held_cycle]
    rfl
  · rw [machine_undergo_of_ne_frame ho hopened, Keypad.heldKeys_change]

theorem keyDropped_not_mem_log_undergo (app : App) (d : Desktop) (o : Occurrence)
    (error : AccessError) : .keyDropped error ∉ (app.undergo d o).log := by
  intro h
  cases o with
  | pump => cases h
  | frame => rcases mem_log_frame h with ⟨e, he⟩ | ⟨fault, he⟩ | ⟨m, he⟩ <;> cases he
  | delivery delivery =>
      cases delivery with
      | exitStatus => cases h
      | resumed =>
          obtain ⟨e, he⟩ := mem_log_resume h
          cases he
      | event e =>
          cases e with
          | close => cases List.mem_singleton.mp h
          | other => cases h
          | redraw =>
              obtain ⟨reason, hnotice⟩ := mem_log_redraw h
              cases hnotice
          | key e =>
              change _ ∈ (app.hear d e).log at h
              rw [log_hear] at h
              cases h

end Step

/-- The frame after `earlier` executes FX0A, and its wait for a key lasts all through `later`. -/
structure Waits (app : App) (d : Desktop) (x : UInt8) (earlier later : List Occurrence) :
    Prop where
  begun : ∃ w, (app.undergoAll d earlier).app.window? = some w ∧
    ∃ s ∈ w.machine.stepStarts .cycle, s.step.result = .ok (.executed (.awaitKey x))
  lasting : ∀ middle, middle <+: later →
    ∃ w, (app.undergoAll d (earlier ++ .frame :: middle)).app.window? = some w ∧
      w.machine.state = .awaitingKey x
  unanswered : ∀ middle rest, later = middle ++ .frame :: rest →
    ∃ w, (app.undergoAll d (earlier ++ .frame :: middle)).app.window? = some w ∧
      ∀ s ∈ w.machine.stepStarts .cycle, s.step.result = .ok .awaitingKey

/-- The key that goes down last. -/
def lastPress (layout : Layout) (occurrences : List Occurrence) : Option Key :=
  (occurrences.filterMap (Occurrence.press? layout)).getLast?

section Run

variable {settings : AppSettings} {m : Machine} {d : Desktop} {w : OpenWindow} {x : UInt8}
  {occurrences earlier later : List Occurrence} {o : Occurrence}

theorem keyDropped_not_mem_log (app : App) (d : Desktop) (occurrences : List Occurrence)
    (error : AccessError) : .keyDropped error ∉ (app.undergoAll d occurrences).log := by
  induction occurrences generalizing app d with
  | nil => simp [undergoAll]
  | cons o rest ih =>
      rw [undergoAll, List.mem_append, not_or]
      exact ⟨keyDropped_not_mem_log_undergo app d o error, ih _ _⟩

theorem heldKeys_undergoAll (hkeypad : m.keypad = {})
    (hopened : ((initial settings m).undergoAll d occurrences).app = ⟨settings, .opened w⟩) :
    ∃ before after, occurrences = before ++ .delivery .resumed :: after ∧
      .delivery .resumed ∉ before ∧
      w.machine.keypad.heldKeys = after.foldl (heldAfter settings.layout) ∅ := by
  refine opened_induction (P := fun occurrences w => ∃ before after,
    occurrences = before ++ .delivery .resumed :: after ∧ .delivery .resumed ∉ before ∧
      w.machine.keypad.heldKeys = after.foldl (heldAfter settings.layout) ∅) ?_ ?_ hopened
  · intro occurrences w _ hnever hopened
    refine ⟨occurrences, [], rfl, hnever, ?_⟩
    rw [(undergo_initial_opened hopened).2.1, hkeypad, Keypad.heldKeys_empty]
    rfl
  · rintro occurrences o w w' - ⟨before, after, rfl, hnever, hheld⟩ hopened
    refine ⟨before, after ++ [o], by simp, hnever, ?_⟩
    rw [heldKeys_undergo hopened, hheld, List.foldl_concat]

theorem Waits.concat {app : App} (h : app.Waits d x earlier later)
    (hlasts : ∃ w, (app.undergoAll d (earlier ++ .frame :: (later ++ [o]))).app.window? = some w ∧
      w.machine.state = .awaitingKey x)
    (hunanswered : o = .frame →
      ∃ w, (app.undergoAll d (earlier ++ .frame :: later)).app.window? = some w ∧
        ∀ s ∈ w.machine.stepStarts .cycle, s.step.result = .ok .awaitingKey) :
    app.Waits d x earlier (later ++ [o]) where
  begun := h.begun
  lasting := by
    intro middle hmiddle
    rcases List.prefix_concat_iff.mp hmiddle with rfl | hmiddle
    · exact hlasts
    · exact h.lasting middle hmiddle
  unanswered := by
    intro middle rest heq
    rcases concat_eq_append_cons_iff.mp heq with ⟨rfl, rfl, -⟩ | ⟨others, -, rfl⟩
    · exact hunanswered rfl
    · exact h.unanswered middle others rfl

/-- The machine waits since an earlier frame, and the key that went down last is in its latch. -/
def Waiting (app : App) (d : Desktop) (occurrences : List Occurrence) (x : UInt8)
    (latch : Option Key) : Prop :=
  ∃ earlier later, occurrences = earlier ++ .frame :: later ∧ app.Waits d x earlier later ∧
    latch = lastPress app.settings.layout later

theorem Waiting.concat {app : App} {latch : Option Key} (h : app.Waiting d occurrences x latch)
    (hlasts : ∃ w, (app.undergoAll d (occurrences ++ [o])).app.window? = some w ∧
      w.machine.state = .awaitingKey x)
    (hunanswered : o = .frame →
      ∃ w, (app.undergoAll d occurrences).app.window? = some w ∧
        ∀ s ∈ w.machine.stepStarts .cycle, s.step.result = .ok .awaitingKey) :
    app.Waiting d (occurrences ++ [o]) x ((o.press? app.settings.layout).or latch) := by
  obtain ⟨earlier, later, rfl, hwaits, rfl⟩ := h
  refine ⟨earlier, later ++ [o], by simp, hwaits.concat ?_ hunanswered, ?_⟩
  · simpa using hlasts
  · exact (getLast?_filterMap_concat _ later o).symm

theorem waiting_undergoAll (hrunning : m.state = .running)
    (hopened : ((initial settings m).undergoAll d occurrences).app = ⟨settings, .opened w⟩)
    (hstate : w.machine.state = .awaitingKey x) :
    (initial settings m).Waiting d occurrences x w.machine.keypad.latch := by
  refine opened_induction (P := fun occurrences w => w.machine.state = .awaitingKey x →
    (initial settings m).Waiting d occurrences x w.machine.keypad.latch) ?_ ?_ hopened hstate
  · intro occurrences w _ _ hopened hstate
    rw [(undergo_initial_opened hopened).2.1, hrunning] at hstate
    cases hstate
  · intro occurrences o w w' happ hbefore hopened hstate
    have hwindow := congrArg window? happ
    have hlasts : ∃ w, ((initial settings m).undergoAll d (occurrences ++ [o])).app.window? =
        some w ∧ w.machine.state = .awaitingKey x := by
      simp only [undergoAll_concat, happ]
      exact ⟨w', congrArg window? hopened, hstate⟩
    by_cases ho : o = .frame
    · subst ho
      obtain ⟨hkeypad, hcycle⟩ := machine_undergo_frame hopened
      rw [hcycle] at hstate
      -- Either the wait was there before the cycle, or the cycle began it with an empty latch.
      rcases Machine.waits_run (m := w.machine.tick) hstate with
        ⟨hkept, hnone⟩ | ⟨hlatch, s, hs, hbegun⟩
      · change w.machine.cycle.machine = w.machine.tick at hkept
        rw [hkept] at hkeypad hstate
        rw [hkeypad]
        exact (hbefore hstate).concat hlasts fun _ => ⟨w, hwindow, hnone⟩
      · refine ⟨occurrences, [], rfl, ⟨⟨w, hwindow, s, hs, hbegun⟩, ?_, by simp⟩, ?_⟩
        · intro middle hmiddle
          rw [List.prefix_nil.mp hmiddle]
          exact hlasts
        · rw [hkeypad]
          exact hlatch
    · have hmachine := machine_undergo_of_ne_frame ho hopened
      rw [hmachine] at hstate
      rw [latch_undergo_of_ne_frame ho hopened]
      exact (hbefore hstate).concat hlasts (absurd · ho)

end Run

theorem keypad_follows_keyboard {o : Options} {contents : Contents} {random : RandomSource}
    {machine : Machine} {log : List Notice} (hbuild : o.build contents random = (.ok machine, log))
    (desktop : Desktop) (occurrences : List Occurrence) :
    let app := initial o.appSettings machine
    let reached := app.undergoAll desktop occurrences
    (∀ key, ∃! code, OpenWindow.keypadKey? o.layout code = some key) ∧
      (∀ code, OpenWindow.keypadKey? o.layout code = none ↔ code = .escape ∨ code = .other) ∧
      (∀ (m : Machine) (key : Key),
        (m.pressKey (UInt8.ofNat key.val)).result = .ok () ∧
          (m.releaseKey (UInt8.ofNat key.val)).result = .ok ()) ∧
      (∀ error, .keyDropped error ∉ reached.log) ∧
      (∀ m, reached.app.pending? = some m →
        m = machine ∧ ∀ e, (reached.app.handle reached.desktop e).app = reached.app) ∧
      ∀ w, reached.app.window? = some w →
        (∃ before after, occurrences = before ++ .delivery .resumed :: after ∧
          .delivery .resumed ∉ before ∧
          w.machine.keypad.heldKeys = after.foldl (heldAfter o.layout) ∅) ∧
        (∀ e, ∃ w', (reached.app.handle reached.desktop e).app.window? = some w' ∧
          let event := Occurrence.delivery (.event e)
          w'.machine.keypad.latch = (event.press? o.layout).or w.machine.keypad.latch ∧
            (event.press? o.layout = none → event.release? o.layout = none →
              w'.machine = w.machine)) ∧
        (∀ x, w.machine.state = .awaitingKey x →
          ∃ earlier later, occurrences = earlier ++ .frame :: later ∧
            app.Waits desktop x earlier later ∧
            (lastPress o.layout later = none →
              ∀ s ∈ w.machine.stepStarts .cycle, s.step.result = .ok .awaitingKey)) ∧
        ∀ s ∈ w.machine.stepStarts .cycle, ∀ key, s.step.result = .ok (.keyReceived key) →
          ∃ x earlier later, occurrences = earlier ++ .frame :: later ∧
            app.Waits desktop x earlier later ∧ lastPress o.layout later = some key := by
  intro app reached
  obtain ⟨m, memory, hmachine⟩ := Options.exists_start_of_build hbuild
  have hrunning : machine.state = .running := by rw [hmachine]; rfl
  have hkeypad : machine.keypad = {} := by rw [hmachine]; rfl
  refine ⟨OpenWindow.existsUnique_keypadKey? o.layout, OpenWindow.keypadKey?_eq_none_iff o.layout,
    ?_, keyDropped_not_mem_log app desktop occurrences, ?_, ?_⟩
  · intro m key
    rw [m.pressKey_ofNat, m.releaseKey_ofNat]
    exact ⟨rfl, rfl⟩
  · intro m hpending
    obtain ⟨happ, rfl⟩ := app_of_pending? hpending
    have hwindow : reached.app.window? = none := (congrArg window? happ).trans rfl
    refine ⟨rfl, fun e => ?_⟩
    exact app_undergo_of_no_window (o := .delivery (.event e)) hwindow (by simp) _
  · intro w hwindow
    have hopened : reached.app = ⟨o.appSettings, .opened w⟩ := app_of_window? hwindow
    refine ⟨heldKeys_undergoAll hkeypad hopened, ?_, ?_, ?_⟩
    · intro e
      rw [hopened]
      obtain ⟨w', hopened', -⟩ := exists_undergo_opened o.appSettings w reached.desktop
        (.delivery (.event e))
      refine ⟨w', congrArg window? hopened', latch_undergo_of_ne_frame (by simp) hopened', ?_⟩
      intro hpress hrelease
      exact machine_undergo_of_no_key (by simp) hpress hrelease hopened'
    · intro x hstate
      obtain ⟨earlier, later, heq, hwaits, hlast⟩ := waiting_undergoAll hrunning hopened hstate
      refine ⟨earlier, later, heq, hwaits, fun hnone => ?_⟩
      exact Machine.result_of_waiting (m := w.machine.tick) hstate (hlast.trans hnone) _
    · intro s hs key hreceived
      obtain rfl := Machine.eq_of_received hs hreceived
      obtain ⟨x, hstate, hlatch⟩ := Machine.awaiting_of_received hreceived
      obtain ⟨earlier, later, heq, hwaits, hlast⟩ := waiting_undergoAll hrunning hopened hstate
      exact ⟨x, earlier, later, heq, hwaits, hlast.symm.trans hlatch⟩

/-- The program waits for a key; in the layout of the first machines, the key of `4` is C. -/
theorem keypad_follows_keyboard_to_answer :
    let o : Options := { rom := "wait", opsPerFrame := 1 }
    let rom : List UInt8 := [0xF1, 0x0A]
    let machine := ((o.settings.foldl Machine.configure (.initial (.ofSeed 0))).load rom).machine
    let app := initial o.appSettings machine
    let press : KeyEvent := { code := some .digit4, pressed := true }
    let occurrences : List Occurrence :=
      [.delivery .resumed, .frame, .delivery (.event (.key press))]
    (∃ log, o.build (.ok rom) (.ofSeed 0) = (.ok machine, log)) ∧
      ∃ w, (app.undergoAll {} occurrences).app.window? = some w ∧
        w.machine.tick.step.result = .ok (.keyReceived 0xC) ∧
        ∃ x earlier later, occurrences = earlier ++ .frame :: later ∧
          app.Waits {} x earlier later ∧ lastPress o.layout later = some 0xC := by
  intro o rom machine app press occurrences
  have hrom : rom.length ≤ 3584 := by decide
  obtain ⟨log, hbuild⟩ : ∃ log, o.build (.ok rom) (.ofSeed 0) = (.ok machine, log) :=
    o.exists_build_eq _ hrom
  have hresult : (app.undergoAll {} occurrences).app.window?.map
      (fun w => (w.machine.config.opsPerCycle, w.machine.tick.step.result)) =
        some (1, .ok (.keyReceived 0xC)) := by
    decide +kernel
  obtain ⟨w, hwindow, hw⟩ := Option.map_eq_some_iff.mp hresult
  obtain ⟨hops, hreceived⟩ := Prod.ext_iff.mp hw
  have hs : w.machine.tick ∈ w.machine.stepStarts .cycle := by
    change w.machine.config.opsPerCycle = 1 at hops
    rw [Machine.stepStarts, hops]
    exact List.mem_cons_self
  obtain ⟨-, -, -, -, -, hwindows⟩ := keypad_follows_keyboard hbuild {} occurrences
  obtain ⟨-, -, -, hanswer⟩ := hwindows w hwindow
  exact ⟨⟨log, hbuild⟩, w, hwindow, hreceived, hanswer _ hs _ hreceived⟩

end App

end ChipEight
