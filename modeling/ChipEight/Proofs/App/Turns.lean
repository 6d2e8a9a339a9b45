import ChipEight.App.Loop
import ChipEight.Proofs.Machine.History
import ChipEight.Proofs.Machine.Reload

namespace ChipEight

theorem Machine.machine_performAll_configure (m : Machine) (settings : List Setting) :
    (m.performAll (settings.map .configure)).machine = settings.foldl configure m := by
  induction settings generalizing m with
  | nil => rfl
  | cons setting settings ih => exact ih (m.configure setting)

theorem Options.reachable_of_build {o : Options} {contents : Contents} {random : RandomSource}
    {machine : Machine} {log : List Notice} (h : o.build contents random = (.ok machine, log)) :
    machine.Reachable := by
  refine ⟨random, o.settings.map .configure ++ [.loadFile o.rom contents], ?_⟩
  rw [Machine.machine_performAll_append, Machine.machine_performAll_configure]
  unfold build at h
  simp only at h
  split at h
  · cases h
  · cases h
    rfl

theorem Options.eq_start_of_build {o : Options} {contents : Contents} {random : RandomSource}
    {machine : Machine} {log : List Notice}
    (h : o.build contents random = (.ok machine, log)) :
    ∃ memory : Memory,
      machine = (o.settings.foldl Machine.configure (.initial random)).start memory := by
  unfold build at h
  generalize o.settings.foldl Machine.configure (.initial random) = m at h ⊢
  cases contents with
  | error reason => cases h
  | ok rom =>
      rcases m.load_starts_or_rejects rom with ⟨memory, hload⟩ | ⟨e, hload⟩
      · simp only [Machine.loadFile, hload] at h
        cases h
        exact ⟨memory, rfl⟩
      · simp only [Machine.loadFile, hload] at h
        cases h

theorem Options.exists_start_of_build {o : Options} {contents : Contents} {random : RandomSource}
    {machine : Machine} {log : List Notice}
    (h : o.build contents random = (.ok machine, log)) :
    ∃ (m : Machine) (memory : Memory), machine = m.start memory := by
  obtain ⟨memory, hmachine⟩ := eq_start_of_build h
  exact ⟨_, memory, hmachine⟩

theorem Options.exists_build_eq (o : Options) (random : RandomSource) {rom : List UInt8}
    (h : rom.length ≤ 3584) :
    ∃ log, o.build (.ok rom) random =
      (.ok ((o.settings.foldl Machine.configure (.initial random)).load rom).machine, log) := by
  obtain ⟨memory, hload⟩ := Machine.exists_load_eq h
  simp only [build, Machine.loadFile, hload]
  exact ⟨_, rfl⟩

/-- The window is as large as asked for, where its width fits into 32 bits. -/
theorem Options.window_appSettings {o : Options} (h : o.scale ≤ 67108863) :
    o.appSettings.window =
      { title := plainTitle, width := 64 * o.scale, height := 32 * o.scale, resizable := false } := by
  have hwidth : 64 * o.scale < 2 ^ 32 := by omega
  have hheight : 32 * o.scale < 2 ^ 32 := by omega
  have hscale : (UInt32.ofNat o.scale).toNat = o.scale :=
    UInt32.toNat_ofNat_of_lt' (Nat.lt_of_le_of_lt h (by decide))
  simp only [appSettings, UInt32.toNat_mul, hscale, UInt32.reduceToNat, Nat.mod_eq_of_lt hwidth,
    Nat.mod_eq_of_lt hheight]

/-- The keypad key that a keyboard event is about. -/
def KeyEvent.key? (e : KeyEvent) (layout : Layout) : Option Key :=
  e.code.bind (OpenWindow.keypadKey? layout)

/-- The keypad key that goes down, unless it was held down all the while. -/
def KeyEvent.press? (e : KeyEvent) (layout : Layout) : Option Key :=
  if e.pressed && !e.repeated then e.key? layout else none

/-- The keypad key that goes up. -/
def KeyEvent.release? (e : KeyEvent) (layout : Layout) : Option Key :=
  if e.pressed then none else e.key? layout

/-- What a keyboard event does to the machine. -/
def KeyEvent.operations (e : KeyEvent) (layout : Layout) : List Operation :=
  ((e.press? layout).map fun key => .pressKey (UInt8.ofNat key.val)).toList ++
    ((e.release? layout).map fun key => .releaseKey (UInt8.ofNat key.val)).toList

theorem Key.ofByte?_ofNat (key : Key) : Key.ofByte? (UInt8.ofNat key.val) = some key := by
  revert key
  decide

theorem Key.val_lt (key : Key) : key.val < 16 :=
  key.isLt

/-- The keypad after one key goes down, or else another one up. -/
def Keypad.change (k : Keypad) (press release : Option Key) : Keypad :=
  match press, release with
  | some key, _ => { held := k.held.set key true key.val_lt, latch := some key }
  | none, some key => { k with held := k.held.set key false key.val_lt }
  | none, none => k

theorem Machine.pressKey_ofNat (m : Machine) (key : Key) :
    m.pressKey (UInt8.ofNat key.val) =
      { result := .ok (), machine := { m with keypad := m.keypad.change (some key) none } } := by
  simp [pressKey, Keypad.press, Key.ofByte?_ofNat, Keypad.change]

theorem Machine.releaseKey_ofNat (m : Machine) (key : Key) :
    m.releaseKey (UInt8.ofNat key.val) =
      { result := .ok (), machine := { m with keypad := m.keypad.change none (some key) } } := by
  simp [releaseKey, Keypad.release, Key.ofByte?_ofNat, Keypad.change]

theorem Keypad.latch_change (k : Keypad) (press release : Option Key) :
    (k.change press release).latch = press.or k.latch := by
  unfold change
  split <;> rfl

theorem Machine.performAll_keys (m : Machine) (layout : Layout) (e : KeyEvent) :
    (m.performAll (e.operations layout)).machine =
      { m with keypad := m.keypad.change (e.press? layout) (e.release? layout) } := by
  unfold KeyEvent.operations
  have hapart : e.press? layout = none ∨ e.release? layout = none := by
    unfold KeyEvent.press? KeyEvent.release?
    cases e.pressed
    · exact .inl rfl
    · exact .inr rfl
  cases hpress : e.press? layout with
  | some key =>
      have hrelease : e.release? layout = none := hapart.resolve_left (by simp [hpress])
      simp [hrelease, performAll, perform, Outcome.map, pressKey_ofNat]
  | none =>
      cases e.release? layout with
      | some key => simp [performAll, perform, Outcome.map, releaseKey_ofNat]
      | none => rfl

namespace OpenWindow

theorem updateTitle_eq (w : OpenWindow) (d : Desktop) :
    w.updateTitle d =
      ({ w with beeping := w.machine.timers.sounding },
        if w.machine.timers.sounding = w.beeping then d
        else d.setTitle (if w.machine.timers.sounding then beepTitle else plainTitle)) := by
  unfold updateTitle
  split
  · next h => rw [h, if_pos rfl]
  · next h => rw [if_neg h]

theorem hearKey_eq (w : OpenWindow) (layout : Layout) {e : KeyEvent} {code : KeyCode}
    (hcode : e.code = some code) :
    w.hearKey layout e code =
      ({ w with machine := (w.machine.performAll (e.operations layout)).machine }, []) := by
  have hkey : e.key? layout = keypadKey? layout code := by
    rw [KeyEvent.key?, hcode, Option.bind_some]
  unfold hearKey KeyEvent.operations KeyEvent.press? KeyEvent.release?
  rw [hkey]
  cases keypadKey? layout code with
  | none => simp [Machine.performAll]
  | some key =>
      cases hpressed : e.pressed with
      | false => simp [Machine.performAll, Machine.perform, Outcome.map, Machine.releaseKey_ofNat]
      | true =>
          cases hrepeated : e.repeated with
          | false => simp [Machine.performAll, Machine.perform, Outcome.map, Machine.pressKey_ofNat]
          | true => simp [Machine.performAll]

def frameCalls (w : OpenWindow) : List Call :=
  (if w.machine.cycle.machine.display.dirty then [.requestRedraw] else []) ++
    if w.machine.cycle.machine.timers.sounding = w.beeping then []
    else [.setTitle (if w.machine.cycle.machine.timers.sounding then beepTitle else plainTitle)]

end OpenWindow

namespace App

theorem hear_opened (settings : AppSettings) (w : OpenWindow) (d : Desktop) (e : KeyEvent) :
    hear ⟨settings, .opened w⟩ d e =
      { result := ()
        app :=
          ⟨settings, .opened
            { w with machine := (w.machine.performAll (e.operations settings.layout)).machine }⟩
        desktop := if e.code = some .escape then d.exit else d } := by
  have hnone : e.key? settings.layout = none → e.operations settings.layout = [] := by
    intro hkey
    simp [KeyEvent.operations, KeyEvent.press?, KeyEvent.release?, hkey]
  unfold hear
  split
  · next hcode =>
      have hkey : e.key? settings.layout = none := by rw [KeyEvent.key?, hcode, Option.bind_none]
      rw [hnone hkey, hcode]
      rfl
  · next hcode =>
      have hkey : e.key? settings.layout = none := by
        rw [KeyEvent.key?, hcode]
        rfl
      rw [hnone hkey, hcode]
      rfl
  · next code window hescape hcode hstage =>
      cases hstage
      rw [OpenWindow.hearKey_eq w settings.layout hcode, if_neg]
      rw [hcode]
      exact fun heq => hescape (Option.some.inj heq)
  · next code hescape hcode hopened =>
      exact absurd rfl (hopened w)

theorem frame_opened_of_ok (settings : AppSettings) {w : OpenWindow} (d : Desktop)
    (hcycle : w.machine.cycle.result = .ok ()) :
    let m := w.machine.cycle.machine
    let requested := if m.display.dirty then d.requestRedraw else d
    frame ⟨settings, .opened w⟩ d =
      { result := true
        app :=
          ⟨settings, .opened
            { w with machine := m.takeDirty.machine, beeping := m.timers.sounding }⟩
        desktop :=
          if m.timers.sounding = w.beeping then requested
          else requested.setTitle (if m.timers.sounding then beepTitle else plainTitle)
        log := w.machine.cycle.log.map .machine } := by
  simp only [frame, hcycle, OpenWindow.updateTitle_eq]
  rfl

theorem frame_opened_of_error (settings : AppSettings) {w : OpenWindow} (d : Desktop)
    {fault : Fault} (hcycle : w.machine.cycle.result = .error fault) :
    frame ⟨settings, .opened w⟩ d =
      { result := false
        app := ⟨settings, .opened { w with machine := w.machine.cycle.machine }⟩
        desktop := d
        log := w.machine.cycle.log.map .machine ++
          [.emulationStopped fault, .state .debug w.machine.cycle.machine] } := by
  simp only [frame, hcycle]

theorem app_resume (app : App) (d : Desktop) : (app.resume d).app = (app.init d).app := by
  simp only [resume]
  split <;> rfl

theorem app_init_pending (settings : AppSettings) (m : Machine) (d : Desktop) :
    (init ⟨settings, .pending m⟩ d).app =
        ⟨settings, .opened { machine := m, pixels := Frame.pixels m.display.frame }⟩ ∨
      (init ⟨settings, .pending m⟩ d).app = ⟨settings, .lost⟩ := by
  simp only [init]
  split
  · exact .inr rfl
  · split
    · exact .inr rfl
    · split
      · exact .inr rfl
      · next hrender =>
          cases congrArg Prod.fst hrender
          exact .inl rfl

theorem app_redraw_opened (settings : AppSettings) (w : OpenWindow) (d : Desktop) :
    (redraw ⟨settings, .opened w⟩ d).app =
      ⟨settings, .opened { w with pixels := Frame.pixels w.machine.display.frame }⟩ := by
  simp only [redraw, OpenWindow.render]
  split <;> rfl

theorem log_init (app : App) (d : Desktop) : (app.init d).log = [] := by
  rcases app with ⟨settings, stage⟩
  cases stage with
  | opened | lost => rfl
  | pending m =>
      simp only [init]
      split
      · rfl
      · split
        · rfl
        · split <;> rfl

theorem mem_log_resume {app : App} {d : Desktop} {notice : Notice}
    (h : notice ∈ (app.resume d).log) : ∃ e, notice = .initFailed e := by
  simp only [resume] at h
  split at h
  · rw [log_init] at h
    cases h
  · next e he =>
      rw [log_init] at h
      exact ⟨e, List.mem_singleton.mp h⟩

theorem mem_log_redraw {app : App} {d : Desktop} {notice : Notice}
    (h : notice ∈ (app.redraw d).log) : ∃ reason, notice = .renderFailed reason := by
  rcases app with ⟨settings, stage⟩
  cases stage with
  | pending | lost => cases h
  | opened w =>
      simp only [redraw] at h
      split at h
      · cases h
      · next reason hreason => exact ⟨reason, List.mem_singleton.mp h⟩

theorem mem_log_frame {app : App} {d : Desktop} {notice : Notice}
    (h : notice ∈ (app.frame d).log) :
    (∃ e, notice = .machine e) ∨ (∃ fault, notice = .emulationStopped fault) ∨
      ∃ m, notice = .state .debug m := by
  rcases app with ⟨settings, stage⟩
  cases stage with
  | pending | lost => cases h
  | opened w =>
      cases hcycle : w.machine.cycle.result with
      | ok =>
          rw [frame_opened_of_ok settings d hcycle] at h
          obtain ⟨e, -, rfl⟩ := List.mem_map.mp h
          exact .inl ⟨e, rfl⟩
      | error fault =>
          rw [frame_opened_of_error settings d hcycle] at h
          rcases List.mem_append.mp h with h | h
          · obtain ⟨e, -, rfl⟩ := List.mem_map.mp h
            exact .inl ⟨e, rfl⟩
          · simp only [List.mem_cons, List.not_mem_nil, or_false] at h
            rcases h with rfl | rfl
            · exact .inr (.inl ⟨fault, rfl⟩)
            · exact .inr (.inr ⟨_, rfl⟩)

theorem desktop_hear (app : App) (d : Desktop) (e : KeyEvent) :
    (app.hear d e).desktop = if e.code = some .escape then d.exit else d := by
  rcases app with ⟨settings, stage⟩
  cases stage with
  | opened w => rw [hear_opened]
  | pending | lost =>
      unfold hear
      split
      · next hcode => rw [hcode, if_neg (by simp)]
      · next hcode => rw [hcode, if_pos rfl]
      · next hstage => cases hstage
      · next code hescape hcode hopened =>
          rw [hcode, if_neg]
          exact fun heq => hescape (Option.some.inj heq)

theorem log_hear (app : App) (d : Desktop) (e : KeyEvent) : (app.hear d e).log = [] := by
  rcases app with ⟨settings, stage⟩
  cases stage with
  | opened w => rw [hear_opened]
  | pending | lost =>
      unfold hear
      split
      · rfl
      · rfl
      · next hstage => cases hstage
      · rfl

end App

/-- No service fails. -/
structure Desktop.Works (d : Desktop) : Prop where
  failing : d.failing = none
  rendersLeft : d.rendersLeft = none

namespace Desktop.Works

variable {d : Desktop}

theorem record (h : d.Works) (call : Call) : (d.record call).Works :=
  { h with }

theorem useService (h : d.Works) (service : Service) (call : Call) :
    d.useService service call = (d.record call, .ok ()) := by
  rw [Desktop.useService, h.failing, if_neg]
  simp

theorem render (h : d.Works) (pixels : Pixels) :
    d.render pixels = (d.record (.render pixels), .ok ()) := by
  have hleft : (d.record (.render pixels)).rendersLeft = none := h.rendersLeft
  simp only [Desktop.render, hleft]

end Desktop.Works

/-- The desktop after calls, and after it was told a status to exit with, if it was told one. -/
structure Desktop.Asked (d : Desktop) (calls : List Call) (exit : Option Int) (d' : Desktop) :
    Prop where
  failing : d'.failing = d.failing
  rendersLeft : d'.rendersLeft = d.rendersLeft
  granted : d'.granted = d.granted
  calls : d'.calls.toList = d.calls.toList ++ calls
  exitStatus : d'.exitStatus = exit.or d.exitStatus

namespace Desktop

variable {d d' d'' : Desktop} {first second : List Call} {exit : Option Int}

theorem asked_nothing (d : Desktop) : d.Asked [] none d :=
  ⟨rfl, rfl, rfl, (List.append_nil _).symm, rfl⟩

theorem asked_record (d : Desktop) (call : Call) : d.Asked [call] none (d.record call) :=
  ⟨rfl, rfl, rfl, Array.toList_push, rfl⟩

theorem asked_exit (d : Desktop) : d.Asked [.exit] (some 0) d.exit :=
  ⟨rfl, rfl, rfl, Array.toList_push, rfl⟩

theorem asked_requestRedraw (d : Desktop) : d.Asked [.requestRedraw] none d.requestRedraw :=
  d.asked_record .requestRedraw

theorem Asked.trans (hfirst : d.Asked first none d') (hsecond : d'.Asked second exit d'') :
    d.Asked (first ++ second) exit d'' where
  failing := hsecond.failing.trans hfirst.failing
  rendersLeft := hsecond.rendersLeft.trans hfirst.rendersLeft
  granted := hsecond.granted.trans hfirst.granted
  calls := by rw [hsecond.calls, hfirst.calls, List.append_assoc]
  exitStatus := by rw [hsecond.exitStatus, hfirst.exitStatus, Option.none_or]

theorem Works.of_asked (h : d.Works) (hasked : d.Asked first exit d') : d'.Works :=
  ⟨hasked.failing.trans h.failing, hasked.rendersLeft.trans h.rendersLeft⟩

theorem innerSize_of_granted (h : d'.granted = d.granted) (settings : WindowSettings) :
    d'.innerSize settings = d.innerSize settings := by
  rw [innerSize, innerSize, h]

end Desktop

namespace App

variable {d : Desktop}

/-- The desktop after a window was opened in it, with a first picture. -/
def opening (settings : AppSettings) (m : Machine) (d : Desktop) : Desktop :=
  let size := d.innerSize settings.window
  (((d.record (.createWindow settings.window)).record (.createPixels 64 32 size.1 size.2)).record
    (.render (Frame.pixels m.display.frame))).requestRedraw

theorem init_pending (settings : AppSettings) (m : Machine) (hworks : d.Works) :
    init ⟨settings, .pending m⟩ d =
      { result := .ok ()
        app := ⟨settings, .opened { machine := m, pixels := Frame.pixels m.display.frame }⟩
        desktop := opening settings m d } := by
  simp only [init, Desktop.createWindow, Desktop.createPixels, OpenWindow.render, hworks.useService,
    (hworks.record _).useService, ((hworks.record _).record _).render]
  rfl

theorem asked_frame_opened (settings : AppSettings) {w : OpenWindow} (d : Desktop)
    (hcycle : w.machine.cycle.result = .ok ()) :
    d.Asked w.frameCalls none (frame ⟨settings, .opened w⟩ d).desktop := by
  have hrequest : d.Asked
      (if w.machine.cycle.machine.display.dirty then [.requestRedraw] else []) none
      (if w.machine.cycle.machine.display.dirty then d.requestRedraw else d) := by
    split
    · exact d.asked_requestRedraw
    · exact d.asked_nothing
  have htitle : ∀ (e : Desktop) (title : String), e.Asked
      (if w.machine.cycle.machine.timers.sounding = w.beeping then [] else [.setTitle title]) none
      (if w.machine.cycle.machine.timers.sounding = w.beeping then e else e.setTitle title) := by
    intro e title
    split
    · exact e.asked_nothing
    · exact e.asked_record _
  rw [frame_opened_of_ok settings d hcycle]
  exact hrequest.trans (htitle _ _)

theorem redraw_opened (settings : AppSettings) (w : OpenWindow) (hworks : d.Works) :
    redraw ⟨settings, .opened w⟩ d =
      { result := ()
        app := ⟨settings, .opened { w with pixels := Frame.pixels w.machine.display.frame }⟩
        desktop := d.announcePresent.record (.render (Frame.pixels w.machine.display.frame)) } := by
  simp only [redraw, OpenWindow.render, Desktop.announcePresent, (hworks.record _).render]

end App

end ChipEight
