import ChipEight.Proofs.App.Redraw

namespace ChipEight

/-- The title that a call gives to the window. -/
def Call.title? : Call → Option String
  | createWindow settings => some settings.title
  | setTitle title => some title
  | _ => none

namespace Desktop

def titleCalls (d : Desktop) : List Call :=
  d.calls.toList.filter (·.title?.isSome)

def title? (d : Desktop) : Option String :=
  d.titleCalls.getLast?.bind Call.title?

variable {d : Desktop}

theorem titleCalls_record (d : Desktop) (call : Call) :
    (d.record call).titleCalls = d.titleCalls ++ [call].filter (·.title?.isSome) := by
  rw [titleCalls, record, Array.toList_push, List.filter_append]
  rfl

theorem titleCalls_record_of_none {call : Call} (h : call.title? = none) :
    (d.record call).titleCalls = d.titleCalls := by
  simp [titleCalls_record, h]

theorem titleCalls_render (d : Desktop) (pixels : Pixels) :
    (d.render pixels).1.titleCalls = d.titleCalls := by
  have hcalls : (d.render pixels).1.titleCalls = (d.record (.render pixels)).titleCalls := by
    simp only [render]
    split <;> rfl
  rw [hcalls, titleCalls_record_of_none rfl]

theorem titleCalls_requestRedraw (d : Desktop) : d.requestRedraw.titleCalls = d.titleCalls := by
  show (d.record .requestRedraw).titleCalls = d.titleCalls
  exact titleCalls_record_of_none rfl

theorem titleCalls_exit (d : Desktop) : d.exit.titleCalls = d.titleCalls := by
  show (d.record .exit).titleCalls = d.titleCalls
  exact titleCalls_record_of_none rfl

theorem titleCalls_setTitle (d : Desktop) (title : String) :
    (d.setTitle title).titleCalls = d.titleCalls ++ [.setTitle title] :=
  d.titleCalls_record (.setTitle title)

theorem title?_of_concat {calls : List Call} {last : Call} (h : d.titleCalls = calls ++ [last]) :
    d.title? = last.title? := by
  rw [title?, h, List.getLast?_concat, Option.bind_some]

end Desktop

namespace App

theorem titleCalls_redraw (app : App) (d : Desktop) :
    (app.redraw d).desktop.titleCalls = d.titleCalls := by
  rcases app with ⟨settings, stage⟩
  cases stage with
  | pending | lost => rfl
  | opened w =>
      have hshown : (w.render d.announcePresent).2.1.titleCalls = d.titleCalls := by
        rw [OpenWindow.render, Desktop.titleCalls_render]
        exact Desktop.titleCalls_record_of_none rfl
      simp only [redraw]
      split
      · exact hshown
      · rw [Desktop.titleCalls_exit, hshown]

theorem titleCalls_hear (app : App) (d : Desktop) (e : KeyEvent) :
    (app.hear d e).desktop.titleCalls = d.titleCalls := by
  rw [desktop_hear]
  split
  · exact d.titleCalls_exit
  · rfl

theorem titleCalls_resume_pending (settings : AppSettings) (m : Machine) (d : Desktop) :
    (resume ⟨settings, .pending m⟩ d).desktop.titleCalls =
      d.titleCalls ++ [.createWindow settings.window] := by
  have hresume : (resume ⟨settings, .pending m⟩ d).desktop =
      (init ⟨settings, .pending m⟩ d).desktop := by
    simp only [resume]
    split <;> rfl
  have hwindow : (d.createWindow settings.window).1.titleCalls =
      d.titleCalls ++ [.createWindow settings.window] :=
    d.titleCalls_record (.createWindow settings.window)
  have hpixels : ∀ created : Desktop,
      (created.createPixels (created.innerSize settings.window)).1.titleCalls = created.titleCalls :=
    fun created => created.titleCalls_record_of_none rfl
  have hshown : ∀ (w : OpenWindow) (prepared : Desktop),
      (w.render prepared).2.1.titleCalls = prepared.titleCalls :=
    fun w prepared => prepared.titleCalls_render (Frame.pixels w.machine.display.frame)
  rw [hresume]
  simp only [init]
  split
  · next created e hcreate =>
      rwa [hcreate] at hwindow
  · next created _ hcreate =>
      rw [hcreate] at hwindow
      replace hpixels := hpixels created
      split
      · next prepared e hprepare =>
          rw [hprepare] at hpixels
          exact hpixels.trans hwindow
      · next prepared _ hprepare =>
          rw [hprepare] at hpixels
          replace hshown := hshown { machine := m } prepared
          split
          · next w shown e hrender =>
              rw [hrender] at hshown
              exact hshown.trans (hpixels.trans hwindow)
          · next w shown _ hrender =>
              rw [hrender] at hshown
              exact shown.titleCalls_requestRedraw.trans (hshown.trans (hpixels.trans hwindow))

/-- The call that gives its title to the window that an occurrence creates, if it creates one. -/
def titlesCreated (app : App) : Occurrence → List Call
  | .delivery .resumed => app.pending?.toList.map fun _ => .createWindow app.settings.window
  | _ => []

theorem setTitle_not_mem_titlesCreated (app : App) (o : Occurrence) (title : String) :
    .setTitle title ∉ app.titlesCreated o := by
  unfold titlesCreated
  split <;> simp

theorem titlesCreated_eq_nil {app : App} {o : Occurrence}
    (h : o = .delivery .resumed → app.pending? = none) : app.titlesCreated o = [] := by
  unfold titlesCreated
  split
  · rw [h rfl]
    rfl
  · rfl

theorem titleCalls_undergo_of_ne_frame {o : Occurrence} (ho : o ≠ .frame) (app : App)
    (d : Desktop) :
    (app.undergo d o).desktop.titleCalls = d.titleCalls ++ app.titlesCreated o := by
  cases o with
  | frame => exact absurd rfl ho
  | pump => exact d.titleCalls_record .pump
  | delivery delivery =>
      cases delivery with
      | exitStatus status => exact (List.append_nil _).symm
      | resumed =>
          rcases app with ⟨settings, stage⟩
          cases stage with
          | pending m => exact titleCalls_resume_pending settings m d
          | opened | lost => exact (List.append_nil _).symm
      | event e =>
          refine Eq.trans ?_ (List.append_nil _).symm
          cases e with
          | close => exact d.titleCalls_exit
          | other => rfl
          | redraw => exact titleCalls_redraw app d
          | key e => exact titleCalls_hear app d e

theorem titleCalls_undergo_of_no_window {app : App} {o : Occurrence}
    (hwindow : app.window? = none) (ho : o ≠ .delivery .resumed) (d : Desktop) :
    (app.undergo d o).desktop.titleCalls = d.titleCalls := by
  by_cases hframe : o = .frame
  · subst hframe
    rcases app with ⟨settings, stage⟩
    cases stage with
    | opened w => cases hwindow
    | pending | lost => rfl
  · rw [titleCalls_undergo_of_ne_frame hframe, titlesCreated_eq_nil fun h => absurd h ho,
      List.append_nil]

theorem titleCalls_undergoAll_of_no_window {app : App} (hwindow : app.window? = none)
    {occurrences : List Occurrence} (hnever : .delivery .resumed ∉ occurrences) (d : Desktop) :
    (app.undergoAll d occurrences).desktop.titleCalls = d.titleCalls := by
  induction occurrences generalizing d with
  | nil => rfl
  | cons o rest ih =>
      obtain ⟨ho, hrest⟩ := List.ne_and_not_mem_of_not_mem_cons hnever
      rw [undergoAll, app_undergo_of_no_window hwindow (Ne.symm ho)]
      exact (ih hrest _).trans (titleCalls_undergo_of_no_window hwindow (Ne.symm ho) d)

end App

/-- The first titles of a window that says in turn that a tone sounds and that none does. -/
def titlesInTurn (count : Nat) : List String :=
  (List.range count).map fun k => if k % 2 = 0 then beepTitle else plainTitle

theorem titlesInTurn_succ (count : Nat) :
    titlesInTurn (count + 1) =
      titlesInTurn count ++ [if count % 2 = 0 then beepTitle else plainTitle] := by
  rw [titlesInTurn, List.range_succ, List.map_append]
  rfl

/-- Since `before`, the window was created, and its title was set a number of times, in turn, up to
what its flag says. -/
def OpenWindow.Titled (w : OpenWindow) (settings : WindowSettings) (before d : Desktop) : Prop :=
  ∃ count, d.titleCalls =
      before.titleCalls ++ .createWindow settings :: (titlesInTurn count).map .setTitle ∧
    (w.beeping = true ↔ count % 2 = 1)

namespace OpenWindow

variable {w w' : OpenWindow} {settings : WindowSettings} {before d d' : Desktop}

theorem Titled.title?_eq (h : w.Titled settings before d) (hplain : settings.title = plainTitle) :
    d.title? = some (if w.beeping then beepTitle else plainTitle) := by
  obtain ⟨count, hcalls, hbeeping⟩ := h
  cases count with
  | zero =>
      have hsilent : ¬ w.beeping = true := by simp [hbeeping]
      rw [Desktop.title?_of_concat hcalls, Call.title?, hplain, if_neg hsilent]
  | succ count =>
      have hlast : w.beeping = true ↔ count % 2 = 0 := by
        rw [hbeeping]
        omega
      rw [titlesInTurn_succ, List.map_append, ← List.cons_append, ← List.append_assoc] at hcalls
      simp only [Desktop.title?_of_concat hcalls, Call.title?, hlast]

theorem Titled.title?_eq_beepTitle_iff (h : w.Titled settings before d)
    (hplain : settings.title = plainTitle) : d.title? = some beepTitle ↔ w.beeping = true := by
  rw [h.title?_eq hplain]
  cases w.beeping <;> decide

theorem Titled.title?_eq_plainTitle_iff (h : w.Titled settings before d)
    (hplain : settings.title = plainTitle) : d.title? = some plainTitle ↔ ¬ w.beeping = true := by
  rw [h.title?_eq hplain]
  cases w.beeping <;> decide

theorem Titled.of_kept (h : w.Titled settings before d) (hcalls : d'.titleCalls = d.titleCalls)
    (hbeeping : w'.beeping = w.beeping) : w'.Titled settings before d' := by
  rwa [Titled, hcalls, hbeeping]

theorem Titled.of_set (h : w.Titled settings before d) {sounding : Bool}
    (hsounding : sounding ≠ w.beeping) (hflag : w'.beeping = sounding) :
    w'.Titled settings before (d.setTitle (if sounding then beepTitle else plainTitle)) := by
  obtain ⟨count, hcalls, hbeeping⟩ := h
  have hturn : sounding = true ↔ count % 2 = 0 := by
    rw [Bool.eq_not.mpr hsounding, Bool.not_eq_true', ← Bool.not_eq_true, hbeeping]
    omega
  refine ⟨count + 1, ?_, ?_⟩
  · simp [Desktop.titleCalls_setTitle, hcalls, titlesInTurn_succ, hturn]
  · rw [hflag, hturn]
    omega

end OpenWindow

namespace App

variable {settings : AppSettings} {w w' : OpenWindow} {before d : Desktop} {o : Occurrence}

theorem titled_undergo (h : w.Titled settings.window before d)
    (hopened : (undergo ⟨settings, .opened w⟩ d o).app = ⟨settings, .opened w'⟩) :
    w'.Titled settings.window before (undergo ⟨settings, .opened w⟩ d o).desktop := by
  by_cases ho : o = .frame
  · subst ho
    simp only [undergo] at hopened ⊢
    cases hcycle : w.machine.cycle.result with
    | error fault =>
        rw [frame_opened_of_error settings d hcycle] at hopened ⊢
        cases hopened
        exact h.of_kept rfl rfl
    | ok =>
        rw [frame_opened_of_ok settings d hcycle] at hopened ⊢
        cases hopened
        have hrequested : w.Titled settings.window before
            (if w.machine.cycle.machine.display.dirty then d.requestRedraw else d) := by
          split
          · exact h.of_kept d.titleCalls_requestRedraw rfl
          · exact h
        simp only
        split
        · next hsounding => exact hrequested.of_kept rfl hsounding
        · next hsounding => exact hrequested.of_set hsounding rfl
  · refine h.of_kept ?_ ((window_undergo hopened).2 ho)
    rw [titleCalls_undergo_of_ne_frame ho, titlesCreated_eq_nil fun _ => rfl, List.append_nil]

theorem titled_undergoAll {m : Machine} {occurrences : List Occurrence}
    (hopened : ((initial settings m).undergoAll d occurrences).app = ⟨settings, .opened w⟩) :
    w.Titled settings.window d ((initial settings m).undergoAll d occurrences).desktop := by
  refine opened_induction (P := fun occurrences w =>
    w.Titled settings.window d ((initial settings m).undergoAll d occurrences).desktop)
    ?_ ?_ hopened
  · intro occurrences w happ hnever hopens
    obtain ⟨-, -, hbeeping⟩ := undergo_initial_opened hopens
    simp only [undergoAll_concat, happ]
    refine ⟨0, ?_, by simp [hbeeping]⟩
    rw [titleCalls_undergo_of_ne_frame (by simp), titleCalls_undergoAll_of_no_window rfl hnever]
    rfl
  · intro occurrences o w w' happ htitled hstep
    simp only [undergoAll_concat, happ]
    exact titled_undergo htitled hstep

theorem beeping_frame_of_ok {settings : AppSettings} {w : OpenWindow} {d : Desktop}
    (h : (frame ⟨settings, .opened w⟩ d).result = true) :
    ∃ w', (frame ⟨settings, .opened w⟩ d).app = ⟨settings, .opened w'⟩ ∧
      (w'.beeping = true ↔ 0 < w'.machine.timers.sound) := by
  rw [frame_opened_of_ok settings d (cycle_of_frame h)]
  refine ⟨_, rfl, ?_⟩
  exact decide_eq_true_iff

theorem title_follows_tone (o : Options) (machine : Machine) (desktop : Desktop)
    (occurrences : List Occurrence) :
    let app := initial o.appSettings machine
    let reached := app.undergoAll desktop occurrences
    let framed := reached.app.frame reached.desktop
    (∀ w, reached.app.window? = some w →
      (∃ count, reached.desktop.titleCalls =
        desktop.titleCalls ++
          .createWindow o.appSettings.window :: (titlesInTurn count).map .setTitle) ∧
      reached.desktop.title? = some (if w.beeping then beepTitle else plainTitle) ∧
      (framed.result = true →
        ∃ w', framed.app.window? = some w' ∧
          (framed.desktop.title? = some beepTitle ↔ 0 < w'.machine.timers.sound) ∧
          (framed.desktop.title? = some plainTitle ↔ w'.machine.timers.sound = 0) ∧
          (w'.beeping = true ↔ 0 < w'.machine.timers.sound))) ∧
    ∀ (a : App) (d : Desktop) (other : Occurrence), other ≠ .frame →
      ∃ created, (a.undergo d other).desktop.titleCalls = d.titleCalls ++ created ∧
        ∀ title, .setTitle title ∉ created := by
  intro app reached framed
  refine ⟨?_, ?_⟩
  · intro w hwindow
    have hopened : reached.app = ⟨o.appSettings, .opened w⟩ := app_of_window? hwindow
    have htitled : w.Titled o.appSettings.window desktop reached.desktop :=
      titled_undergoAll hopened
    refine ⟨htitled.imp fun _ h => h.1, htitled.title?_eq rfl, ?_⟩
    intro hframed
    simp only [framed, hopened] at hframed ⊢
    obtain ⟨w', hopened', hbeeping⟩ := beeping_frame_of_ok hframed
    have htitled' : w'.Titled o.appSettings.window desktop
        (frame ⟨o.appSettings, .opened w⟩ reached.desktop).desktop :=
      titled_undergo (o := .frame) htitled hopened'
    refine ⟨w', congrArg window? hopened', ?_, ?_, hbeeping⟩
    · rw [htitled'.title?_eq_beepTitle_iff rfl, hbeeping]
    · rw [htitled'.title?_eq_plainTitle_iff rfl, hbeeping, Nat.pos_iff_ne_zero, not_not]
  · intro a d other hother
    exact ⟨a.titlesCreated other, titleCalls_undergo_of_ne_frame hother a d,
      a.setTitle_not_mem_titlesCreated other⟩

/-- The program sets the sound timer to two in the first frame, and no tone sounds any more after the
third. -/
theorem title_follows_tone_to_its_end :
    let o : Options := { rom := "beep", opsPerFrame := 2 }
    let rom : List UInt8 := [0x60, 0x02, 0xF0, 0x18, 0x12, 0x04]
    let machine := ((o.settings.foldl Machine.configure (.initial (.ofSeed 0))).load rom).machine
    let app := initial o.appSettings machine
    let redraw : Occurrence := .delivery (.event .redraw)
    let occurrences : List Occurrence := [.delivery .resumed, .frame, redraw, .frame]
    let reached := app.undergoAll {} occurrences
    let framed := reached.app.frame reached.desktop
    let shown := reached.app.undergo reached.desktop redraw
    ∃ w w', reached.app.window? = some w ∧ w.beeping = true ∧
      reached.desktop.title? = some beepTitle ∧
      (∃ created, shown.desktop.titleCalls = reached.desktop.titleCalls ++ created ∧
        ∀ title, .setTitle title ∉ created) ∧
      framed.result = true ∧ framed.app.window? = some w' ∧ w'.machine.timers.sound = 0 ∧
      framed.desktop.title? = some plainTitle := by
  intro o rom machine app redraw occurrences reached framed shown
  obtain ⟨hsounding, hframed, hsilent⟩ :
      reached.app.window?.map (·.beeping) = some true ∧ framed.result = true ∧
        framed.app.window?.map (·.machine.timers.sound) = some 0 := by
    decide +kernel
  obtain ⟨hwindows, hothers⟩ := title_follows_tone o machine {} occurrences
  obtain ⟨w, hwindow, hbeeping⟩ := Option.map_eq_some_iff.mp hsounding
  obtain ⟨-, htitle, hafter⟩ := hwindows w hwindow
  obtain ⟨w', hwindow', -, hplain, -⟩ := hafter hframed
  have hzero : w'.machine.timers.sound = 0 := by
    rw [hwindow'] at hsilent
    exact Option.some.inj hsilent
  rw [if_pos hbeeping] at htitle
  exact ⟨w, w', hwindow, hbeeping, htitle, hothers reached.app reached.desktop redraw (by simp [redraw]), hframed,
    hwindow', hzero, hplain.mpr hzero⟩

end App

end ChipEight
