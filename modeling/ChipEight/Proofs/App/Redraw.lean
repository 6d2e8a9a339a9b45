import ChipEight.Proofs.App.Whereabouts
import ChipEight.Proofs.Machine.DirtyFlag
import ChipEight.Proofs.Machine.Halting
/-!
Redraws: while frames succeed, a window that shows an old picture has asked for a redraw since it
showed that picture.

A frame that succeeds asks for a redraw when the dirty flag is up after its cycle. Between frames the
flag is down, except before the first frame that succeeds.
-/

namespace ChipEight

/-- The picture shown last is `pixels`, and `later` are the calls since. -/
def Desktop.ShowsSince (d : Desktop) (pixels : Pixels) (later : List Call) : Prop :=
  (∃ before, d.calls.toList = before ++ .render pixels :: later) ∧ ∀ other, .render other ∉ later

namespace Desktop

variable {d d' : Desktop} {pixels : Pixels} {later : List Call}

theorem showsSince_record_render (d : Desktop) (pixels : Pixels) :
    (d.record (.render pixels)).ShowsSince pixels [] :=
  ⟨⟨d.calls.toList, Array.toList_push⟩, by simp⟩

theorem ShowsSince.append (h : d.ShowsSince pixels later) (made : List Call)
    (hcalls : d'.calls.toList = d.calls.toList ++ made) (hrender : ∀ other, .render other ∉ made) :
    d'.ShowsSince pixels (later ++ made) := by
  obtain ⟨⟨before, hbefore⟩, hlater⟩ := h
  refine ⟨⟨before, ?_⟩, ?_⟩
  · rw [hcalls, hbefore]
    simp
  · intro other hmem
    rcases List.mem_append.mp hmem with hmem | hmem
    · exact hlater other hmem
    · exact hrender other hmem

theorem ShowsSince.requestRedraw (h : d.ShowsSince pixels later) :
    d.requestRedraw.ShowsSince pixels (later ++ [.requestRedraw]) :=
  h.append [.requestRedraw] Array.toList_push (by simp)

end Desktop

namespace OpenWindow

def UpToDate (w : OpenWindow) (d : Desktop) : Prop :=
  ∃ later, d.ShowsSince w.pixels later ∧
    (w.pixels ≠ Frame.pixels w.machine.display.frame → .requestRedraw ∈ later)

/-- No frame succeeds any more. -/
def Stopped (w : OpenWindow) : Prop :=
  w.machine.state = .halted ∧ w.machine.config.opsPerCycle ≠ 0

variable {w w' : OpenWindow} {d d' : Desktop}

theorem upToDate_of_shows {later : List Call} (h : d.ShowsSince w.pixels later)
    (hpixels : w.pixels = Frame.pixels w.machine.display.frame) : w.UpToDate d :=
  ⟨later, h, fun hstale => absurd hpixels hstale⟩

theorem UpToDate.of_calls (h : w.UpToDate d) (made : List Call)
    (hcalls : d'.calls.toList = d.calls.toList ++ made) (hrender : ∀ other, .render other ∉ made)
    (hpixels : w'.pixels = w.pixels)
    (hframe : .requestRedraw ∉ made → w'.machine.display.frame = w.machine.display.frame) :
    w'.UpToDate d' := by
  obtain ⟨later, hshows, hrequested⟩ := h
  refine ⟨later ++ made, ?_, ?_⟩
  · rw [hpixels]
    exact hshows.append made hcalls hrender
  · intro hstale
    by_cases hmade : .requestRedraw ∈ made
    · exact List.mem_append_right _ hmade
    · rw [hpixels, hframe hmade] at hstale
      exact List.mem_append_left _ (hrequested hstale)

theorem render_not_mem_frameCalls (w : OpenWindow) (pixels : Pixels) :
    .render pixels ∉ w.frameCalls := by
  rw [frameCalls, List.mem_append]
  rintro (hmem | hmem)
  · split at hmem <;> simp at hmem
  · split at hmem <;> simp at hmem

theorem requestRedraw_mem_frameCalls_iff (w : OpenWindow) :
    .requestRedraw ∈ w.frameCalls ↔ w.machine.cycle.machine.display.dirty = true := by
  rw [frameCalls]
  split <;> split <;> simp [*]

theorem Stopped.cycle_eq (h : w.Stopped) :
    w.machine.cycle = { result := .error .halted, machine := w.machine.tick } := by
  rw [Machine.cycle_of_halted h.1, if_neg h.2]

end OpenWindow

namespace App

theorem cycle_of_frame {settings : AppSettings} {w : OpenWindow} {d : Desktop}
    (h : (frame ⟨settings, .opened w⟩ d).result = true) : w.machine.cycle.result = .ok () := by
  cases hcycle : w.machine.cycle.result with
  | ok => rfl
  | error fault =>
      rw [frame_opened_of_error settings d hcycle] at h
      cases h

/-- Every frame among the occurrences succeeds. -/
def FramesSucceed (app : App) (d : Desktop) (occurrences : List Occurrence) : Prop :=
  ∀ earlier later, occurrences = earlier ++ .frame :: later →
    let before := app.undergoAll d earlier
    (before.app.frame before.desktop).result = true

/-- Among the occurrences is a frame that succeeds in the window. -/
def HasSucceeded (app : App) (d : Desktop) (occurrences : List Occurrence) : Prop :=
  ∃ earlier later, occurrences = earlier ++ .frame :: later ∧
    let before := app.undergoAll d earlier
    before.app.window?.isSome ∧ (before.app.frame before.desktop).result = true

theorem framesSucceed_nil (app : App) (d : Desktop) : app.FramesSucceed d [] := by
  intro earlier later heq
  simp at heq

theorem framesSucceed_concat {app : App} {d : Desktop} {occurrences : List Occurrence}
    {o : Occurrence} :
    app.FramesSucceed d (occurrences ++ [o]) ↔
      app.FramesSucceed d occurrences ∧
        (o = .frame → ((app.undergoAll d occurrences).app.frame
          (app.undergoAll d occurrences).desktop).result = true) := by
  constructor
  · intro h
    refine ⟨?_, ?_⟩
    · rintro earlier later rfl
      exact h earlier (later ++ [o]) (by simp)
    · rintro rfl
      exact h occurrences [] rfl
  · rintro ⟨hbefore, hlast⟩ earlier later heq
    rcases concat_eq_append_cons_iff.mp heq with ⟨rfl, rfl, -⟩ | ⟨rest, -, rfl⟩
    · exact hlast rfl
    · exact hbefore earlier rest rfl

theorem hasSucceeded_concat {app : App} {d : Desktop} {occurrences : List Occurrence}
    {o : Occurrence} :
    app.HasSucceeded d (occurrences ++ [o]) ↔
      app.HasSucceeded d occurrences ∨
        o = .frame ∧ (app.undergoAll d occurrences).app.window?.isSome ∧
          ((app.undergoAll d occurrences).app.frame
            (app.undergoAll d occurrences).desktop).result = true := by
  constructor
  · rintro ⟨earlier, later, heq, hsucceeds⟩
    rcases concat_eq_append_cons_iff.mp heq with ⟨rfl, rfl, -⟩ | ⟨rest, -, rfl⟩
    · exact .inr ⟨rfl, hsucceeds⟩
    · exact .inl ⟨earlier, rest, rfl, hsucceeds⟩
  · rintro (⟨earlier, later, rfl, hsucceeds⟩ | ⟨rfl, hsucceeds⟩)
    · exact ⟨earlier, later ++ [o], by simp, hsucceeds⟩
    · exact ⟨occurrences, [], rfl, hsucceeds⟩

theorem not_hasSucceeded_initial {settings : AppSettings} {m : Machine} {d : Desktop}
    {occurrences : List Occurrence} (h : .delivery .resumed ∉ occurrences) :
    ¬ (initial settings m).HasSucceeded d occurrences := by
  rintro ⟨earlier, later, rfl, hwindow, -⟩
  rcases undergoAll_initial settings m d earlier with ⟨happ, -⟩ | ⟨w, -, -, honce⟩ | ⟨happ, -⟩
  · rw [happ] at hwindow
    cases hwindow
  · exact h (List.mem_append_left _ honce)
  · rw [happ] at hwindow
    cases hwindow

section Step

variable {settings : AppSettings} {w w' : OpenWindow} {d : Desktop} {o : Occurrence}

theorem upToDate_undergo (hworks : d.Works) (h : w.UpToDate d)
    (hframe : o = .frame → (frame ⟨settings, .opened w⟩ d).result = true)
    (hopened : (undergo ⟨settings, .opened w⟩ d o).app = ⟨settings, .opened w'⟩) :
    w'.UpToDate (undergo ⟨settings, .opened w⟩ d o).desktop := by
  cases o with
  | pump =>
      cases hopened
      exact h.of_calls [.pump] Array.toList_push (by simp) rfl fun _ => rfl
  | frame =>
      have hcycle := cycle_of_frame (hframe rfl)
      have hcalls := (asked_frame_opened settings d hcycle).calls
      simp only [undergo, frame_opened_of_ok settings d hcycle] at hopened hcalls ⊢
      cases hopened
      refine h.of_calls _ hcalls w.render_not_mem_frameCalls rfl ?_
      -- Without a request the flag is down, so that nothing was drawn.
      rw [w.requestRedraw_mem_frameCalls_iff, Bool.not_eq_true]
      intro hclean
      show w.machine.cycle.machine.display.frame = w.machine.display.frame
      rw [Machine.display_cycle_of_clean hclean]
  | delivery delivery =>
      cases delivery with
      | resumed | exitStatus =>
          cases hopened
          exact h
      | event e =>
          cases e with
          | other =>
              cases hopened
              exact h
          | close =>
              cases hopened
              exact h.of_calls [.exit] Array.toList_push (by simp) rfl fun _ => rfl
          | redraw =>
              simp only [undergo, handle, redraw_opened settings w hworks] at hopened ⊢
              cases hopened
              exact OpenWindow.upToDate_of_shows (Desktop.showsSince_record_render _ _) rfl
          | key e =>
              have hdisplay : (w.machine.performAll (e.operations settings.layout)).machine.display =
                  w.machine.display := by
                rw [Machine.performAll_keys]
              simp only [undergo, handle, hear_opened] at hopened ⊢
              cases hopened
              split
              · refine h.of_calls [.exit] Array.toList_push (by simp) rfl fun _ => ?_
                rw [hdisplay]
              · refine h.of_calls [] (by simp) (by simp) rfl fun _ => ?_
                rw [hdisplay]

theorem stopped_or_dirty_iff_undergo {P : Prop}
    (h : w.Stopped ∨ (w.machine.display.dirty = true ↔ ¬ P))
    (hopened : (undergo ⟨settings, .opened w⟩ d o).app = ⟨settings, .opened w'⟩) :
    w'.Stopped ∨ (w'.machine.display.dirty = true ↔
      ¬ (P ∨ o = .frame ∧ (frame ⟨settings, .opened w⟩ d).result = true)) := by
  by_cases ho : o = .frame
  · subst ho
    cases hcycle : w.machine.cycle.result with
    | ok =>
        simp only [undergo, frame_opened_of_ok settings d hcycle] at hopened ⊢
        cases hopened
        exact .inr (by simp [Machine.takeDirty, Display.takeDirty])
    | error fault =>
        simp only [undergo, frame_opened_of_error settings d hcycle] at hopened
        cases hopened
        obtain ⟨hstate, hops⟩ := Machine.state_cycle_of_error hcycle
        refine .inl ⟨hstate, ?_⟩
        show w.machine.cycle.machine.config.opsPerCycle ≠ 0
        rwa [Machine.config_cycle]
  · have hmachine := (window_undergo hopened).1
    rw [machine_performAll_of_ne_frame ho] at hmachine
    simp only [OpenWindow.Stopped, hmachine, ho, false_and, or_false] at h ⊢
    exact h

end Step

section Run

variable {settings : AppSettings} {m : Machine} {d : Desktop} {w : OpenWindow}
  {occurrences : List Occurrence}

theorem upToDate_undergoAll (hworks : d.Works)
    (hframes : (initial settings m).FramesSucceed d occurrences)
    (hopened : ((initial settings m).undergoAll d occurrences).app = ⟨settings, .opened w⟩) :
    w.UpToDate ((initial settings m).undergoAll d occurrences).desktop := by
  refine opened_induction (P := fun occurrences w =>
    (initial settings m).FramesSucceed d occurrences →
      w.UpToDate ((initial settings m).undergoAll d occurrences).desktop) ?_ ?_ hopened hframes
  · intro occurrences w happ _ hopened _
    simp only [undergoAll_concat, happ]
    rw [undergo_resumed settings m (hworks.undergoAll _ occurrences)] at hopened ⊢
    cases hopened
    have hshown := Desktop.showsSince_record_render
    exact OpenWindow.upToDate_of_shows (hshown _ _).requestRedraw rfl
  · intro occurrences o w w' happ hbefore hopened hframes
    obtain ⟨hearlier, hlast⟩ := framesSucceed_concat.mp hframes
    rw [happ] at hlast
    simp only [undergoAll_concat, happ]
    exact upToDate_undergo (hworks.undergoAll _ occurrences) (hbefore hearlier) hlast hopened

theorem stopped_or_dirty_iff_undergoAll (hdirty : m.display.dirty = true)
    (hopened : ((initial settings m).undergoAll d occurrences).app = ⟨settings, .opened w⟩) :
    w.Stopped ∨ (w.machine.display.dirty = true ↔
      ¬ (initial settings m).HasSucceeded d occurrences) := by
  refine opened_induction (P := fun occurrences w => w.Stopped ∨
    (w.machine.display.dirty = true ↔ ¬ (initial settings m).HasSucceeded d occurrences))
    ?_ ?_ hopened
  · intro occurrences w _ hnever hopened
    rw [hasSucceeded_concat, (undergo_initial_opened hopened).2.1]
    refine .inr (iff_of_true hdirty ?_)
    rintro (hsucceeded | ⟨ho, -⟩)
    · exact not_hasSucceeded_initial hnever hsucceeded
    · cases ho
  · intro occurrences o w w' happ hbefore hopened
    rw [hasSucceeded_concat, happ]
    simpa [window?] using stopped_or_dirty_iff_undergo hbefore hopened

end Run

end App

theorem Frame.pixels_injective : Function.Injective Frame.pixels := by
  intro f g h
  apply Vector.ext
  intro n hn
  have hf := Pixels.colour_pixels f ⟨n, hn⟩
  rw [h, Pixels.colour_pixels] at hf
  exact hf.symm

theorem Cell.index_lt (c : Cell) : 64 * c.y.val + c.x.val < 2048 := by
  omega

theorem OpenWindow.render_shows_frame (w : OpenWindow) (d : Desktop) :
    let shown := (w.render d).1
    shown.machine = w.machine ∧
      (w.render d).2.1.calls = d.calls.push (.render shown.pixels) ∧
      ∀ (c : Cell) (k : Fin 4),
        shown.pixels[4 * (64 * c.y.val + c.x.val) + k.val] =
          (w.machine.display.frame.get ⟨64 * c.y.val + c.x.val, c.index_lt⟩).bytes.get k := by
  intro shown
  refine ⟨rfl, ?_, ?_⟩
  · simp only [shown, render, Desktop.render]
    split <;> rfl
  · intro c k
    exact Frame.getElem_pixels w.machine.display.frame ⟨64 * c.y.val + c.x.val, c.index_lt⟩ k

/-- A redraw that is delivered shows the picture as it is then. -/
theorem App.redraw_shows_frame (settings : AppSettings) (w : OpenWindow) {d : Desktop}
    (hworks : d.Works) :
    let redrawn := redraw ⟨settings, .opened w⟩ d
    let pixels := Frame.pixels w.machine.display.frame
    redrawn.app.window? = some { w with pixels := pixels } ∧
      redrawn.desktop.calls.toList = d.calls.toList ++ [.announcePresent, .render pixels] :=
  ⟨congrArg window? (app_redraw_opened settings w d), (asked_redraw hworks _).calls⟩

theorem App.stale_window_requests_redraw {o : Options} {contents : Contents} {random : RandomSource}
    {machine : Machine} {log : List Notice} (hbuild : o.build contents random = (.ok machine, log))
    {desktop : Desktop} (hworks : desktop.Works) (occurrences : List Occurrence) :
    let app := initial o.appSettings machine
    let reached := app.undergoAll desktop occurrences
    let framed := reached.app.frame reached.desktop
    let redrawn := reached.app.handle reached.desktop .redraw
    (∀ w, reached.app.window? = some w →
      (app.FramesSucceed desktop occurrences →
        ∃ later, reached.desktop.ShowsSince w.pixels later ∧
          (w.pixels ≠ Frame.pixels w.machine.display.frame → .requestRedraw ∈ later)) ∧
      (framed.result = true →
        ∃ made, framed.desktop.calls.toList = reached.desktop.calls.toList ++ made ∧
          (.requestRedraw ∈ made ↔
            ¬ app.HasSucceeded desktop occurrences ∨
              ∃ s ∈ w.machine.stepStarts .cycle, Step.draws s.step.result)) ∧
      let pixels := Frame.pixels w.machine.display.frame
      redrawn.app.window? = some { w with pixels := pixels } ∧
        redrawn.desktop.calls.toList =
          reached.desktop.calls.toList ++ [.announcePresent, .render pixels]) ∧
    ∀ (w : OpenWindow) (d : Desktop),
      let shown := (w.render d).1
      shown.machine = w.machine ∧
        (w.render d).2.1.calls = d.calls.push (.render shown.pixels) ∧
        ∀ (c : Cell) (k : Fin 4),
          shown.pixels[4 * (64 * c.y.val + c.x.val) + k.val] =
            (w.machine.display.frame.get ⟨64 * c.y.val + c.x.val, c.index_lt⟩).bytes.get k := by
  intro app reached framed redrawn
  refine ⟨?_, OpenWindow.render_shows_frame⟩
  intro w hwindow
  have hopened : reached.app = ⟨o.appSettings, .opened w⟩ := app_of_window? hwindow
  have hreached : reached.desktop.Works := hworks.undergoAll app occurrences
  have hredrawn := redraw_shows_frame o.appSettings w hreached
  rw [← hopened] at hredrawn
  refine ⟨fun hframes => upToDate_undergoAll hworks hframes hopened, ?_, hredrawn⟩
  intro hframed
  have hstarted : machine.display.dirty = true := by
    obtain ⟨m, memory, rfl⟩ := Options.exists_start_of_build hbuild
    rfl
  simp only [framed, hopened] at hframed ⊢
  have hcycle := cycle_of_frame hframed
  refine ⟨w.frameCalls, (asked_frame_opened o.appSettings _ hcycle).calls, ?_⟩
  rw [w.requestRedraw_mem_frameCalls_iff, Machine.dirty_cycle_iff]
  rcases stopped_or_dirty_iff_undergoAll hstarted hopened with hstopped | hdirty
  · rw [hstopped.cycle_eq] at hcycle
    cases hcycle
  · rw [hdirty]

theorem App.stale_window_requests_redraw_drawn :
    let o : Options := { rom := "zero", opsPerFrame := 1 }
    let rom : List UInt8 := [0xD0, 0x05]
    let machine := ((o.settings.foldl Machine.configure (.initial (.ofSeed 0))).load rom).machine
    let app := initial o.appSettings machine
    let occurrences : List Occurrence := [.delivery .resumed, .frame]
    let reached := app.undergoAll {} occurrences
    (∃ log, o.build (.ok rom) (.ofSeed 0) = (.ok machine, log)) ∧ ({} : Desktop).Works ∧
      app.FramesSucceed {} occurrences ∧
      ∃ w later, reached.app.window? = some w ∧
        w.pixels ≠ Frame.pixels w.machine.display.frame ∧
        reached.desktop.ShowsSince w.pixels later ∧ .requestRedraw ∈ later := by
  intro o rom machine app occurrences reached
  have hrom : rom.length ≤ 3584 := by decide
  obtain ⟨log, hbuild⟩ : ∃ log, o.build (.ok rom) (.ofSeed 0) = (.ok machine, log) :=
    o.exists_build_eq _ hrom
  have hworks : ({} : Desktop).Works := ⟨rfl, rfl⟩
  have hcoherent : machine.Coherent :=
    Machine.coherent_of_reachable (Options.reachable_of_build hbuild)
  have hcycled : machine.cycle.machine.Coherent := Machine.kept_coherent.perform hcoherent .cycle
  obtain ⟨hcycle, hpicture, hpalette, hcolours⟩ : machine.cycle.result = .ok () ∧
      machine.display.picture ≠ machine.cycle.machine.display.picture ∧
      machine.display.palette = machine.cycle.machine.display.palette ∧
      machine.display.palette.on ≠ machine.display.palette.off := by
    decide +kernel
  have hdrawn := App.stale_window_requests_redraw hbuild hworks occurrences
  -- With the program in sight, comparing the two sides would run it.
  clear_value machine
  let w : OpenWindow := { machine := machine, pixels := Frame.pixels machine.display.frame }
  have hopens : app.undergoAll {} [.delivery .resumed] = _ := undergo_resumed _ machine hworks
  have hframe := fun d => frame_opened_of_ok (w := w) o.appSettings d hcycle
  have hframes : app.FramesSucceed {} occurrences := by
    have hbefore := (framesSucceed_concat (o := .delivery .resumed)).mpr
      ⟨framesSucceed_nil app {}, by simp⟩
    refine framesSucceed_concat.mpr ⟨hbefore, fun _ => ?_⟩
    exact (congrArg (fun t : Turn Bool => (t.app.frame t.desktop).result) hopens).trans
      (congrArg Turn.result (hframe _))
  have hwindow : reached.app.window? = some { w with machine := _, beeping := _ } :=
    congrArg (fun t : Turn Bool => t.app.window?) (hframe _)
  have hstale : w.pixels ≠ Frame.pixels machine.cycle.machine.display.frame := by
    intro heq
    have hframes := Frame.pixels_injective heq
    rw [hcoherent.presented, hcycled.presented, ← hpalette] at hframes
    exact hpicture (Picture.eq_of_coloured_eq hcolours hframes)
  obtain ⟨later, hshows, hrequested⟩ := ((hdrawn.1 _ hwindow).1 hframes)
  exact ⟨⟨log, hbuild⟩, hworks, hframes, _, later, hwindow, hstale, hshows, hrequested hstale⟩

end ChipEight
