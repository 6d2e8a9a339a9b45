import ChipEight.App.Run
import ChipEight.Proofs.App.Loop

namespace ChipEight

section Run

variable {o : Options} {contents : Contents} {random : RandomSource} {machine : Machine}
  {log : List Notice} {desktop : Desktop}

theorem Options.follow_eq (hruns : o.disassemble = false)
    (hbuild : o.build contents random = (.ok machine, log)) (hworks : desktop.Works)
    (script : List Batch) :
    let turn := (App.initial o.appSettings machine).loop (desktop.record .createEventLoop) script
    o.follow contents random desktop script =
      { result := .ok (turn.result.map exitCode)
        desktop := turn.desktop
        log := log ++ turn.log } := by
  simp only [follow, hruns, hbuild, Desktop.createEventLoop, hworks.useService]
  rfl

namespace App

variable {d : Desktop}

theorem pending?_or_window? (hworks : d.Works) (settings : AppSettings) (m : Machine)
    (occurrences : List Occurrence) :
    let app := initial settings m
    let reached := app.undergoAll d occurrences
    let held := (m.performAll (app.operationsAll d occurrences)).machine
    (reached.app.pending? = some held ∧ reached.app.window? = none) ∨
      (reached.app.pending? = none ∧ ∃ w, reached.app.window? = some w ∧ w.machine = held) := by
  intro app reached held
  rcases undergoAll_initial settings m d occurrences with
    ⟨happ, hnone, -⟩ | ⟨w, happ, hmachine, -⟩ | ⟨-, hfails⟩
  · have hheld : held = m := by
      simp only [held, app, hnone]
      rfl
    rw [hheld]
    exact .inl ⟨congrArg pending? happ, congrArg window? happ⟩
  · exact .inr ⟨congrArg pending? happ, w, congrArg window? happ, hmachine⟩
  · exact absurd hworks hfails

theorem calls_resumed (hworks : d.Works) (settings : AppSettings) (m : Machine)
    (occurrences : List Occurrence) :
    let now := (initial settings m).undergoAll d occurrences
    now.app.calls now.desktop (.delivery .resumed) =
      if .delivery .resumed ∈ occurrences then []
      else openingCalls settings.window (d.innerSize settings.window) m := by
  intro now
  have hsize : now.desktop.innerSize settings.window = d.innerSize settings.window :=
    Desktop.innerSize_of_granted (granted_undergoAll hworks _ occurrences) _
  rcases undergoAll_initial settings m d occurrences with
    ⟨happ, -, hnever⟩ | ⟨w, happ, -, honce⟩ | ⟨-, hfails⟩
  · rw [if_neg hnever, ← hsize]
    simp only [now]
    rw [happ]
    rfl
  · rw [if_pos honce]
    simp only [now]
    rw [happ]
    rfl
  · exact absurd hworks hfails

theorem exists_fault_of_frame {app : App} {d : Desktop} (h : (app.frame d).result = false) :
    ∃ w fault, app.window? = some w ∧ w.machine.cycle.result = .error fault ∧
      (app.frame d).desktop = d := by
  rcases app with ⟨settings, stage⟩
  cases stage with
  | pending | lost => cases h
  | opened w =>
      cases hcycle : w.machine.cycle.result with
      | ok =>
          rw [frame_opened_of_ok settings d hcycle] at h
          cases h
      | error fault =>
          rw [frame_opened_of_error settings d hcycle]
          exact ⟨w, fault, rfl, hcycle, rfl⟩

/-- The loop goes on to the end of the script, or it ends with the status of its last round. -/
theorem loop_end (hworks : d.Works) (app : App) (script : List Batch) :
    let rounds := app.rounds d script
    (rounds.map Round.batch = script ∧ (∀ r ∈ rounds, r.status? = none) ∧
        (app.loop d script).result = none) ∨
      ∃ earlier last status, rounds = earlier ++ [last] ∧ (∀ r ∈ earlier, r.status? = none) ∧
        last.status? = some status ∧ (app.loop d script).result = some status := by
  intro rounds
  rw [loop_eq hworks]
  rcases app.rounds_end d script with
    ⟨hbatches, hnone⟩ | ⟨earlier, last, status, hrounds, hearlier, hlast⟩
  · refine .inl ⟨hbatches, hnone, ?_⟩
    cases hend : (app.rounds d script).getLast? with
    | none => rfl
    | some last => exact hnone last (List.mem_of_getLast? hend)
  · refine .inr ⟨earlier, last, status, hrounds, hearlier, hlast, ?_⟩
    simp only [hrounds, List.getLast?_append, List.getLast?_singleton, Option.some_or,
      Option.bind_some, hlast]

end App

theorem Options.follow_by_rounds (hruns : o.disassemble = false) (hscale : o.scale ≤ 67108863)
    (hbuild : o.build contents random = (.ok machine, log)) (hworks : desktop.Works)
    (script : List Batch) :
    let report := o.follow contents random desktop script
    let app := App.initial o.appSettings machine
    let d := desktop.record .createEventLoop
    let rounds := app.rounds d script
    let course := app.course d script
    let window : WindowSettings :=
      { title := plainTitle, width := 64 * o.scale, height := 32 * o.scale, resizable := false }
    let size := desktop.innerSize window
    (report.desktop = (app.undergoAll d course).desktop ∧
        report.log = log ++ (app.undergoAll d course).log) ∧
      (∀ before, before <+: course →
        let now := (app.undergoAll d before).app
        let held := (machine.performAll (app.operationsAll d before)).machine
        (now.pending? = some held ∧ now.window? = none) ∨
          (now.pending? = none ∧ ∃ w, now.window? = some w ∧ w.machine = held)) ∧
      (∀ earlier next later, course = earlier ++ next :: later →
        let now := app.undergoAll d earlier
        ∃ made, (now.app.undergo now.desktop next).desktop.calls.toList =
            now.desktop.calls.toList ++ made ∧
          (next = .delivery .resumed →
            made = if .delivery .resumed ∈ earlier then []
              else
                [.createWindow window, .createPixels 64 32 size.1 size.2,
                  .render (Frame.pixels machine.display.frame), .requestRedraw]) ∧
          (next ≠ .delivery .resumed → ∀ settings, .createWindow settings ∉ made)) ∧
      (∀ earlier r later, rounds = earlier ++ r :: later →
        let now := app.undergoAll d (earlier.flatMap Round.occurrences)
        r.app = now.app ∧ r.desktop = now.desktop ∧ r.pumped.result = r.batch.exit? ∧
          (r.app.operationsAll r.desktop r.occurrences).countP Operation.cycles =
            if r.batch.exit? = none ∧ r.pumped.app.window?.isSome then 1 else 0) ∧
      rounds.map Round.batch <+: script ∧
      ((rounds.map Round.batch = script ∧
          (∀ r ∈ rounds, r.batch.exit? = none ∧ r.framed.result = true) ∧
          report.result = .ok none) ∨
        ∃ earlier last, rounds = earlier ++ [last] ∧
          (∀ r ∈ earlier, r.batch.exit? = none ∧ r.framed.result = true) ∧
          ((∃ status, last.batch.exit? = some status ∧
              report.result = .ok (some (status % 256).toNat)) ∨
            ∃ w fault, last.batch.exit? = none ∧ last.pumped.app.window? = some w ∧
              w.machine.cycle.result = .error fault ∧
              last.framed.desktop = last.pumped.desktop ∧ report.result = .ok (some 1))) := by
  intro report app d rounds course window size
  have hd : d.Works := hworks.record _
  have hfollow := follow_eq hruns hbuild hworks script
  have hgoesOn : ∀ r ∈ rounds, r.status? = none → r.batch.exit? = none ∧ r.framed.result = true := by
    intro r hr hstatus
    rw [← App.pumped_of_mem_rounds hd hr]
    exact Round.status?_eq_none_iff.mp hstatus
  refine ⟨?_, ?_, ?_, ?_, App.batch_rounds app d script, ?_⟩
  · simp only [report, hfollow]
    rw [App.loop_eq hd]
    exact ⟨rfl, rfl⟩
  · intro before _
    exact App.pending?_or_window? hd o.appSettings machine before
  · intro earlier next later _ now
    refine ⟨_, (now.app.asked_undergo (hd.undergoAll app earlier) next).calls, ?_, ?_⟩
    · rintro rfl
      have hcalls := App.calls_resumed hd o.appSettings machine earlier
      rw [window_appSettings hscale] at hcalls
      exact hcalls
    · intro hnext settings
      exact App.createWindow_not_mem_calls hnext now.app now.desktop settings
  · intro earlier r later hrounds now
    obtain ⟨happ, hdesktop⟩ := App.start_of_rounds hd hrounds
    have hr : r ∈ rounds := by simp [hrounds]
    have hexit := App.pumped_of_mem_rounds hd hr
    refine ⟨happ, hdesktop, hexit, ?_⟩
    rw [← hexit]
    exact Round.countP_cycles (App.works_of_mem_rounds hd hr)
  -- The script runs out, or a last round ends the loop: it is told to exit, or its frame faults.
  · rcases App.loop_end hd app script with
      ⟨hbatches, hnone, hresult⟩ | ⟨earlier, last, status, hrounds, hearlier, hstatus, hresult⟩
    · refine .inl ⟨hbatches, fun r hr => hgoesOn r hr (hnone r hr), ?_⟩
      simp only [report, hfollow]
      rw [hresult]
      rfl
    · refine .inr ⟨earlier, last, hrounds, fun r hr => ?_, ?_⟩
      · exact hgoesOn r (by simp [rounds, hrounds, hr]) (hearlier r hr)
      · have hmem : last ∈ rounds := by simp [rounds, hrounds]
        have hlast := App.pumped_of_mem_rounds hd hmem
        have hcode : report.result = .ok (some (exitCode status)) := by
          simp only [report, hfollow]
          rw [hresult]
          rfl
        rw [← hlast]
        rcases Round.status?_eq_some_iff.mp hstatus with hexits | ⟨hcontinues, hfails, rfl⟩
        · exact .inl ⟨status, hexits, hcode⟩
        · obtain ⟨w, fault, hwindow, hcycle, hdesktop⟩ := App.exists_fault_of_frame hfails
          exact .inr ⟨w, fault, hcontinues, hwindow, hcycle, hdesktop, hcode⟩

/-- The program waits for a key, which does not come in three frames, the first of them without a
window. -/
theorem Options.follow_by_rounds_to_exit :
    let o : Options := { rom := "wait", opsPerFrame := 1 }
    let rom : List UInt8 := [0xF1, 0x0A]
    let machine := ((o.settings.foldl Machine.configure (.initial (.ofSeed 0))).load rom).machine
    let script : List Batch :=
      [{ deliveries := [] }, { deliveries := [.resumed, .resumed] },
        { deliveries := [.event .redraw] }, { deliveries := [.event .close], exit? := some (-2) },
        { deliveries := [.event .redraw] }]
    let desktop : Desktop := { granted := some (1280, 640) }
    let app := App.initial o.appSettings machine
    let d := desktop.record .createEventLoop
    let course := app.course d script
    o.disassemble = false ∧ o.scale ≤ 67108863 ∧
      (∃ log, o.build (.ok rom) (.ofSeed 0) = (.ok machine, log)) ∧ desktop.Works ∧
      (o.follow (.ok rom) (.ofSeed 0) desktop script).result = .ok (some 254) ∧
      (app.rounds d script).length = 4 ∧
      (app.operationsAll d course).countP Operation.cycles = 2 ∧
      .createPixels 64 32 1280 640 ∈ (app.undergoAll d course).desktop.calls ∧
      ∃ w, (app.undergoAll d course).app.window? = some w ∧
        w.machine = (machine.performAll (app.operationsAll d course)).machine := by
  intro o rom machine script desktop app d course
  have hruns : o.disassemble = false := rfl
  have hscale : o.scale ≤ 67108863 := by decide
  have hrom : rom.length ≤ 3584 := by decide
  obtain ⟨log, hbuild⟩ : ∃ log, o.build (.ok rom) (.ofSeed 0) = (.ok machine, log) :=
    o.exists_build_eq _ hrom
  have hworks : desktop.Works := ⟨rfl, rfl⟩
  obtain ⟨hresult, hlength, hcycles, hpixels, hwindow⟩ :
      (o.follow (.ok rom) (.ofSeed 0) desktop script).result = .ok (some 254) ∧
        (app.rounds d script).length = 4 ∧
        (app.operationsAll d course).countP Operation.cycles = 2 ∧
        (app.undergoAll d course).desktop.calls[4]? = some (.createPixels 64 32 1280 640) ∧
        (app.undergoAll d course).app.window?.isSome := by
    decide +kernel
  obtain ⟨-, hheld, -⟩ := follow_by_rounds hruns hscale hbuild hworks script
  refine ⟨hruns, hscale, ⟨log, hbuild⟩, hworks, hresult, hlength, hcycles, ?_, ?_⟩
  · exact Array.mem_of_getElem? hpixels
  · rcases hheld course (List.prefix_refl course) with ⟨-, hnone⟩ | ⟨-, hopened⟩
    · rw [hnone] at hwindow
      cases hwindow
    · exact hopened

theorem exists_enclosed_eq (script : List (List Delivery)) :
    ∃ begun closing, enclosed script = begun ++ [closing] ∧ .event .close ∈ closing := by
  cases script with
  | nil => exact ⟨[], _, rfl, by simp⟩
  | cons deliveries rest => exact ⟨(.resumed :: deliveries) :: rest, _, rfl, by simp⟩

namespace App

theorem mem_due (app : App) (d : Desktop) (seen : Nat) {deliveries : List Delivery}
    {delivery : Delivery} (h : delivery ∈ deliveries) : delivery ∈ app.due d seen deliveries :=
  List.mem_append_left _ h

theorem exists_exit_of_served {d : Desktop} (hworks : d.Works) (app : App) (seen : Nat)
    (script : List (List Delivery)) {closing : List Delivery} (hclose : .event .close ∈ closing) :
    ∃ batch ∈ app.served d seen (script ++ [closing]), batch.exit?.isSome := by
  have hpump : (d.record .pump).Works := hworks.record .pump
  induction script generalizing app d seen with
  | nil =>
      refine ⟨_, List.mem_cons_self, ?_⟩
      rw [take_eq hpump]
      apply isSome_exitStatus_of_close hpump
      exact .inr (List.mem_map_of_mem (app.mem_due d seen hclose))
  | cons deliveries rest ih =>
      let given := app.due d seen deliveries
      let reached := app.undergoAll (d.record .pump) (given.map .delivery)
      have hreached : reached.desktop.Works := hpump.undergoAll app _
      have hframe := hreached.undergo reached.app .frame
      rw [List.cons_append, served, take_eq hpump]
      simp only
      -- Where the application is told to exit already, the rest of the script is not served.
      cases reached.desktop.exitStatus with
      | some status => exact ⟨_, List.mem_cons_self, rfl⟩
      | none =>
          obtain ⟨batch, hmem, hexit⟩ := ih hframe _ _ (hframe.record .pump)
          exact ⟨batch, List.mem_cons_of_mem _ hmem, hexit⟩

theorem exists_status_of_exit {d : Desktop} (hworks : d.Works) (app : App) {script : List Batch}
    (h : ∃ batch ∈ script, batch.exit?.isSome) :
    ∃ status, (app.loop d script).result = some status := by
  rcases app.loop_end hworks script with
    ⟨hbatches, hnone, -⟩ | ⟨earlier, last, status, -, -, -, hresult⟩
  · obtain ⟨batch, hmem, hexit⟩ := h
    rw [← hbatches] at hmem
    obtain ⟨r, hr, rfl⟩ := List.mem_map.mp hmem
    rw [← pumped_of_mem_rounds hworks hr, (Round.status?_eq_none_iff.mp (hnone r hr)).1] at hexit
    cases hexit
  · exact ⟨status, hresult⟩

end App

/-- On a desktop without a screen a run always exits. -/
theorem Options.run_exits (hruns : o.disassemble = false)
    (hbuild : o.build contents random = (.ok machine, log)) (hworks : desktop.Works)
    (script : List (List Delivery)) :
    ∃ batches code,
      let report := o.follow contents random desktop batches
      report.result = .ok (some code) ∧
        o.run contents random desktop script = { report with result := .ok code } := by
  let app := App.initial o.appSettings machine
  let d := desktop.record .createEventLoop
  have hd : d.Works := hworks.record _
  obtain ⟨begun, closing, hscript, hclose⟩ := exists_enclosed_eq script
  have hexit := app.exists_exit_of_served hd 0 begun hclose
  rw [← hscript] at hexit
  obtain ⟨status, hstatus⟩ := App.exists_status_of_exit hd app hexit
  have hfollow := follow_eq hruns hbuild hworks (app.served d 0 (enclosed script))
  simp only [app, d] at hstatus hfollow
  rw [hstatus] at hfollow
  refine ⟨app.served d 0 (enclosed script), exitCode status, ?_, ?_⟩
  · simp only [app, d, hfollow]
    rfl
  · simp only [app, d, run, hbuild, hfollow]
    rfl

end Run

end ChipEight
