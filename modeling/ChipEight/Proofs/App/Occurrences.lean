import ChipEight.Proofs.App.Turns
import Mathlib.Data.List.Induction

namespace ChipEight

theorem concat_eq_append_cons_iff {α : Type} {l before after : List α} {a b : α} :
    l ++ [a] = before ++ b :: after ↔
      (before = l ∧ b = a ∧ after = []) ∨ ∃ rest, after = rest ++ [a] ∧ l = before ++ b :: rest := by
  constructor
  · intro h
    rcases List.eq_nil_or_concat after with rfl | ⟨rest, last, rfl⟩
    · obtain ⟨rfl, hlast⟩ := List.append_inj' h rfl
      exact .inl ⟨rfl, (List.head_eq_of_cons_eq hlast).symm, rfl⟩
    · rw [List.concat_eq_append, ← List.cons_append, ← List.append_assoc] at h
      obtain ⟨rfl, hlast⟩ := List.append_inj' h rfl
      cases hlast
      exact .inr ⟨rest, List.concat_eq_append, rfl⟩
  · rintro (⟨rfl, rfl, rfl⟩ | ⟨rest, rfl, rfl⟩)
    · rfl
    · simp

/-- What happens to an application. -/
inductive Occurrence
  /-- The desktop is asked for what it delivers. -/
  | pump
  | delivery (delivery : Delivery)
  | frame
deriving DecidableEq, Repr

namespace Occurrence

/-- The keypad key that goes down. -/
def press? (layout : Layout) : Occurrence → Option Key
  | delivery (.event (.key e)) => e.press? layout
  | _ => none

/-- The keypad key that goes up. -/
def release? (layout : Layout) : Occurrence → Option Key
  | delivery (.event (.key e)) => e.release? layout
  | _ => none

/-- The status that the application is told to exit with. -/
def exit? : Occurrence → Option Int
  | delivery (.event .close) => some 0
  | delivery (.event (.key e)) => if e.code = some .escape then some 0 else none
  | delivery (.exitStatus status) => some status
  | _ => none

end Occurrence

namespace App

/-- The machine that waits for the window to open. -/
def pending? (app : App) : Option Machine :=
  match app.stage with
  | .pending machine => some machine
  | _ => none

def window? (app : App) : Option OpenWindow :=
  match app.stage with
  | .opened window => some window
  | _ => none

/-- What an application does at an occurrence, and whether it can go on. -/
def undergo (app : App) (desktop : Desktop) : Occurrence → Turn Bool
  | .pump => { result := true, app := app, desktop := desktop.record .pump }
  | .delivery .resumed => { app.resume desktop with result := (app.resume desktop).result.isOk }
  | .delivery (.event e) => { app.handle desktop e with result := true }
  | .delivery (.exitStatus status) =>
    { result := true, app := app, desktop := { desktop with exitStatus := some status } }
  | .frame => app.frame desktop

/-- The occurrences one after the other; the result says whether it could go on after each of them. -/
def undergoAll (app : App) (desktop : Desktop) : List Occurrence → Turn Bool
  | [] => { result := true, app := app, desktop := desktop }
  | occurrence :: rest =>
    let first := app.undergo desktop occurrence
    let others := first.app.undergoAll first.desktop rest
    { result := first.result && others.result
      app := others.app
      desktop := others.desktop
      log := first.log ++ others.log }

theorem undergoAll_append (app : App) (desktop : Desktop) (before after : List Occurrence) :
    app.undergoAll desktop (before ++ after) =
      let first := app.undergoAll desktop before
      let others := first.app.undergoAll first.desktop after
      { result := first.result && others.result
        app := others.app
        desktop := others.desktop
        log := first.log ++ others.log } := by
  induction before generalizing app desktop with
  | nil => rfl
  | cons occurrence before ih =>
      simp only [List.cons_append, undergoAll, ih, Bool.and_assoc, List.append_assoc]

theorem undergoAll_concat (app : App) (desktop : Desktop) (occurrences : List Occurrence)
    (o : Occurrence) :
    app.undergoAll desktop (occurrences ++ [o]) =
      let first := app.undergoAll desktop occurrences
      let last := first.app.undergo first.desktop o
      { result := first.result && last.result
        app := last.app
        desktop := last.desktop
        log := first.log ++ last.log } := by
  simp only [undergoAll_append, undergoAll, Bool.and_true, List.append_nil]

theorem undergo_resumed (settings : AppSettings) (m : Machine) {d : Desktop} (hworks : d.Works) :
    (initial settings m).undergo d (.delivery .resumed) =
      { result := true
        app := ⟨settings, .opened { machine := m, pixels := Frame.pixels m.display.frame }⟩
        desktop := opening settings m d } := by
  simp only [initial, undergo, resume, init_pending settings m hworks, Except.isOk, Except.toBool]

/-- The calls that open a window of some size and show a first picture. -/
def openingCalls (window : WindowSettings) (size : Nat × Nat) (m : Machine) : List Call :=
  [.createWindow window, .createPixels 64 32 size.1 size.2, .render (Frame.pixels m.display.frame),
    .requestRedraw]

/-- The calls at an occurrence, if they succeed. -/
def calls (app : App) (d : Desktop) : Occurrence → List Call
  | .pump => [.pump]
  | .delivery .resumed =>
    match app.stage with
    | .pending m => openingCalls app.settings.window (d.innerSize app.settings.window) m
    | _ => []
  | .delivery (.event .close) => [.exit]
  | .delivery (.event (.key e)) => if e.code = some .escape then [.exit] else []
  | .delivery (.event .redraw) =>
    match app.stage with
    | .opened w => [.announcePresent, .render (Frame.pixels w.machine.display.frame)]
    | _ => []
  | .frame =>
    match app.stage with
    | .opened w => if w.machine.cycle.result.isOk then w.frameCalls else []
    | _ => []
  | _ => []

theorem asked_opening (settings : AppSettings) (m : Machine) (d : Desktop) :
    d.Asked (openingCalls settings.window (d.innerSize settings.window) m) none
      (opening settings m d) := by
  let size := d.innerSize settings.window
  have hwindow := d.asked_record (.createWindow settings.window)
  have hpixels := hwindow.trans (Desktop.asked_record _ (.createPixels 64 32 size.1 size.2))
  have hshown := hpixels.trans (Desktop.asked_record _ (.render (Frame.pixels m.display.frame)))
  exact hshown.trans (Desktop.asked_requestRedraw _)

theorem asked_redraw {d : Desktop} (hworks : d.Works) (app : App) :
    d.Asked (app.calls d (.delivery (.event .redraw))) none (app.redraw d).desktop := by
  rcases app with ⟨settings, stage⟩
  cases stage with
  | pending | lost => exact d.asked_nothing
  | opened w =>
      rw [redraw_opened settings w hworks]
      exact (d.asked_record .announcePresent).trans (Desktop.asked_record _ _)

theorem asked_frame (d : Desktop) (app : App) :
    d.Asked (app.calls d .frame) none (app.frame d).desktop := by
  rcases app with ⟨settings, stage⟩
  cases stage with
  | pending | lost => exact d.asked_nothing
  | opened w =>
      cases hcycle : w.machine.cycle.result with
      | error fault =>
          rw [frame_opened_of_error settings d hcycle]
          simp only [calls, hcycle]
          exact d.asked_nothing
      | ok =>
          simp only [calls, hcycle]
          exact asked_frame_opened settings d hcycle

theorem asked_undergo {d : Desktop} (hworks : d.Works) (app : App) (o : Occurrence) :
    d.Asked (app.calls d o) o.exit? (app.undergo d o).desktop := by
  cases o with
  | pump => exact d.asked_record .pump
  | frame => exact asked_frame d app
  | delivery delivery =>
      cases delivery with
      | exitStatus status => exact { d.asked_nothing with exitStatus := rfl }
      | resumed =>
          rcases app with ⟨settings, stage⟩
          cases stage with
          | opened | lost => exact d.asked_nothing
          | pending m =>
              have hopens := undergo_resumed settings m hworks
              rw [initial] at hopens
              rw [hopens]
              exact asked_opening settings m d
      | event e =>
          cases e with
          | close => exact d.asked_exit
          | other => exact d.asked_nothing
          | redraw => exact asked_redraw hworks app
          | key e =>
              show d.Asked (if _ then _ else _) (if _ then _ else _) (app.hear d e).desktop
              rw [desktop_hear]
              split
              · exact d.asked_exit
              · exact d.asked_nothing

theorem createWindow_not_mem_calls {o : Occurrence} (ho : o ≠ .delivery .resumed) (app : App)
    (d : Desktop) (window : WindowSettings) : .createWindow window ∉ app.calls d o := by
  cases o with
  | pump => simp [calls]
  | frame =>
      simp only [calls, OpenWindow.frameCalls]
      split
      · split
        · rw [List.mem_append, not_or]
          refine ⟨?_, ?_⟩ <;> split <;> simp
        · simp
      · simp
  | delivery delivery =>
      cases delivery with
      | resumed => exact absurd rfl ho
      | exitStatus => simp [calls]
      | event e =>
          cases e with
          | close | other => simp [calls]
          | redraw =>
              simp only [calls]
              split <;> simp
          | key e =>
              simp only [calls]
              split <;> simp

end App

namespace Desktop.Works

variable {d : Desktop}

theorem undergo (h : d.Works) (app : App) (o : Occurrence) : (app.undergo d o).desktop.Works :=
  h.of_asked (app.asked_undergo h o)

theorem undergoAll (h : d.Works) (app : App) (occurrences : List Occurrence) :
    (app.undergoAll d occurrences).desktop.Works := by
  induction occurrences generalizing app d with
  | nil => exact h
  | cons o rest ih => exact ih (h.undergo app o) _

end Desktop.Works

namespace App

theorem granted_undergoAll {d : Desktop} (hworks : d.Works) (app : App)
    (occurrences : List Occurrence) :
    (app.undergoAll d occurrences).desktop.granted = d.granted := by
  induction occurrences generalizing app d with
  | nil => rfl
  | cons o rest ih =>
      exact (ih (hworks.undergo app o) _).trans (app.asked_undergo hworks o).granted

theorem isSome_exitStatus_of_close {d : Desktop} (hworks : d.Works) (app : App)
    {occurrences : List Occurrence}
    (h : d.exitStatus.isSome ∨ .delivery (.event .close) ∈ occurrences) :
    (app.undergoAll d occurrences).desktop.exitStatus.isSome := by
  induction occurrences generalizing app d with
  | nil => simpa [undergoAll] using h
  | cons o rest ih =>
      refine ih (hworks.undergo app o) _ ?_
      rcases h with h | h
      · left
        rw [(app.asked_undergo hworks o).exitStatus]
        cases o.exit? with
        | none => exact h
        | some status => rfl
      · rcases List.mem_cons.mp h with rfl | h
        · exact .inl rfl
        · exact .inr h

end App

end ChipEight
