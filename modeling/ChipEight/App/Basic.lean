import ChipEight.CommandLine.Options
import ChipEight.Machine.Dump
import ChipEight.Machine.Load
import ChipEight.Machine.Step
import ChipEight.Window.Desktop
import ChipEight.Window.Event

namespace ChipEight

inductive InitError
  | window (reason : Service)
  | pixels (reason : Service)
  | firstPicture (reason : Service)
deriving DecidableEq, Repr

def renderCauses (reason : Service) : Causes :=
  ["render pixels", reason.message]

/-- The causes of a failure to open the window. -/
def InitError.causes : InitError → Causes
  | window reason => ["create window", reason.message]
  | pixels reason => ["create pixels instance", reason.message]
  | firstPicture reason => "render first frame" :: renderCauses reason

/-- What an application reports while it works. -/
inductive Notice
  | machine (event : Event)
  | programLoaded (path : String)
  /-- The state of its machine, as text. -/
  | state (level : Level) (machine : Machine)
  | emulationStopped (fault : Fault)
  | exiting
  | renderFailed (reason : Service)
  | initFailed (error : InitError)
  | keyDropped (error : AccessError)

namespace Notice

def level : Notice → Level
  | machine event => event.level
  | programLoaded _ | exiting => .info
  | state limit _ => limit
  | emulationStopped _ | renderFailed _ | initFailed _ => .error
  | keyDropped _ => .warn

def text : Notice → String
  | machine event => event.text
  | programLoaded path => "loaded " ++ path
  | state _ m => m.dump
  | emulationStopped fault => "emulation stopped: " ++ fault.message
  | exiting => "Exiting..."
  | renderFailed reason => "render failed: " ++ Causes.report (renderCauses reason)
  | initFailed error => "init failed: " ++ error.causes.report
  | keyDropped error => "key event dropped: " ++ error.message

end Notice

/-- What an application is set up with. -/
structure AppSettings where
  window : WindowSettings
  layout : Layout
deriving DecidableEq, Repr

def plainTitle : String := "CHIP-8"

/-- The title of the window while a tone sounds. -/
def beepTitle : String := "CHIP-8 (beep)"

/-- The settings that options ask for: a window that shows each cell as a square. Its size is computed
in 32 bits. -/
def Options.appSettings (o : Options) : AppSettings :=
  let scale := UInt32.ofNat o.scale
  { window :=
      { title := plainTitle
        width := (64 * scale).toNat
        height := (32 * scale).toNat
        resizable := false }
    layout := o.layout }

/-- A machine in an open window. -/
structure OpenWindow where
  machine : Machine
  pixels : Pixels := .replicate 8192 0
  /-- The title says that a tone sounds. -/
  beeping : Bool := false

/-- Where the machine of an application is. -/
inductive Stage
  /-- It waits for the window to open. -/
  | pending (machine : Machine)
  /-- It runs in the window. -/
  | opened (window : OpenWindow)
  /-- It is gone, because the window could not be opened. -/
  | lost

structure App where
  settings : AppSettings
  stage : Stage

/-- The outcome of a turn of an application: its result, the application and the desktop after it,
and what was reported, in order. -/
structure Turn (α : Type) where
  result : α
  app : App
  desktop : Desktop
  log : List Notice := []

namespace OpenWindow

def render (w : OpenWindow) (desktop : Desktop) : OpenWindow × Desktop × Except Service Unit :=
  let pixels := Frame.pixels w.machine.display.frame
  let (desktop, result) := desktop.render pixels
  ({ w with pixels := pixels }, desktop, result)

/-- Sets the title if a tone began or ended. -/
def updateTitle (w : OpenWindow) (desktop : Desktop) : OpenWindow × Desktop :=
  let sounding := w.machine.timers.sounding
  if sounding = w.beeping then (w, desktop)
  else
    ({ w with beeping := sounding }, desktop.setTitle (if sounding then beepTitle else plainTitle))

/-- The keypad key that a keyboard key stands for. -/
def keypadKey? (layout : Layout) (code : KeyCode) : Option Key :=
  code.label?.bind layout.key?

/-- Hands a keyboard event on to the keypad; a key that is held down is pressed only once. -/
def hearKey (w : OpenWindow) (layout : Layout) (e : KeyEvent) (code : KeyCode) :
    OpenWindow × List Notice :=
  match keypadKey? layout code with
  | none => (w, [])
  | some key =>
    if e.pressed && e.repeated then (w, [])
    else
      let number := UInt8.ofNat key.val
      let outcome := if e.pressed then w.machine.pressKey number else w.machine.releaseKey number
      let dropped :=
        match outcome.result with
        | .ok _ => []
        | .error e => [.keyDropped e]
      ({ w with machine := outcome.machine }, outcome.log.map Notice.machine ++ dropped)

end OpenWindow

namespace App

def initial (settings : AppSettings) (machine : Machine) : App :=
  { settings := settings, stage := .pending machine }

/-- Opens the window and shows the first picture, if the machine still waits for that. -/
def init (app : App) (desktop : Desktop) : Turn (Except InitError Unit) :=
  match app.stage with
  | .pending machine =>
    let lose (desktop : Desktop) (e : InitError) : Turn (Except InitError Unit) :=
      { result := .error e, app := { app with stage := .lost }, desktop := desktop }
    match desktop.createWindow app.settings.window with
    | (desktop, .error e) => lose desktop (.window e)
    | (desktop, .ok _) =>
      match desktop.createPixels (desktop.innerSize app.settings.window) with
      | (desktop, .error e) => lose desktop (.pixels e)
      | (desktop, .ok _) =>
        match ({ machine := machine } : OpenWindow).render desktop with
        | (_, desktop, .error e) => lose desktop (.firstPicture e)
        | (window, desktop, .ok _) =>
          { result := .ok ()
            app := { app with stage := .opened window }
            desktop := desktop.requestRedraw }
  | _ => { result := .ok (), app := app, desktop := desktop }

/-- Runs the machine for one frame, and says whether it can go on. A redraw is asked for if the
picture was drawn on, and the title follows the tone. -/
def frame (app : App) (desktop : Desktop) : Turn Bool :=
  match app.stage with
  | .opened window =>
    let cycle := window.machine.cycle
    let log := cycle.log.map Notice.machine
    match cycle.result with
    | .error fault =>
      { result := false
        app := { app with stage := .opened { window with machine := cycle.machine } }
        desktop := desktop
        log := log ++ [.emulationStopped fault, .state .debug cycle.machine] }
    | .ok _ =>
      let taken := cycle.machine.takeDirty
      let desktop := if taken.result then desktop.requestRedraw else desktop
      let (window, desktop) := { window with machine := taken.machine }.updateTitle desktop
      { result := true
        app := { app with stage := .opened window }
        desktop := desktop
        log := log }
  | _ => { result := true, app := app, desktop := desktop }

/-- Shows the picture anew, if there is a window, and ends the application if that fails. -/
def redraw (app : App) (desktop : Desktop) : Turn Unit :=
  match app.stage with
  | .opened window =>
    let (window, desktop, result) := window.render desktop.announcePresent
    let app := { app with stage := .opened window }
    match result with
    | .ok _ => { result := (), app := app, desktop := desktop }
    | .error reason =>
      { result := (), app := app, desktop := desktop.exit, log := [.renderFailed reason] }
  | _ => { result := (), app := app, desktop := desktop }

/-- Hears a key of the keyboard. Escape ends the application, window or not. -/
def hear (app : App) (desktop : Desktop) (e : KeyEvent) : Turn Unit :=
  match e.code, app.stage with
  | none, _ => { result := (), app := app, desktop := desktop }
  | some .escape, _ => { result := (), app := app, desktop := desktop.exit }
  | some code, .opened window =>
    let (window, log) := window.hearKey app.settings.layout e code
    { result := (), app := { app with stage := .opened window }, desktop := desktop, log := log }
  | some _, _ => { result := (), app := app, desktop := desktop }

def handle (app : App) (desktop : Desktop) : WindowEvent → Turn Unit
  | .close => { result := (), app := app, desktop := desktop.exit, log := [.exiting] }
  | .redraw => app.redraw desktop
  | .key e => app.hear desktop e
  | .other => { result := (), app := app, desktop := desktop }

/-- Handles the permission to open the window; a failure is reported. -/
def resume (app : App) (desktop : Desktop) : Turn (Except InitError Unit) :=
  let turn := app.init desktop
  match turn.result with
  | .ok _ => turn
  | .error e => { turn with log := turn.log ++ [.initFailed e] }

end App

end ChipEight
