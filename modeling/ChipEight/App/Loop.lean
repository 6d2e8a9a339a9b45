import ChipEight.App.Basic
import ChipEight.Instruction.Listing
/-!
A run of the application, from its options to its exit status.

A script says what the desktop does each time that it is asked. The application alternates between
taking what is delivered and running its machine for a frame, until it is to exit or its machine
faults.
-/

namespace ChipEight

inductive Delivery
  | event (event : WindowEvent)
  /-- The window may be opened. -/
  | resumed
  /-- The application is to end with a status. -/
  | exitStatus (status : Int)
deriving DecidableEq, Repr

/-- What the desktop does when it is asked once: it delivers, and it may have the application exit. -/
structure Batch where
  deliveries : List Delivery
  exit? : Option Int := none
deriving DecidableEq, Repr

inductive RunError
  | build (reason : LoadError)
  /-- The program to be listed cannot be read. -/
  | listing (reason : ReadError)
  | eventLoop (reason : Service)
deriving DecidableEq, Repr

def LoadError.buildCauses (e : LoadError) : Causes :=
  "load rom from file" :: e.causes

def RunError.causes : RunError → Causes
  | build reason => reason.buildCauses
  | listing reason => ["read rom file", reason.message]
  | eventLoop reason => ["create event loop", reason.message]

def listing (contents : Contents) : Except ReadError (List String) :=
  contents.map fun rom => (disassemble rom romStart).map Listed.line

namespace Options

/-- The settings of the machine that options ask for, in order. -/
def settings (o : Options) : List Setting :=
  [.dialect o.dialect, .opsPerCycle o.opsPerFrame] ++ o.seed.toList.map .seed

/-- The machine that options ask for, with the program in `contents`, and what was reported on the
way. The random source `random` serves if there is no seed. -/
def build (o : Options) (contents : Contents) (random : RandomSource) :
    Except LoadError Machine × List Notice :=
  let outcome := (o.settings.foldl Machine.configure (.initial random)).loadFile o.rom contents
  let log := outcome.log.map Notice.machine
  match outcome.result with
  | .error e => (.error e, log)
  | .ok _ =>
    (.ok outcome.machine, log ++ [.programLoaded o.rom, .state .trace outcome.machine])

end Options

namespace App

/-- Takes deliveries one after the other. A window that cannot be opened ends this at once. -/
def take (app : App) (desktop : Desktop) : List Delivery → Turn (Except InitError Unit)
  | [] => { result := .ok (), app := app, desktop := desktop }
  | .event e :: rest =>
    let turn := app.handle desktop e
    let others := turn.app.take turn.desktop rest
    { others with log := turn.log ++ others.log }
  | .exitStatus status :: rest => app.take { desktop with exitStatus := some status } rest
  | .resumed :: rest =>
    let turn := app.resume desktop
    match turn.result with
    | .error _ => turn
    | .ok _ =>
      let others := turn.app.take turn.desktop rest
      { others with log := turn.log ++ others.log }

/-- Takes what the desktop delivers. The result is the status to exit with, if the application is to
exit. -/
def pump (app : App) (desktop : Desktop) (batch : Batch) : Turn (Option Int) :=
  let turn := app.take (desktop.record .pump) batch.deliveries
  match turn.result with
  | .error _ => { turn with result := some 1 }
  | .ok _ => { turn with result := batch.exit? }

/-- Alternates between what the desktop delivers and frames, until the application exits. There is no
status if it still goes on when the script has run out. -/
def loop (app : App) (desktop : Desktop) : List Batch → Turn (Option Int)
  | [] => { result := none, app := app, desktop := desktop }
  | batch :: rest =>
    let pumped := app.pump desktop batch
    match pumped.result with
    | some status => { pumped with result := some status }
    | none =>
      let frame := pumped.app.frame pumped.desktop
      if frame.result then
        let others := frame.app.loop frame.desktop rest
        { others with log := pumped.log ++ frame.log ++ others.log }
      else
        { frame with result := some 1, log := pumped.log ++ frame.log }

end App

/-- The lowest eight bits of a status. -/
def exitCode (status : Int) : Nat :=
  (status % 256).toNat

structure RunReport (α : Type) where
  result : Except RunError α
  printed : List String := []
  desktop : Desktop
  log : List Notice := []

namespace Options

/-- Runs the application that options ask for with the program in `contents`, on a desktop that
follows a script. There is no exit code if the application still goes on when the script has run
out. -/
def follow (o : Options) (contents : Contents) (random : RandomSource) (desktop : Desktop)
    (script : List Batch) : RunReport (Option Nat) :=
  if o.disassemble then
    match listing contents with
    | .error e => { result := .error (.listing e), desktop := desktop }
    | .ok lines => { result := .ok (some 0), printed := lines, desktop := desktop }
  else
    match o.build contents random with
    | (.error e, log) => { result := .error (.build e), desktop := desktop, log := log }
    | (.ok machine, log) =>
      match desktop.createEventLoop with
      | (desktop, .error e) => { result := .error (.eventLoop e), desktop := desktop, log := log }
      | (desktop, .ok _) =>
        let turn := (App.initial o.appSettings machine).loop desktop script
        { result := .ok (turn.result.map exitCode), desktop := turn.desktop, log := log ++ turn.log }

end Options

end ChipEight
