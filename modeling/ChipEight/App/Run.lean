import ChipEight.App.Loop

namespace ChipEight

/-- What a desktop without a screen delivers: first what it is to deliver, and then the redraw that was
asked for since the first `seen` calls. -/
def App.due (app : App) (desktop : Desktop) (seen : Nat) (deliveries : List Delivery) :
    List Delivery :=
  let asked := (app.take (desktop.record .pump) deliveries).desktop.calls
  deliveries ++ if asked.any (· = .requestRedraw) seen asked.size then [.event .redraw] else []

/-- What a desktop without a screen does when it is asked again and again: it delivers what is due, and
it has the application exit if it was told to. -/
def App.served (app : App) (desktop : Desktop) (seen : Nat) : List (List Delivery) → List Batch
  | [] => []
  | deliveries :: rest =>
    let given := app.due desktop seen deliveries
    let turn := app.take (desktop.record .pump) given
    let frame := turn.app.frame turn.desktop
    { deliveries := given, exit? := turn.desktop.exitStatus } ::
      match turn.desktop.exitStatus with
      | some _ => []
      | none => frame.app.served frame.desktop turn.desktop.calls.size rest

/-- A script with the permission to open the window in front, and the closing of the window at the
end. -/
def enclosed : List (List Delivery) → List (List Delivery)
  | [] => [[.resumed, .event .close]]
  | deliveries :: rest => (.resumed :: deliveries) :: rest ++ [[.event .close]]

/-- Runs the application on a desktop without a screen. -/
def Options.run (o : Options) (contents : Contents) (random : RandomSource) (desktop : Desktop)
    (script : List (List Delivery)) : RunReport Nat :=
  let batches :=
    match o.build contents random with
    | (.ok machine, _) =>
      (App.initial o.appSettings machine).served (desktop.record .createEventLoop) 0 (enclosed script)
    | (.error _, _) => []
  let report := o.follow contents random desktop batches
  { result := report.result.map (·.getD 0)
    printed := report.printed
    desktop := report.desktop
    log := report.log }

end ChipEight
