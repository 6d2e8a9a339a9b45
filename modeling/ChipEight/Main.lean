import ChipEight.App.Loop
import ChipEight.CommandLine.Parser

namespace ChipEight.Terminal

def usage : String :=
  "Usage: chip8 [OPTIONS] <ROM>\n\n"
    ++ "  --legacy-shift         Copy VY into VX before 8XY6/8XYE shifts\n"
    ++ "  --jump-add-offset      Make BNNN add VX instead of V0\n"
    ++ "  --memory-increment-i   Make FX55/FX65 advance I\n"
    ++ "  --legacy-wrap          Wrap sprites horizontally at 63 columns\n"
    ++ "  --ops-per-frame <N>    Instructions executed per 60 Hz frame [default: 11]\n"
    ++ "  --seed <SEED>          Seed the random number generator\n"
    ++ "  --scale <N>            Window pixels per CHIP-8 pixel [default: 10]\n"
    ++ "  --layout <LAYOUT>      Keyboard to keypad mapping: cosmac, sequential\n"
    ++ "  --disassemble          Print the program's disassembly and exit\n"
    ++ "  -h, --help             Print help\n"
    ++ "  -V, --version          Print version"

def readError : IO.Error → ReadError
  | .noFileOrDirectory .. => .notFound
  | .inappropriateType _ 20 _ => .notADirectory
  | .inappropriateType .. => .isADirectory
  | e => .other e.toString

def contentsOf (path : String) : IO Contents := do
  try
    return .ok (← IO.FS.readBinFile path).toList
  catch e =>
    return .error (readError e)

/-- A random source with a key that nobody chose. -/
def entropy : IO RandomSource := do
  let bytes ← IO.getRandomBytes 8
  return .ofSeed (bytes.foldl (fun n b => n <<< 8 ||| b.toUInt64) 0)

/-- Prints the reports of an application that are errors. -/
def report (log : List Notice) : IO Unit := do
  for notice in log do
    if Level.admits .error notice.level then
      IO.eprintln (notice.level.name ++ " " ++ notice.text)

/-- The rows of a picture, two characters for each cell. -/
def screen (pixels : Pixels) : String :=
  String.join ((List.range 32).map fun y =>
    String.join ((List.finRange 2048).filterMap fun n =>
      if n.val / 64 = y then some (if 127 < (pixels.colour n).red then "██" else "  ") else none)
    ++ "\r\n")

/-- Carries out the calls of an application that the terminal can show. -/
def carryOut (desktop : Desktop) : IO Desktop := do
  for call in desktop.calls do
    match call with
    | .render pixels => IO.print ("\x1b[H" ++ screen pixels)
    | .setTitle title => IO.print ("\x1b]0;" ++ title ++ "\x07")
    | .createWindow settings => IO.print ("\x1b[2J\x1b]0;" ++ settings.title ++ "\x07")
    | _ => pure ()
  (← IO.getStdout).flush
  return { desktop with calls := #[] }

def keyOf? (label : Char) : Option KeyCode :=
  [.digit1, .digit2, .digit3, .digit4, .keyQ, .keyW, .keyE, .keyR, .keyA, .keyS, .keyD, .keyF,
    .keyZ, .keyX, .keyC, .keyV].find? fun code => code.label? = some label

def keyEvents (pressed : Bool) (keys : List KeyCode) : List Delivery :=
  keys.map fun code => .event (.key { code := some code, pressed := pressed })

/-- Reads lines in the background. -/
def nextLine : IO (Task (Except IO.Error String)) := do
  let input ← IO.getStdin
  IO.asTask input.getLine

/-- Alternates between the keyboard and frames of the machine until the application exits. A redraw
that was asked for is delivered with the next keys. -/
partial def play (app : App) (desktop : Desktop) (due : List Delivery)
    (line : Task (Except IO.Error String)) (held : List KeyCode) : IO UInt32 := do
  let typed := if ← IO.hasFinished line then some (line.get.toOption.getD "") else none
  let (deliveries, held, line) ← match typed with
    | none => pure ([], held, line)
    | some "" => pure ([.event .close], held, line)
    | some text =>
      let keys := text.toList.filterMap keyOf?
      pure (keyEvents false held ++ keyEvents true keys, keys, ← nextLine)
  let pumped := app.pump desktop { deliveries := due ++ deliveries }
  report pumped.log
  match pumped.result.or pumped.desktop.exitStatus with
  | some status =>
    let _ ← carryOut pumped.desktop
    return UInt32.ofNat (exitCode status)
  | none =>
    let frame := pumped.app.frame pumped.desktop
    report frame.log
    let wanted := frame.desktop.calls.contains .requestRedraw
    let desktop ← carryOut frame.desktop
    if frame.result then
      IO.sleep 16
      play frame.app desktop (if wanted then [.event .redraw] else []) line held
    else
      return 1

def perform (o : Options) : IO UInt32 := do
  let contents ← contentsOf o.rom
  if o.disassemble then
    match listing contents with
    | .ok lines =>
      for line in lines do
        IO.println line
      return 0
    | .error e =>
      IO.eprintln ("ERROR " ++ (RunError.listing e).causes.report)
      return 1
  else
    let (machine, log) := o.build contents (← entropy)
    report log
    match machine with
    | .error e =>
      IO.eprintln ("ERROR " ++ e.buildCauses.report)
      return 1
    | .ok machine => play (App.initial o.appSettings machine) {} [.resumed] (← nextLine) []

end ChipEight.Terminal

/-- Reads the command line and does what it asks for. -/
def main (arguments : List String) : IO UInt32 := do
  match ChipEight.Options.parse arguments with
  | .ok options => ChipEight.Terminal.perform options
  | .error .help =>
    IO.println ChipEight.Terminal.usage
    return 0
  | .error .version =>
    IO.println "chip8 0.1.0"
    return 0
  | .error e =>
    IO.eprintln ("error: " ++ e.message ++ "\n\n" ++ ChipEight.Terminal.usage)
    return 2
