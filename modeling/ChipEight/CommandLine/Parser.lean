import ChipEight.CommandLine.Options
/-!
The reading of a command line.

Arguments are read from left to right. What was read last, an option that takes a value or the
program, is settled only when the next option or the program begins, or at the end. So an argument
that is unknown is refused before the value in front of it is looked at.
-/

namespace ChipEight

inductive Token
  /-- Two dashes, behind which all arguments are plain. -/
  | endOfOptions
  /-- An option with its long name, and the value behind its equals sign if it has one. -/
  | long (name : String) (value : Option String)
  /-- One dash and letters, the first of which decides. -/
  | short (letter : Char)
  /-- An argument without a dash in front, or a dash alone. -/
  | plain (text : String)
deriving DecidableEq, Repr

def Token.ofLong (cs : List Char) : Token :=
  let name := String.ofList (cs.takeWhile (· ≠ '='))
  match cs.dropWhile (· ≠ '=') with
  | [] => long name none
  | _ :: value => long name (some (String.ofList value))

def Token.ofArgument (argument : String) : Token :=
  match argument.toList with
  | ['-', '-'] => endOfOptions
  | '-' :: '-' :: cs => ofLong cs
  | '-' :: c :: _ => short c
  | _ => plain argument

/-- What was settled of a command line so far. -/
structure Draft where
  rom : Option String := none
  flags : List Flag := []
  opsPerFrame : Option Nat := none
  seed : Option UInt64 := none
  scale : Option Nat := none
  layout : Option Layout := none
deriving DecidableEq, Repr

namespace Draft

def setFlag (d : Draft) (f : Flag) : Except UsageError Draft :=
  if f ∈ d.flags then .error (.repeatedOption f.name)
  else .ok { d with flags := f :: d.flags }

def has (d : Draft) : ValueOption → Bool
  | .opsPerFrame => d.opsPerFrame.isSome
  | .seed => d.seed.isSome
  | .scale => d.scale.isSome
  | .layout => d.layout.isSome

def readWord? (value : String) : Option Nat :=
  (Numeral.readUnsigned? value.toList).filter (· < UInt64.size)

/-- Reads a scale: an integer that fits into 32 bits without a sign. -/
def readScale? (value : String) : Option Nat :=
  ((Numeral.readSigned? value.toList).bind Int.toNat?).filter (· < UInt32.size)

def readLayout? : String → Option Layout
  | "cosmac" => some .cosmac
  | "sequential" => some .sequential
  | _ => none

/-- Gives an option the value that it is read from. -/
def setValue (d : Draft) (o : ValueOption) (value : String) : Except UsageError Draft :=
  if d.has o then .error (.repeatedOption o.name)
  else
    match o with
    | .opsPerFrame =>
      match readWord? value with
      | some n => .ok { d with opsPerFrame := some n }
      | none => .error (.badNumber o.name value)
    | .seed =>
      match readWord? value with
      | some n => .ok { d with seed := some (UInt64.ofNat n) }
      | none => .error (.badNumber o.name value)
    | .scale =>
      match readScale? value with
      | some n => .ok { d with scale := some n }
      | none => .error (.badNumber o.name value)
    | .layout =>
      match readLayout? value with
      | some l => .ok { d with layout := some l }
      | none => .error (.unknownWord o.name value)

/-- The options of a draft that names a program; what it leaves open has its default. -/
def options (d : Draft) : Except UsageError Options :=
  match d.rom with
  | none => .error .missingRom
  | some rom =>
    let defaults : Options := { rom := rom }
    .ok {
      rom := rom
      dialect :=
        { legacyShift := .legacyShift ∈ d.flags
          jumpAddOffset := .jumpAddOffset ∈ d.flags
          memoryIncrementI := .memoryIncrementI ∈ d.flags
          legacyWrap := .legacyWrap ∈ d.flags }
      opsPerFrame := d.opsPerFrame.getD defaults.opsPerFrame
      seed := d.seed
      scale := d.scale.getD defaults.scale
      layout := d.layout.getD defaults.layout
      disassemble := .disassemble ∈ d.flags }

end Draft

/-- What was read of a command line but is not settled yet. -/
inductive Pending
  | nothing
  /-- An option, and its value if that was read. -/
  | option (option : ValueOption) (value : Option String)
  | rom (path : String)
deriving DecidableEq, Repr

/-- How far a command line was read. -/
structure Reading where
  draft : Draft := {}
  pending : Pending := .nothing
  /-- All further arguments are plain. -/
  optionsEnded : Bool := false
deriving DecidableEq, Repr

namespace Reading

def settle (r : Reading) : Except UsageError Draft :=
  match r.pending with
  | .nothing => .ok r.draft
  | .option o none => .error (.missingValue o.name)
  | .option o (some value) => r.draft.setValue o value
  | .rom path => if path = "" then .error .emptyRom else .ok { r.draft with rom := some path }

def hasRom (r : Reading) : Bool :=
  match r.pending with
  | .rom _ => true
  | _ => r.draft.rom.isSome

def acceptLong (r : Reading) (argument name : String) (value : Option String) :
    Except UsageError Reading :=
  match ValueOption.ofName? name, Flag.ofName? name, value with
  | some o, _, none => do
    let draft ← r.settle
    return { r with draft := draft, pending := .option o none }
  | some o, _, some value => do
    let draft ← r.settle
    return { r with draft := ← draft.setValue o value, pending := .nothing }
  | none, some f, none => do
    let draft ← r.settle
    return { r with draft := ← draft.setFlag f, pending := .nothing }
  | none, some f, some _ => .error (.unexpectedValue f.name)
  | none, none, none => do
    if name = "help" then
      let _ ← r.settle
      .error .help
    else if name = "version" then
      let _ ← r.settle
      .error .version
    else
      .error (.unknownArgument argument)
  | none, none, some _ =>
    if name = "help" ∨ name = "version" then .error (.unexpectedValue name)
    else .error (.unknownArgument argument)

/-- Reads a plain argument: the value that an option waits for, or else the program. -/
def acceptPlain (r : Reading) (text : String) : Except UsageError Reading :=
  match r.pending, r.optionsEnded with
  | .option o none, false => .ok { r with pending := .option o (some text) }
  | _, _ =>
    if r.hasRom then .error (.unknownArgument text)
    else do
      let draft ← r.settle
      return { r with draft := draft, pending := .rom text }

def accept (r : Reading) (argument : String) : Except UsageError Reading :=
  match if r.optionsEnded then Token.plain argument else Token.ofArgument argument with
  | .endOfOptions => .ok { r with optionsEnded := true }
  | .long name value => r.acceptLong argument name value
  | .short letter =>
    if letter = 'h' then do
      let _ ← r.settle
      .error .help
    else if letter = 'V' then do
      let _ ← r.settle
      .error .version
    else
      .error (.unknownArgument argument)
  | .plain text => r.acceptPlain text

end Reading

/-- Reads a command line, without the name of the command. -/
def Options.parse (arguments : List String) : Except UsageError Options := do
  let reading ← arguments.foldlM Reading.accept {}
  (← reading.settle).options

end ChipEight
