namespace ChipEight

/-- A key of a keyboard, by its place. -/
inductive KeyCode
  | digit1
  | digit2
  | digit3
  | digit4
  | keyQ
  | keyW
  | keyE
  | keyR
  | keyA
  | keyS
  | keyD
  | keyF
  | keyZ
  | keyX
  | keyC
  | keyV
  | escape
  | other
deriving DecidableEq, Repr

/-- The label of a key in the left block of the keyboard. -/
def KeyCode.label? : KeyCode → Option Char
  | digit1 => some '1'
  | digit2 => some '2'
  | digit3 => some '3'
  | digit4 => some '4'
  | keyQ => some 'q'
  | keyW => some 'w'
  | keyE => some 'e'
  | keyR => some 'r'
  | keyA => some 'a'
  | keyS => some 's'
  | keyD => some 'd'
  | keyF => some 'f'
  | keyZ => some 'z'
  | keyX => some 'x'
  | keyC => some 'c'
  | keyV => some 'v'
  | escape | other => none

/-- The going down or up of a keyboard key. -/
structure KeyEvent where
  /-- The key, if it is known. -/
  code : Option KeyCode
  pressed : Bool
  /-- The key was held down all the while. -/
  repeated : Bool := false
deriving DecidableEq, Repr

inductive WindowEvent
  | close
  | redraw
  | key (event : KeyEvent)
  | other
deriving DecidableEq, Repr

end ChipEight
