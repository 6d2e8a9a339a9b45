import ChipEight.Keypad

namespace ChipEight

/-- How the block `1234`, `qwer`, `asdf`, `zxcv` is assigned to the keypad. -/
inductive Layout
  /-- The keys lie where the keypad of the first machines had them. -/
  | cosmac
  /-- The keys count from 0 to F in reading order. -/
  | sequential
deriving DecidableEq, Repr

namespace Layout

def labels : List Char :=
  ['1', '2', '3', '4', 'q', 'w', 'e', 'r', 'a', 's', 'd', 'f', 'z', 'x', 'c', 'v']

def key? : Layout → Char → Option Key
  | cosmac, label =>
    match label with
    | '1' => some 0x1
    | '2' => some 0x2
    | '3' => some 0x3
    | '4' => some 0xC
    | 'q' => some 0x4
    | 'w' => some 0x5
    | 'e' => some 0x6
    | 'r' => some 0xD
    | 'a' => some 0x7
    | 's' => some 0x8
    | 'd' => some 0x9
    | 'f' => some 0xE
    | 'z' => some 0xA
    | 'x' => some 0x0
    | 'c' => some 0xB
    | 'v' => some 0xF
    | _ => none
  | sequential, label => labels.finIdxOf? label

end Layout

end ChipEight
