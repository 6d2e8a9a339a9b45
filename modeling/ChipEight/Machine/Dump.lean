import ChipEight.Machine.Basic

namespace ChipEight

namespace Memory

/-- The line that shows the sixteen bytes of a row of memory behind the address of the first. -/
def dumpLine (m : Memory) (row : Fin 256) : String :=
  Numeral.hexUpper 4 (16 * row.val) ++ ": " ++ String.join (List.ofFn fun column : Fin 16 =>
    Numeral.hexUpper 2 m.bytes[16 * row.val + column.val].toNat ++ " ")

def dumpLines (m : Memory) : List String :=
  List.ofFn m.dumpLine

def registerLine (m : Memory) : String :=
  String.join (List.ofFn fun x : Fin 16 =>
    "V" ++ Numeral.hexUpper 1 x.val ++ ": " ++ Numeral.hexUpper 2 (m.v.values.get x).toNat ++ " ")

end Memory

/-- Lines as a text in which each of them ends with a line break. -/
def textOfLines (lines : List String) : String :=
  String.join (lines.map (· ++ "\n"))

def Memory.dump (m : Memory) : String :=
  textOfLines m.dumpLines

namespace Machine

/-- The line that shows the program counter, the depth of the call stack, the index register and the
timers. -/
def counterLine (m : Machine) : String :=
  "PC: " ++ Numeral.hexPrefixed 3 m.pc.toNat
    ++ " SP: " ++ Numeral.decimal m.stack.depth
    ++ " I: " ++ Numeral.hexPrefixed 3 m.memory.i.toNat
    ++ " DT: " ++ Numeral.decimal m.timers.delay
    ++ " ST: " ++ Numeral.decimal m.timers.sound

def dumpLines (m : Machine) : List String :=
  ["=== CPU ===", m.counterLine, m.memory.registerLine, "=== Memory ==="] ++ m.memory.dumpLines

def dump (m : Machine) : String :=
  textOfLines m.dumpLines

end Machine

end ChipEight
