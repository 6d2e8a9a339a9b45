namespace ChipEight

structure Timers where
  delay : Nat := 0
  sound : Nat := 0
deriving DecidableEq

namespace Timers

/-- Counts both timers down by one; a timer at zero stays there. -/
def tick (t : Timers) : Timers :=
  { delay := t.delay - 1, sound := t.sound - 1 }

/-- A tone sounds for as long as the sound timer is above zero. -/
def sounding (t : Timers) : Bool :=
  0 < t.sound

end Timers

end ChipEight
