import ChipEight.Access

namespace ChipEight

/-- A key, numbered in hexadecimal from 0 to F. -/
abbrev Key := Fin 16

/-- The key of a number. -/
def Key.ofByte? (key : UInt8) : Option Key :=
  if h : key.toNat < 16 then some ⟨key.toNat, h⟩ else none

structure Keypad where
  held : Vector Bool 16 := .replicate 16 false
  /-- The last key pressed, until it is taken. -/
  latch : Option Key := none
deriving DecidableEq

namespace Keypad

def press (k : Keypad) (key : UInt8) : Except AccessError Keypad :=
  match Key.ofByte? key with
  | some key => .ok { held := k.held.set key true, latch := some key }
  | none => .error (.noSuchKey key)

/-- Releases a key. The latch keeps it. -/
def release (k : Keypad) (key : UInt8) : Except AccessError Keypad :=
  match Key.ofByte? key with
  | some key => .ok { k with held := k.held.set key false }
  | none => .error (.noSuchKey key)

/-- Empties the latch, and gives the key that was in it. -/
def takePress (k : Keypad) : Keypad × Option Key :=
  ({ k with latch := none }, k.latch)

def query (k : Keypad) (key : UInt8) : Except AccessError Bool :=
  match Key.ofByte? key with
  | some key => .ok k.held[key]
  | none => .error (.noSuchKey key)

/-- Whether a key is held; a number that belongs to no key is not. -/
def isHeld (k : Keypad) (key : UInt8) : Bool :=
  (k.query key).toOption.getD false

end Keypad

end ChipEight
