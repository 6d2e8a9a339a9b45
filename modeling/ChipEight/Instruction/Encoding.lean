import ChipEight.Instruction.Basic

namespace ChipEight.Instruction

/-- A word made of four nibbles, the highest first. -/
def wordOfNibbles (a : UInt16) (x y n : UInt8) : UInt16 :=
  a <<< 12 ||| x.toUInt16 <<< 8 ||| y.toUInt16 <<< 4 ||| n.toUInt16

/-- A word made of the nibbles `a` and `x` and a low byte. -/
def wordOfByte (a : UInt16) (x low : UInt8) : UInt16 :=
  a <<< 12 ||| x.toUInt16 <<< 8 ||| low.toUInt16

def word : Instruction → UInt16
  | clear => 0x00E0
  | ret => 0x00EE
  | jump a => 0x1000 ||| a
  | call a => 0x2000 ||| a
  | skipEqByte x b => wordOfByte 0x3 x b
  | skipNeByte x b => wordOfByte 0x4 x b
  | skipEq x y => wordOfNibbles 0x5 x y 0x0
  | setByte x b => wordOfByte 0x6 x b
  | addByte x b => wordOfByte 0x7 x b
  | copy x y => wordOfNibbles 0x8 x y 0x0
  | or x y => wordOfNibbles 0x8 x y 0x1
  | and x y => wordOfNibbles 0x8 x y 0x2
  | xor x y => wordOfNibbles 0x8 x y 0x3
  | add x y => wordOfNibbles 0x8 x y 0x4
  | sub x y => wordOfNibbles 0x8 x y 0x5
  | shiftRight x y => wordOfNibbles 0x8 x y 0x6
  | subFrom x y => wordOfNibbles 0x8 x y 0x7
  | shiftLeft x y => wordOfNibbles 0x8 x y 0xE
  | skipNe x y => wordOfNibbles 0x9 x y 0x0
  | setIndex a => 0xA000 ||| a
  | jumpPlus a => 0xB000 ||| a
  | random x m => wordOfByte 0xC x m
  | draw x y n => wordOfNibbles 0xD x y n
  | skipHeld x => wordOfByte 0xE x 0x9E
  | skipFree x => wordOfByte 0xE x 0xA1
  | readDelay x => wordOfByte 0xF x 0x07
  | awaitKey x => wordOfByte 0xF x 0x0A
  | setDelay x => wordOfByte 0xF x 0x15
  | setSound x => wordOfByte 0xF x 0x18
  | addIndex x => wordOfByte 0xF x 0x1E
  | glyph x => wordOfByte 0xF x 0x29
  | decimal x => wordOfByte 0xF x 0x33
  | store x => wordOfByte 0xF x 0x55
  | load x => wordOfByte 0xF x 0x65
  | unknown w => w

/-- The two bytes of an instruction word, the high byte first. -/
def bytes (i : Instruction) : List UInt8 :=
  [(i.word >>> 8).toUInt8, i.word.toUInt8]

end ChipEight.Instruction
