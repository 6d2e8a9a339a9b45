namespace ChipEight

/-- An instruction. Decoding fills register operands with the four-bit fields X and Y of the
instruction word, byte operands with its low byte NN and addresses with its low twelve bits NNN. -/
inductive Instruction
  /-- Darken the screen (00E0). -/
  | clear
  /-- Return from a subroutine (00EE). -/
  | ret
  /-- Continue at an address (1NNN). -/
  | jump (address : UInt16)
  /-- Call the subroutine at an address (2NNN). -/
  | call (address : UInt16)
  /-- Skip the next instruction if VX is NN (3XNN). -/
  | skipEqByte (x byte : UInt8)
  /-- Skip the next instruction unless VX is NN (4XNN). -/
  | skipNeByte (x byte : UInt8)
  /-- Skip the next instruction if VX is VY (5XYN). -/
  | skipEq (x y : UInt8)
  /-- Set VX to NN (6XNN). -/
  | setByte (x byte : UInt8)
  /-- Add NN to VX (7XNN). -/
  | addByte (x byte : UInt8)
  /-- Copy VY to VX (8XY0). -/
  | copy (x y : UInt8)
  /-- VX or VY (8XY1). -/
  | or (x y : UInt8)
  /-- VX and VY (8XY2). -/
  | and (x y : UInt8)
  /-- VX exclusive or VY (8XY3). -/
  | xor (x y : UInt8)
  /-- VX plus VY, with the carry in the flag (8XY4). -/
  | add (x y : UInt8)
  /-- VX minus VY, held at zero (8XY5). -/
  | sub (x y : UInt8)
  /-- Shift right (8XY6). -/
  | shiftRight (x y : UInt8)
  /-- VY minus VX, held at zero (8XY7). -/
  | subFrom (x y : UInt8)
  /-- Shift left (8XYE). -/
  | shiftLeft (x y : UInt8)
  /-- Skip the next instruction unless VX is VY (9XYN). -/
  | skipNe (x y : UInt8)
  /-- Point the index register at an address (ANNN). -/
  | setIndex (address : UInt16)
  /-- Jump to an address plus a register (BNNN). -/
  | jumpPlus (address : UInt16)
  /-- A random byte under the mask NN (CXNN). -/
  | random (x mask : UInt8)
  /-- Draw the N rows at the index register at column VX and row VY (DXYN). -/
  | draw (x y rows : UInt8)
  /-- Skip the next instruction if key VX is held (EX9E). -/
  | skipHeld (x : UInt8)
  /-- Skip the next instruction unless key VX is held (EXA1). -/
  | skipFree (x : UInt8)
  /-- Read the delay timer (FX07). -/
  | readDelay (x : UInt8)
  /-- Wait for a key press (FX0A). -/
  | awaitKey (x : UInt8)
  /-- Set the delay timer (FX15). -/
  | setDelay (x : UInt8)
  /-- Set the sound timer (FX18). -/
  | setSound (x : UInt8)
  /-- Add VX to the index register (FX1E). -/
  | addIndex (x : UInt8)
  /-- Point the index register at the glyph of VX (FX29). -/
  | glyph (x : UInt8)
  /-- Write the three decimal digits of VX (FX33). -/
  | decimal (x : UInt8)
  /-- Write V0 to VX to memory (FX55). -/
  | store (x : UInt8)
  /-- Read V0 to VX from memory (FX65). -/
  | load (x : UInt8)
  | unknown (word : UInt16)
deriving DecidableEq, Repr

namespace Instruction

/-- The instruction word of two bytes, the high byte first. -/
def wordOfBytes (hi lo : UInt8) : UInt16 :=
  hi.toUInt16 <<< 8 ||| lo.toUInt16

/-- The operations on two registers, by the low nibble of the instruction word. -/
def ofRegisters? (x y : UInt8) : Nat → Option Instruction
  | 0x0 => some (copy x y)
  | 0x1 => some (or x y)
  | 0x2 => some (and x y)
  | 0x3 => some (xor x y)
  | 0x4 => some (add x y)
  | 0x5 => some (sub x y)
  | 0x6 => some (shiftRight x y)
  | 0x7 => some (subFrom x y)
  | 0xE => some (shiftLeft x y)
  | _ => none

/-- The skips on a key, by the low byte of the instruction word. -/
def ofKey? (x : UInt8) : Nat → Option Instruction
  | 0x9E => some (skipHeld x)
  | 0xA1 => some (skipFree x)
  | _ => none

/-- The operations on one register, by the low byte of the instruction word. -/
def ofRegister? (x : UInt8) : Nat → Option Instruction
  | 0x07 => some (readDelay x)
  | 0x0A => some (awaitKey x)
  | 0x15 => some (setDelay x)
  | 0x18 => some (setSound x)
  | 0x1E => some (addIndex x)
  | 0x29 => some (glyph x)
  | 0x33 => some (decimal x)
  | 0x55 => some (store x)
  | 0x65 => some (load x)
  | _ => none

/-- The operations without an operand, by their instruction word. -/
def ofWord? : Nat → Option Instruction
  | 0x00E0 => some clear
  | 0x00EE => some ret
  | _ => none

/-- Decodes the instruction whose high byte is `hi` and whose low byte is `lo`: the highest nibble
says what the others mean. -/
def decode (hi lo : UInt8) : Instruction :=
  let x := hi &&& 0xF
  let y := lo >>> 4
  let n := lo &&& 0xF
  let nnn := wordOfBytes x lo
  let other := unknown (wordOfBytes hi lo)
  match (hi >>> 4).toNat with
  | 0x0 => (ofWord? (wordOfBytes hi lo).toNat).getD other
  | 0x1 => jump nnn
  | 0x2 => call nnn
  | 0x3 => skipEqByte x lo
  | 0x4 => skipNeByte x lo
  | 0x5 => skipEq x y
  | 0x6 => setByte x lo
  | 0x7 => addByte x lo
  | 0x8 => (ofRegisters? x y n.toNat).getD other
  | 0x9 => skipNe x y
  | 0xA => setIndex nnn
  | 0xB => jumpPlus nnn
  | 0xC => random x lo
  | 0xD => draw x y n
  | 0xE => (ofKey? x lo.toNat).getD other
  | _ => (ofRegister? x lo.toNat).getD other

end Instruction

end ChipEight
