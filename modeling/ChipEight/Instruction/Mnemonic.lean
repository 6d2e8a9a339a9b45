import ChipEight.Numeral
import ChipEight.Instruction.Basic

namespace ChipEight

/-- An operand as assembly text shows it. -/
inductive Operand
  /-- A register, such as `VA`. -/
  | register (x : UInt8)
  /-- A byte, such as `0x0f`. -/
  | byte (b : UInt8)
  /-- An address, such as `0x200`. -/
  | address (a : UInt16)
  /-- A whole instruction word, such as `0x00ff`. -/
  | word (w : UInt16)
  /-- A number of sprite rows, in decimal. -/
  | rows (n : UInt8)
  /-- A fixed word: a special register or a format. -/
  | fixed (name : String)
deriving DecidableEq, Repr

def Operand.text : Operand → String
  | register x => "V" ++ Numeral.hexUpper 1 x.toNat
  | byte b => Numeral.hexPrefixed 2 b.toNat
  | address a => Numeral.hexPrefixed 3 a.toNat
  | word w => Numeral.hexPrefixed 4 w.toNat
  | rows n => Numeral.decimal n.toNat
  | fixed name => name

namespace Instruction

/-- The name of the operation that an instruction performs. -/
def operation : Instruction → String
  | clear => "CLS"
  | ret => "RET"
  | jump _ | jumpPlus _ => "JP"
  | call _ => "CALL"
  | skipEqByte _ _ | skipEq _ _ => "SE"
  | skipNeByte _ _ | skipNe _ _ => "SNE"
  | setByte _ _ | copy _ _ | setIndex _ | readDelay _ | awaitKey _ | setDelay _ | setSound _
  | glyph _ | decimal _ | store _ | load _ => "LD"
  | addByte _ _ | add _ _ | addIndex _ => "ADD"
  | or _ _ => "OR"
  | and _ _ => "AND"
  | xor _ _ => "XOR"
  | sub _ _ => "SUB"
  | shiftRight _ _ => "SHR"
  | subFrom _ _ => "SUBN"
  | shiftLeft _ _ => "SHL"
  | random _ _ => "RND"
  | draw _ _ _ => "DRW"
  | skipHeld _ => "SKP"
  | skipFree _ => "SKNP"
  | unknown _ => "DW"

/-- The operands of an instruction, the destination first. -/
def operands : Instruction → List Operand
  | clear | ret => []
  | jump a | call a => [.address a]
  | skipEqByte x b | skipNeByte x b | setByte x b | addByte x b | random x b =>
    [.register x, .byte b]
  | skipEq x y | skipNe x y | copy x y | or x y | and x y | xor x y | add x y | sub x y
  | shiftRight x y | subFrom x y | shiftLeft x y => [.register x, .register y]
  | setIndex a => [.fixed "I", .address a]
  | jumpPlus a => [.fixed "V0", .address a]
  | draw x y n => [.register x, .register y, .rows n]
  | skipHeld x | skipFree x => [.register x]
  | readDelay x => [.register x, .fixed "DT"]
  | awaitKey x => [.register x, .fixed "K"]
  | setDelay x => [.fixed "DT", .register x]
  | setSound x => [.fixed "ST", .register x]
  | addIndex x => [.fixed "I", .register x]
  | glyph x => [.fixed "F", .register x]
  | decimal x => [.fixed "B", .register x]
  | store x => [.fixed "[I]", .register x]
  | load x => [.register x, .fixed "[I]"]
  | unknown w => [.word w]

/-- The assembly text of an instruction: its operation, and behind a space its operands, with a
comma and a space between two of them. -/
def mnemonic (i : Instruction) : String :=
  match i.operands with
  | [] => i.operation
  | os => i.operation ++ " " ++ ", ".intercalate (os.map Operand.text)

end Instruction

end ChipEight
