import ChipEight.Instruction.Listing
import ChipEight.Proofs.Numeral
import Mathlib.Logic.Function.Basic

namespace ChipEight

/-- What a word of assembly text stands for. -/
inductive Lexeme
  | register (x : Nat)
  | number (n : Nat)
  | name (s : String)
deriving DecidableEq, Repr

def Lexeme.ofWord (word : List Char) : Lexeme :=
  match Numeral.read? word, word with
  | some n, _ => .number n
  | none, 'V' :: digits => .register (Numeral.hexValue digits)
  | none, '0' :: 'x' :: digits => .number (Numeral.hexValue digits)
  | none, _ => .name (String.ofList word)

/-- The names that stand among operands. -/
def Operand.names : List String :=
  ["I", "V0", "DT", "K", "ST", "F", "B", "[I]"]

/-- An operand whose name, if it is one, is known. -/
def Operand.Known : Operand → Prop
  | fixed name => name ∈ names
  | _ => True

/-- What the text of an operand reads as. The name `V0` reads as any other register does. -/
def Operand.lexeme : Operand → Lexeme
  | register x => .register x.toNat
  | byte b => .number b.toNat
  | address a => .number a.toNat
  | word w => .number w.toNat
  | rows n => .number n.toNat
  | fixed name => if name = "V0" then .register 0 else .name name

/-- A text that is one word: it goes on over no space, no comma and no end of line. -/
def Unbroken (word : List Char) : Prop :=
  ∀ c ∈ word, c ≠ ' ' ∧ c ≠ ',' ∧ c ≠ '\n'

instance (word : List Char) : Decidable (Unbroken word) :=
  List.decidableBAll _ word

theorem toList_hexPrefixed (width n : Nat) :
    (Numeral.hexPrefixed width n).toList = '0' :: 'x' :: Numeral.hexDigits width n := by
  simp [Numeral.hexPrefixed, Numeral.hex]

theorem toList_text_register (x : UInt8) :
    (Operand.register x).text.toList = 'V' :: (Numeral.hexUpper 1 x.toNat).toList := by
  simp [Operand.text]

theorem ofWord_hexPrefixed (width n : Nat) :
    Lexeme.ofWord (Numeral.hexPrefixed width n).toList = .number n := by
  rw [toList_hexPrefixed]
  simp [Lexeme.ofWord, Numeral.read?, Numeral.hexValue_hexDigits]

theorem ofWord_decimal (n : Nat) : Lexeme.ofWord (Numeral.decimal n).toList = .number n := by
  simp [Numeral.decimal, Lexeme.ofWord, Numeral.read?_toDigits]

theorem ofWord_text {o : Operand} (ho : o.Known) :
    Lexeme.ofWord o.text.toList = o.lexeme := by
  cases o with
  | register x =>
      rw [toList_text_register]
      simp [Lexeme.ofWord, Numeral.read?, Numeral.toList_hexUpper, Numeral.hexValue_map_toUpper,
        Operand.lexeme]
  | byte b => exact ofWord_hexPrefixed 2 b.toNat
  | address a => exact ofWord_hexPrefixed 3 a.toNat
  | word w => exact ofWord_hexPrefixed 4 w.toNat
  | rows n => exact ofWord_decimal n.toNat
  | fixed name =>
      have hnames : ∀ name ∈ Operand.names,
          Lexeme.ofWord name.toList = (Operand.fixed name).lexeme := by decide
      exact hnames name ho

theorem unbroken_of_isAlphanum {word : List Char} (h : ∀ c ∈ word, c.isAlphanum = true) :
    Unbroken word := by
  intro c hc
  refine ⟨?_, ?_, ?_⟩
  all_goals
    rintro rfl
    exact absurd (h _ hc) (by decide)

theorem unbroken_hexPrefixed (width n : Nat) : Unbroken (Numeral.hexPrefixed width n).toList := by
  refine unbroken_of_isAlphanum fun c hc => ?_
  rw [toList_hexPrefixed, List.mem_cons, List.mem_cons] at hc
  rcases hc with rfl | rfl | hdigit
  · rfl
  · rfl
  · exact Numeral.isAlphanum_of_mem_hexDigits hdigit

theorem unbroken_hexUpper (width n : Nat) : Unbroken (Numeral.hexUpper width n).toList := by
  refine unbroken_of_isAlphanum fun c hc => ?_
  rw [Numeral.toList_hexUpper, List.mem_map] at hc
  obtain ⟨digit, hdigit, rfl⟩ := hc
  exact Numeral.isAlphanum_toUpper_of_mem_hexDigits hdigit

theorem unbroken_decimal (n : Nat) : Unbroken (Numeral.decimal n).toList := by
  refine unbroken_of_isAlphanum fun c hc => ?_
  have hmem : c ∈ Nat.toDigits 10 n := by simpa [Numeral.decimal] using hc
  have hdigit := List.all_eq_true.mp (Numeral.all_isDigit_toDigits n) c hmem
  simp [Char.isAlphanum, hdigit]

theorem Unbroken.append {first second : List Char} (hfirst : Unbroken first)
    (hsecond : Unbroken second) : Unbroken (first ++ second) :=
  List.forall_mem_append.mpr ⟨hfirst, hsecond⟩

theorem unbroken_text {o : Operand} (ho : o.Known) :
    Unbroken o.text.toList := by
  cases o with
  | register x =>
      have hname : Unbroken ['V'] := by decide
      rw [toList_text_register]
      exact hname.append (unbroken_hexUpper 1 x.toNat)
  | byte b => exact unbroken_hexPrefixed 2 b.toNat
  | address a => exact unbroken_hexPrefixed 3 a.toNat
  | word w => exact unbroken_hexPrefixed 4 w.toNat
  | rows n => exact unbroken_decimal n.toNat
  | fixed name =>
      have hnames : ∀ name ∈ Operand.names, Unbroken name.toList := by decide
      exact hnames name ho

/-- The words of a text, which spaces part; commas are left out. -/
def wordsOf (text : List Char) : List (List Char) :=
  (text.filter (· ≠ ',')).splitOn ' '

theorem filter_of_unbroken {word : List Char} (h : Unbroken word) :
    word.filter (· ≠ ',') = word :=
  List.filter_eq_self.mpr fun c hc => decide_eq_true (h c hc).2.1

theorem wordsOf_of_unbroken {word : List Char} (h : Unbroken word) : wordsOf word = [word] := by
  rw [wordsOf, filter_of_unbroken h]
  exact List.splitOn_eq_singleton fun hspace => (h _ hspace).1 rfl

theorem wordsOf_append_space {word : List Char} (h : Unbroken word) (rest : List Char) :
    wordsOf (word ++ ' ' :: rest) = word :: wordsOf rest := by
  have hspace : ' ' ∉ word := fun hspace => (h _ hspace).1 rfl
  rw [wordsOf, List.filter_append, filter_of_unbroken h]
  exact List.splitOn_append_cons_self_of_not_mem hspace _

theorem wordsOf_flatMap_append {words : List (List Char)} (h : ∀ word ∈ words, Unbroken word)
    (rest : List Char) :
    wordsOf (words.flatMap (· ++ [' ']) ++ rest) = words ++ wordsOf rest := by
  induction words with
  | nil => rfl
  | cons word words ih =>
      obtain ⟨hword, hwords⟩ := List.forall_mem_cons.mp h
      rw [List.flatMap_cons, List.append_assoc, List.append_assoc, List.singleton_append,
        wordsOf_append_space hword, ih hwords, List.cons_append]

theorem wordsOf_append_comma {word : List Char} (h : Unbroken word) (rest : List Char) :
    wordsOf (word ++ ',' :: ' ' :: rest) = word :: wordsOf rest := by
  rw [← wordsOf_append_space h, wordsOf, wordsOf, List.filter_append, List.filter_append]
  rfl

theorem wordsOf_intercalate {words : List (List Char)} (h : ∀ word ∈ words, Unbroken word)
    (hne : words ≠ []) : wordsOf ([',', ' '].intercalate words) = words := by
  induction words with
  | nil => exact absurd rfl hne
  | cons word rest ih =>
      have hword := h word List.mem_cons_self
      rcases rest with _ | ⟨next, rest⟩
      · rw [List.intercalate_singleton, wordsOf_of_unbroken hword]
      · rw [List.intercalate_cons_cons, List.append_assoc, List.cons_append, List.cons_append,
          List.nil_append, wordsOf_append_comma hword,
          ih (fun w hw => h w (List.mem_cons_of_mem _ hw)) (List.cons_ne_nil _ _)]

theorem mem_of_mem_intercalate {sep : List Char} {words : List (List Char)} {c : Char}
    (h : c ∈ sep.intercalate words) : c ∈ sep ∨ ∃ word ∈ words, c ∈ word := by
  induction words with
  | nil => exact absurd h List.not_mem_nil
  | cons word rest ih =>
      rcases rest with _ | ⟨next, rest⟩
      · rw [List.intercalate_singleton] at h
        exact .inr ⟨word, List.mem_singleton_self _, h⟩
      · rw [List.intercalate_cons_cons, List.mem_append, List.mem_append] at h
        rcases h with (hword | hsep) | hrest
        · exact .inr ⟨word, List.mem_cons_self, hword⟩
        · exact .inl hsep
        · refine (ih hrest).imp id ?_
          rintro ⟨w, hw, hc⟩
          exact ⟨w, List.mem_cons_of_mem _ hw, hc⟩

theorem newline_not_mem {text : List Char} (h : ∀ word ∈ wordsOf text, Unbroken word) :
    '\n' ∉ text := by
  intro hmem
  have hwords : [' '].intercalate (wordsOf text) = text.filter (· ≠ ',') :=
    List.intercalate_splitOn ..
  have hkept : '\n' ∈ [' '].intercalate (wordsOf text) := by
    rw [hwords]
    exact List.mem_filter.mpr ⟨hmem, by decide⟩
  rcases mem_of_mem_intercalate hkept with hspace | ⟨word, hword, hnewline⟩
  · exact absurd hspace (by decide)
  · exact (h word hword _ hnewline).2.2 rfl

theorem splitOn_join_lines {lines : List String} (h : ∀ line ∈ lines, '\n' ∉ line.toList) :
    (String.join (lines.map (· ++ "\n"))).toList.splitOn '\n' = lines.map String.toList ++ [[]] := by
  induction lines with
  | nil => rfl
  | cons line lines ih =>
      obtain ⟨hline, hlines⟩ := List.forall_mem_cons.mp h
      have htext : (String.join ((line :: lines).map (· ++ "\n"))).toList =
          line.toList ++ '\n' :: (String.join (lines.map (· ++ "\n"))).toList := by
        simp
      rw [htext, List.splitOn_append_cons_self_of_not_mem hline, ih hlines]
      rfl

/-- Reads a text by its words, and accepts it only if it is written as what it reads as is. -/
def readExactly {α : Type} (write : α → String) (read : List (List Char) → Option α)
    (text : String) : Option α :=
  (read (wordsOf text.toList)).filter fun a => write a = text

theorem isPartialInv_readExactly {α : Type} {write : α → String}
    {read : List (List Char) → Option α} (h : ∀ a, read (wordsOf (write a).toList) = some a) :
    Function.IsPartialInv write (readExactly write read) := by
  intro a text
  rw [readExactly, Option.filter_eq_some_iff, decide_eq_true_iff]
  refine and_iff_right_of_imp ?_
  rintro rfl
  exact h a

namespace Instruction

theorem known_operands (i : Instruction) : ∀ o ∈ i.operands, o.Known := by
  cases i <;> simp [operands, Operand.Known, Operand.names]

theorem unbroken_operation (i : Instruction) : Unbroken i.operation.toList := by
  cases i <;> simp only [operation] <;> decide

theorem unbroken_operands (i : Instruction) :
    ∀ word ∈ i.operands.map fun o => o.text.toList, Unbroken word := by
  intro word hword
  obtain ⟨o, ho, rfl⟩ := List.mem_map.mp hword
  exact unbroken_text (i.known_operands o ho)

theorem wordsOf_mnemonic (i : Instruction) :
    wordsOf i.mnemonic.toList = i.operation.toList :: i.operands.map fun o => o.text.toList := by
  have hoperation := i.unbroken_operation
  rw [mnemonic]
  split
  · next hnone => rw [hnone, wordsOf_of_unbroken hoperation]; rfl
  · next hsome =>
    have htext : (i.operation ++ " " ++ ", ".intercalate (i.operands.map Operand.text)).toList =
        i.operation.toList ++ ' ' ::
          [',', ' '].intercalate (i.operands.map fun o => o.text.toList) := by
      simp [Function.comp_def]
    rw [htext, wordsOf_append_space hoperation, wordsOf_intercalate i.unbroken_operands]
    simpa using hsome

theorem unbroken_mnemonic (i : Instruction) :
    ∀ word ∈ wordsOf i.mnemonic.toList, Unbroken word := by
  rw [wordsOf_mnemonic]
  exact List.forall_mem_cons.mpr ⟨i.unbroken_operation, i.unbroken_operands⟩

/-- The instructions that take a register and a byte, and the jump that names its register. -/
def ofRegisterNumber? (x n : Nat) : String → Option Instruction
  | "SE" => some (skipEqByte (.ofNat x) (.ofNat n))
  | "SNE" => some (skipNeByte (.ofNat x) (.ofNat n))
  | "LD" => some (setByte (.ofNat x) (.ofNat n))
  | "ADD" => some (addByte (.ofNat x) (.ofNat n))
  | "RND" => some (random (.ofNat x) (.ofNat n))
  | "JP" => some (jumpPlus (.ofNat n))
  | _ => none

def ofTwoRegisters? (x y : Nat) : String → Option Instruction
  | "SE" => some (skipEq (.ofNat x) (.ofNat y))
  | "SNE" => some (skipNe (.ofNat x) (.ofNat y))
  | "LD" => some (copy (.ofNat x) (.ofNat y))
  | "OR" => some (or (.ofNat x) (.ofNat y))
  | "AND" => some (and (.ofNat x) (.ofNat y))
  | "XOR" => some (xor (.ofNat x) (.ofNat y))
  | "ADD" => some (add (.ofNat x) (.ofNat y))
  | "SUB" => some (sub (.ofNat x) (.ofNat y))
  | "SHR" => some (shiftRight (.ofNat x) (.ofNat y))
  | "SUBN" => some (subFrom (.ofNat x) (.ofNat y))
  | "SHL" => some (shiftLeft (.ofNat x) (.ofNat y))
  | _ => none

/-- The instruction that the name of an operation and the kinds of its operands stand for. -/
def ofLexemes? : String → List Lexeme → Option Instruction
  | "CLS", [] => some clear
  | "RET", [] => some ret
  | "JP", [.number a] => some (jump (.ofNat a))
  | "CALL", [.number a] => some (call (.ofNat a))
  | "DW", [.number w] => some (unknown (.ofNat w))
  | "SKP", [.register x] => some (skipHeld (.ofNat x))
  | "SKNP", [.register x] => some (skipFree (.ofNat x))
  | "LD", [.name "I", .number a] => some (setIndex (.ofNat a))
  | "LD", [.register x, .name "DT"] => some (readDelay (.ofNat x))
  | "LD", [.register x, .name "K"] => some (awaitKey (.ofNat x))
  | "LD", [.register x, .name "[I]"] => some (load (.ofNat x))
  | "LD", [.name "DT", .register x] => some (setDelay (.ofNat x))
  | "LD", [.name "ST", .register x] => some (setSound (.ofNat x))
  | "LD", [.name "F", .register x] => some (glyph (.ofNat x))
  | "LD", [.name "B", .register x] => some (decimal (.ofNat x))
  | "LD", [.name "[I]", .register x] => some (store (.ofNat x))
  | "ADD", [.name "I", .register x] => some (addIndex (.ofNat x))
  | "DRW", [.register x, .register y, .number n] =>
    some (draw (.ofNat x) (.ofNat y) (.ofNat n))
  | operation, [.register x, .number n] => ofRegisterNumber? x n operation
  | operation, [.register x, .register y] => ofTwoRegisters? x y operation
  | _, _ => none

theorem ofLexemes?_lexeme (i : Instruction) :
    ofLexemes? i.operation (i.operands.map Operand.lexeme) = some i := by
  cases i <;>
    simp [operation, operands, Operand.lexeme, ofLexemes?, ofRegisterNumber?, ofTwoRegisters?]

def ofWords? : List (List Char) → Option Instruction
  | operation :: operands => ofLexemes? (String.ofList operation) (operands.map Lexeme.ofWord)
  | [] => none

/-- Reads the text of an instruction. A text that is not written as its instruction is, such as one
with a superfluous zero, is not accepted. -/
def read? : String → Option Instruction :=
  readExactly mnemonic ofWords?

theorem ofWords?_wordsOf_mnemonic (i : Instruction) :
    ofWords? (wordsOf i.mnemonic.toList) = some i := by
  have hlexemes : (i.operands.map fun o => o.text.toList).map Lexeme.ofWord =
      i.operands.map Operand.lexeme := by
    rw [List.map_map]
    exact List.map_congr_left fun o ho => ofWord_text (i.known_operands o ho)
  rw [wordsOf_mnemonic, ofWords?, hlexemes, String.ofList_toList]
  exact ofLexemes?_lexeme i

theorem isPartialInv_mnemonic : Function.IsPartialInv mnemonic read? :=
  isPartialInv_readExactly ofWords?_wordsOf_mnemonic

theorem mnemonic_injective : Function.Injective mnemonic :=
  isPartialInv_mnemonic.injective

example : read? "LD [I], VA" = some (.store 0xA) ∧ read? "LD [I], V0A" = none := by
  decide +kernel

end Instruction

namespace Listed

def ofWords? : List (List Char) → Option Listed
  | address :: [] :: instruction =>
    match Lexeme.ofWord address with
    | .number n => (Instruction.ofWords? instruction).map fun i => ⟨.ofNat n, i⟩
    | _ => none
  | _ => none

/-- Reads a line of a listing, on the same terms as `Instruction.read?`. -/
def read? : String → Option Listed :=
  readExactly line ofWords?

/-- A listing as it is printed: every line ends with an end of line. -/
def printed (listing : List Listed) : String :=
  String.join (listing.map fun l => l.line ++ "\n")

/-- Reads a printed listing, line by line. -/
def readAll? (text : String) : Option (List Listed) :=
  (text.toList.splitOn '\n').dropLast.mapM fun line => read? (String.ofList line)

theorem wordsOf_line (l : Listed) : wordsOf l.line.toList =
    (Numeral.hexPrefixed 3 l.address.toNat).toList :: [] ::
      wordsOf l.instruction.mnemonic.toList := by
  have hline : l.line.toList = (Numeral.hexPrefixed 3 l.address.toNat).toList ++
      ' ' :: ([] ++ ' ' :: l.instruction.mnemonic.toList) := by
    simp [line, text]
  have haddress := unbroken_hexPrefixed 3 l.address.toNat
  have hnil : Unbroken [] := by decide
  rw [hline, wordsOf_append_space haddress, wordsOf_append_space hnil]

theorem ofWords?_wordsOf_line (l : Listed) : ofWords? (wordsOf l.line.toList) = some l := by
  rw [wordsOf_line, ofWords?, ofWord_hexPrefixed, Instruction.ofWords?_wordsOf_mnemonic]
  simp

theorem isPartialInv_line : Function.IsPartialInv line read? :=
  isPartialInv_readExactly ofWords?_wordsOf_line

theorem line_injective : Function.Injective line :=
  isPartialInv_line.injective

theorem newline_not_mem_line (l : Listed) : '\n' ∉ l.line.toList := by
  refine newline_not_mem fun word hword => ?_
  rw [wordsOf_line, List.mem_cons, List.mem_cons] at hword
  rcases hword with rfl | rfl | hword
  · exact unbroken_hexPrefixed 3 l.address.toNat
  · decide
  · exact l.instruction.unbroken_mnemonic word hword

theorem splitOn_printed (listing : List Listed) :
    (printed listing).toList.splitOn '\n' = (listing.map fun l => l.line.toList) ++ [[]] := by
  have hlines : ∀ line ∈ listing.map Listed.line, '\n' ∉ line.toList := by
    intro line hline
    obtain ⟨l, -, rfl⟩ := List.mem_map.mp hline
    exact l.newline_not_mem_line
  have hsplit := splitOn_join_lines hlines
  rwa [List.map_map, List.map_map] at hsplit

theorem readAll?_printed (listing : List Listed) : readAll? (printed listing) = some listing := by
  have hread : (fun word => read? (String.ofList word)) ∘ (fun l : Listed => l.line.toList) =
      fun l => pure (id l) := by
    funext l
    rw [Function.comp_apply, String.ofList_toList]
    exact (isPartialInv_line l _).mpr rfl
  rw [readAll?, splitOn_printed, List.dropLast_concat, List.mapM_map, hread, List.mapM_pure,
    List.map_id]
  rfl

end Listed

theorem assembly_text_unambiguous :
    (∀ i j : Instruction, i.mnemonic = j.mnemonic ↔ i = j) ∧
      (∀ (image image' : List UInt8) (base base' : UInt16),
        (disassemble image base).map Listed.line = (disassemble image' base').map Listed.line ↔
          disassemble image base = disassemble image' base') ∧
      (∀ (i : Instruction) (text : String), Instruction.read? text = some i ↔ i.mnemonic = text) ∧
      ∀ (image : List UInt8) (base : UInt16),
        Listed.readAll? (Listed.printed (disassemble image base)) =
          some (disassemble image base) := by
  refine ⟨?_, ?_, ?_, ?_⟩
  · intro i j
    exact Instruction.mnemonic_injective.eq_iff
  · intro image image' base base'
    exact List.map_inj_right fun _ _ h => Listed.line_injective h
  · exact Instruction.isPartialInv_mnemonic
  · intro image base
    exact Listed.readAll?_printed _

end ChipEight
