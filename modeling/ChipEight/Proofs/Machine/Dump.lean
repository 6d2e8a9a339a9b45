import ChipEight.Machine.Dump
import ChipEight.Proofs.Instruction.Assembly
import Mathlib.Data.List.FinRange

namespace ChipEight

structure Snapshot where
  pc : UInt16
  depth : Nat
  i : UInt16
  timers : Timers
  registers : List UInt8
  bytes : List UInt8
deriving DecidableEq

def Machine.snapshot (m : Machine) : Snapshot :=
  { pc := m.pc
    depth := m.stack.depth
    i := m.memory.i
    timers := m.timers
    registers := m.memory.v.values.toList
    bytes := m.memory.bytes.toList }

theorem Machine.snapshot_eq_iff {m n : Machine} :
    m.snapshot = n.snapshot ↔
      m.pc = n.pc ∧ m.stack.depth = n.stack.depth ∧ m.memory.i = n.memory.i ∧
        m.timers = n.timers ∧ m.memory.v = n.memory.v ∧ m.memory.bytes = n.memory.bytes := by
  have hregisters : m.memory.v.values = n.memory.v.values ↔ m.memory.v = n.memory.v :=
    ⟨fun h => congrArg Registers.mk h, congrArg Registers.values⟩
  simp only [snapshot, Snapshot.mk.injEq, Vector.toList_inj, hregisters]

namespace Snapshot

def readByte (word : List Char) : UInt8 :=
  UInt8.ofNat (Numeral.hexValue word)

/-- Reads the bytes among words that are names and bytes in turn. -/
def readNamed : List (List Char) → List UInt8
  | _ :: byte :: rest => readByte byte :: readNamed rest
  | _ => []

def readRow (line : List Char) : List UInt8 :=
  ((wordsOf line).drop 1).dropLast.map readByte

def read? (text : String) : Option Snapshot :=
  match text.toList.splitOn '\n' with
  | _ :: counters :: registers :: _ :: rows =>
    match (wordsOf counters).map Lexeme.ofWord with
    | [.name "PC:", .number pc, .name "SP:", .number depth, .name "I:", .number i,
        .name "DT:", .number delay, .name "ST:", .number sound] =>
      some
        { pc := UInt16.ofNat pc
          depth := depth
          i := UInt16.ofNat i
          timers := { delay := delay, sound := sound }
          registers := readNamed (wordsOf registers)
          bytes := rows.flatMap readRow }
    | _ => none
  | _ => none

end Snapshot

theorem wordsOf_flatMap {words : List (List Char)} (h : ∀ word ∈ words, Unbroken word) :
    wordsOf (words.flatMap (· ++ [' '])) = words ++ [[]] := by
  rw [← List.append_nil (words.flatMap _), wordsOf_flatMap_append h]
  rfl

theorem newline_not_mem_of_words {text last : List Char} {words : List (List Char)}
    (heq : wordsOf text = words ++ [last]) (hwords : ∀ word ∈ words, Unbroken word)
    (hlast : Unbroken last) : '\n' ∉ text := by
  refine newline_not_mem ?_
  rw [heq]
  exact List.forall_mem_append.mpr ⟨hwords, List.forall_mem_singleton.mpr hlast⟩

namespace Memory

variable (m : Memory)

theorem rowAddress_lt (row : Fin 256) (column : Fin 16) :
    16 * row.val + column.val < 4096 := by
  omega

def rowByte (row : Fin 256) (column : Fin 16) : UInt8 :=
  m.bytes.get ⟨16 * row.val + column.val, rowAddress_lt row column⟩

/-- The bytes of a row of memory as they are written. -/
def rowWords (row : Fin 256) : List (List Char) :=
  (List.finRange 16).map fun column => (Numeral.hexUpper 2 (m.rowByte row column).toNat).toList

/-- The words of a row: its address and its bytes. -/
def dumpWords (row : Fin 256) : List (List Char) :=
  ((Numeral.hexUpper 4 (16 * row.val)).toList ++ [':']) :: m.rowWords row

theorem unbroken_dumpWords (row : Fin 256) : ∀ word ∈ m.dumpWords row, Unbroken word := by
  refine List.forall_mem_cons.mpr ⟨(unbroken_hexUpper _ _).append (by decide), ?_⟩
  exact List.forall_mem_map.mpr fun column _ => unbroken_hexUpper _ _

theorem toList_dumpLine (row : Fin 256) :
    (m.dumpLine row).toList = (m.dumpWords row).flatMap (· ++ [' ']) := by
  rw [dumpLine, List.ofFn_eq_map]
  simp only [dumpWords, rowWords, String.toList_append, String.toList_join, List.flatMap_cons,
    List.flatMap_map, List.append_assoc]
  rfl

theorem wordsOf_dumpLine (row : Fin 256) :
    wordsOf (m.dumpLine row).toList = m.dumpWords row ++ [[]] := by
  rw [toList_dumpLine, wordsOf_flatMap (m.unbroken_dumpWords row)]

/-- The names and the values of the registers as they are written. -/
def registerWords : List (List Char) :=
  (List.finRange 16).flatMap fun x =>
    ['V' :: (Numeral.hexUpper 1 x.val).toList ++ [':'],
      (Numeral.hexUpper 2 (m.v.values.get x).toNat).toList]

theorem unbroken_registerWords : ∀ word ∈ m.registerWords, Unbroken word := by
  intro word hword
  obtain ⟨x, -, hx⟩ := List.mem_flatMap.mp hword
  have hname : Unbroken ['V'] := by decide
  have hcolon : Unbroken [':'] := by decide
  rcases List.mem_pair.mp hx with rfl | rfl
  · exact (hname.append (unbroken_hexUpper _ _)).append hcolon
  · exact unbroken_hexUpper _ _

theorem toList_registerLine :
    m.registerLine.toList = m.registerWords.flatMap (· ++ [' ']) := by
  rw [registerLine, List.ofFn_eq_map]
  simp only [registerWords, String.toList_append, String.toList_join, List.flatMap_map,
    List.flatMap_assoc, List.flatMap_cons, List.flatMap_nil, List.append_assoc, List.append_nil]
  rfl

theorem wordsOf_registerLine : wordsOf m.registerLine.toList = m.registerWords ++ [[]] := by
  rw [toList_registerLine, wordsOf_flatMap m.unbroken_registerWords]

end Memory

namespace Machine

variable (m : Machine)

/-- The names and the values of the counters as they are written, but for the last value. -/
def counterWords : List (List Char) :=
  ["PC:".toList, (Numeral.hexPrefixed 3 m.pc.toNat).toList,
    "SP:".toList, (Numeral.decimal m.stack.depth).toList,
    "I:".toList, (Numeral.hexPrefixed 3 m.memory.i.toNat).toList,
    "DT:".toList, (Numeral.decimal m.timers.delay).toList,
    "ST:".toList]

theorem unbroken_counterWords : ∀ word ∈ m.counterWords, Unbroken word := by
  have hnames : ∀ name ∈ ["PC:", "SP:", "I:", "DT:", "ST:"], Unbroken name.toList := by decide
  simp only [List.forall_mem_cons] at hnames
  obtain ⟨hpc, hsp, hi, hdt, hst, -⟩ := hnames
  simp only [counterWords, List.forall_mem_cons]
  exact ⟨hpc, unbroken_hexPrefixed _ _, hsp, unbroken_decimal _, hi, unbroken_hexPrefixed _ _,
    hdt, unbroken_decimal _, hst, List.forall_mem_nil _⟩

theorem wordsOf_counterLine :
    wordsOf m.counterLine.toList =
      m.counterWords ++ [(Numeral.decimal m.timers.sound).toList] := by
  have hline : m.counterLine.toList =
      m.counterWords.flatMap (· ++ [' ']) ++ (Numeral.decimal m.timers.sound).toList := by
    simp [counterLine, counterWords]
  rw [hline, wordsOf_flatMap_append m.unbroken_counterWords,
    wordsOf_of_unbroken (unbroken_decimal _)]

theorem newline_not_mem_dumpLines : ∀ line ∈ m.dumpLines, '\n' ∉ line.toList := by
  have hcounters := newline_not_mem_of_words m.wordsOf_counterLine m.unbroken_counterWords
    (unbroken_decimal _)
  have hregisters := newline_not_mem_of_words m.memory.wordsOf_registerLine
    m.memory.unbroken_registerWords (by decide)
  have hrows : ∀ row, '\n' ∉ (m.memory.dumpLine row).toList := fun row =>
    newline_not_mem_of_words (m.memory.wordsOf_dumpLine row) (m.memory.unbroken_dumpWords row)
      (by decide)
  have hheads : '\n' ∉ "=== CPU ===".toList ∧ '\n' ∉ "=== Memory ===".toList := by decide
  rw [dumpLines, List.forall_mem_append, List.forall_mem_cons, List.forall_mem_cons,
    List.forall_mem_cons, List.forall_mem_singleton]
  refine ⟨⟨hheads.1, hcounters, hregisters, hheads.2⟩, ?_⟩
  exact (List.forall_mem_ofFn_iff).mpr hrows

theorem splitOn_dump : m.dump.toList.splitOn '\n' = m.dumpLines.map String.toList ++ [[]] :=
  splitOn_join_lines m.newline_not_mem_dumpLines

end Machine

theorem ofFn_get {α : Type} {n : Nat} (v : Vector α n) : List.ofFn v.get = v.toList := by
  rw [← Vector.toList_ofFn]
  exact congrArg Vector.toList Vector.ofFn_getElem

theorem ofFn_eq_flatMap_rows {α : Type} {columns rows : Nat} (f : Fin (columns * rows) → α) :
    List.ofFn f =
      (List.finRange rows).flatMap fun row => (List.finRange columns).map fun column =>
        f ⟨columns * row.val + column.val, by
          have hrow : columns * (row.val + 1) ≤ columns * rows :=
            Nat.mul_le_mul_left columns row.isLt
          rw [Nat.mul_succ] at hrow
          omega⟩ := by
  simp only [List.ofFn_mul', List.ofFn_eq_map, List.flatMap_def]

theorem readByte_hexUpper (byte : UInt8) :
    Snapshot.readByte (Numeral.hexUpper 2 byte.toNat).toList = byte := by
  rw [Snapshot.readByte, Numeral.toList_hexUpper, Numeral.hexValue_map_toUpper,
    UInt8.ofNat_toNat]

theorem readRow_dumpLine (m : Memory) (row : Fin 256) :
    Snapshot.readRow (m.dumpLine row).toList = (List.finRange 16).map (m.rowByte row) := by
  rw [Snapshot.readRow, m.wordsOf_dumpLine, Memory.dumpWords, List.cons_append, List.drop_succ_cons,
    List.drop_zero, List.dropLast_concat, Memory.rowWords, List.map_map]
  exact List.map_congr_left fun column _ => readByte_hexUpper _

theorem readNamed_registerWords (m : Memory) :
    Snapshot.readNamed (m.registerWords ++ [[]]) = m.v.values.toList := by
  have hread : ∀ registers : List (Fin 16),
      Snapshot.readNamed ((registers.flatMap fun x =>
        ['V' :: (Numeral.hexUpper 1 x.val).toList ++ [':'],
          (Numeral.hexUpper 2 (m.v.values.get x).toNat).toList]) ++ [[]]) =
        registers.map m.v.values.get := by
    intro registers
    induction registers with
    | nil => rfl
    | cons x registers ih =>
        rw [List.map_cons, ← ih, ← readByte_hexUpper (m.v.values.get x)]
        rfl
  rw [Memory.registerWords, hread, ← List.ofFn_eq_map, ofFn_get]

theorem flatMap_readRow_dumpLines (m : Memory) :
    (m.dumpLines.map String.toList).flatMap Snapshot.readRow = m.bytes.toList := by
  rw [← ofFn_get, @ofFn_eq_flatMap_rows _ 16 256 m.bytes.get, Memory.dumpLines, List.ofFn_eq_map,
    List.map_map, List.flatMap_map]
  simp only [Function.comp_apply, readRow_dumpLine]
  rfl

theorem Machine.lexemes_counterLine (m : Machine) :
    (wordsOf m.counterLine.toList).map Lexeme.ofWord =
      [.name "PC:", .number m.pc.toNat, .name "SP:", .number m.stack.depth,
        .name "I:", .number m.memory.i.toNat, .name "DT:", .number m.timers.delay,
        .name "ST:", .number m.timers.sound] := by
  have hnames : ∀ name ∈ ["PC:", "SP:", "I:", "DT:", "ST:"],
      Lexeme.ofWord name.toList = .name name := by decide
  simp only [List.forall_mem_cons] at hnames
  obtain ⟨hpc, hsp, hi, hdt, hst, -⟩ := hnames
  simp only [wordsOf_counterLine, counterWords, List.map_append, List.map_cons, List.map_nil,
    ofWord_hexPrefixed, ofWord_decimal, hpc, hsp, hi, hdt, hst]
  rfl

theorem Machine.read?_dump (m : Machine) : Snapshot.read? m.dump = some m.snapshot := by
  have hsplit : m.dump.toList.splitOn '\n' =
      "=== CPU ===".toList :: m.counterLine.toList :: m.memory.registerLine.toList ::
        "=== Memory ===".toList :: (m.memory.dumpLines.map String.toList ++ [[]]) := by
    rw [splitOn_dump, dumpLines]
    simp only [List.map_cons, List.cons_append, List.nil_append]
  have hempty : Snapshot.readRow [] = [] := rfl
  rw [Snapshot.read?, hsplit]
  simp only [lexemes_counterLine, Memory.wordsOf_registerLine, readNamed_registerWords,
    List.flatMap_append, flatMap_readRow_dumpLines, UInt16.ofNat_toNat, List.flatMap_singleton,
    hempty, List.append_nil]
  rfl

/-- A row of memory as it is shown: the address of its first byte, and its bytes. -/
def Memory.shownRow (m : Memory) (row : Fin 256) : List Char :=
  Numeral.upperPlaces 4 (16 * row.val) ++ [':', ' '] ++
    (List.finRange 16).flatMap fun column =>
      Numeral.upperPlaces 2 (m.rowByte row column).toNat ++ [' ']

theorem Memory.toList_dumpLine_eq_shownRow (m : Memory) (row : Fin 256) :
    (m.dumpLine row).toList = m.shownRow row := by
  have haddress : 16 * row.val < 16 ^ 4 := by omega
  have hbyte : ∀ byte : UInt8, (Numeral.hexUpper 2 byte.toNat).toList =
      Numeral.upperPlaces 2 byte.toNat :=
    fun byte => Numeral.toList_hexUpper_of_lt (by decide) byte.toNat_lt
  rw [toList_dumpLine, dumpWords, rowWords, List.flatMap_cons, List.flatMap_map,
    Numeral.toList_hexUpper_of_lt (by decide) haddress]
  simp only [hbyte, shownRow, List.append_assoc]
  rfl

namespace Machine

theorem dump_eq_of_snapshot_eq {m n : Machine} (h : m.snapshot = n.snapshot) :
    m.dump = n.dump := by
  obtain ⟨hpc, hdepth, hi, htimers, hregisters, hbytes⟩ := snapshot_eq_iff.mp h
  have hmemory : m.memory = n.memory :=
    calc
      m.memory = ⟨m.memory.bytes, m.memory.v, m.memory.i⟩ := rfl
      _ = n.memory := by rw [hbytes, hregisters, hi]
  rw [dump, dump, dumpLines, dumpLines, counterLine, counterLine, hpc, hdepth, hmemory, htimers]

theorem dump_eq_iff {m n : Machine} : m.dump = n.dump ↔ m.snapshot = n.snapshot := by
  refine ⟨fun h => ?_, dump_eq_of_snapshot_eq⟩
  have hread := m.read?_dump
  rw [h, n.read?_dump] at hread
  exact (Option.some.inj hread).symm

theorem length_dumpLines (m : Machine) : m.dumpLines.length = 260 := by
  rw [dumpLines, List.length_append, Memory.dumpLines, List.length_ofFn]
  rfl

theorem getElem?_dumpLines (m : Machine) (row : Fin 256) :
    m.dumpLines[4 + row.val]? = some (m.memory.dumpLine row) := by
  rw [dumpLines, List.getElem?_append_right (Nat.le_add_right 4 row.val), Memory.dumpLines,
    List.getElem?_ofFn]
  simp

theorem dump_lossless :
    (∀ m n : Machine, m.dump = n.dump ↔
      m.pc = n.pc ∧ m.stack.depth = n.stack.depth ∧ m.memory.i = n.memory.i ∧
        m.timers = n.timers ∧ m.memory.v = n.memory.v ∧ m.memory.bytes = n.memory.bytes) ∧
      ∀ m : Machine,
        let parts := m.dump.toList.splitOn '\n'
        parts.length = 261 ∧ parts.getLast? = some [] ∧
          (∀ row : Fin 256, parts[4 + row.val]? = some (m.memory.shownRow row)) ∧
          Snapshot.read? m.dump = some m.snapshot := by
  refine ⟨fun m n => dump_eq_iff.trans snapshot_eq_iff, ?_⟩
  intro m parts
  have hparts : parts = m.dumpLines.map String.toList ++ [[]] := m.splitOn_dump
  refine ⟨?_, ?_, ?_, m.read?_dump⟩
  · rw [hparts, List.length_append, List.length_map, length_dumpLines]
    rfl
  · rw [hparts, List.getLast?_concat]
  · intro row
    have hrow : 4 + row.val < (m.dumpLines.map String.toList).length := by
      rw [List.length_map, length_dumpLines]
      omega
    rw [hparts, List.getElem?_append_left hrow, List.getElem?_map, getElem?_dumpLines,
      Option.map_some, Memory.toList_dumpLine_eq_shownRow]

end Machine

end ChipEight
