import ChipEight.Proofs.Instruction.Encoding
import ChipEight.Proofs.Instruction.Listing

namespace ChipEight

/-- An image as decoding reads it, two bytes at a time. -/
def asRead : List UInt8 → List UInt8
  | hi :: lo :: rest => hi :: Instruction.lowRead hi lo :: asRead rest
  | rest => rest

section Disassemble

variable {base : Nat} {image : List UInt8}

theorem length_disassembleFrom (base : Nat) (image : List UInt8) :
    (disassembleFrom base image).length = min (image.length / 2) ((65537 - base) / 2) := by
  fun_induction disassembleFrom base image with
  | case1 base hi lo rest hbase ih =>
      have hsize : base < 65536 := hbase
      rw [List.length_cons, List.length_cons, List.length_cons, ih]
      omega
  | case2 base hi lo rest hbase =>
      have hsize : ¬ base < 65536 := hbase
      rw [List.length_nil]
      omega
  | case3 base image hshort =>
      have hlength := length_lt_two_of_short hshort
      rw [List.length_nil]
      omega

/-- The entries of a listing follow each other at a distance of two bytes, and each is decoded from
the two bytes at its address. -/
theorem getElem?_disassembleFrom {j : Nat} {l : Listed}
    (h : (disassembleFrom base image)[j]? = some l) :
    l.address.toNat = base + 2 * j ∧
      ∃ hi lo, image[2 * j]? = some hi ∧ image[2 * j + 1]? = some lo ∧
        l.instruction = .decode hi lo := by
  fun_induction disassembleFrom base image generalizing j with
  | case1 base hi lo rest hbase ih =>
      cases j with
      | zero =>
          cases h
          exact ⟨UInt16.toNat_ofNat_of_lt' hbase, hi, lo, rfl, rfl, rfl⟩
      | succ j =>
          rw [List.getElem?_cons_succ] at h
          obtain ⟨haddress, hbytes⟩ := ih h
          exact ⟨by omega, hbytes⟩
  | case2 => cases h
  | case3 => cases h

theorem flatMap_bytes_disassembleFrom (base : Nat) (image : List UInt8) :
    (disassembleFrom base image).flatMap (·.instruction.bytes) =
      asRead (image.take (2 * (disassembleFrom base image).length)) := by
  fun_induction disassembleFrom base image with
  | case1 base hi lo rest hbase ih =>
      rw [List.flatMap_cons, ih, Instruction.bytes_decode, List.length_cons, Nat.mul_succ]
      rfl
  | case2 => rfl
  | case3 => rfl

theorem pairwise_address_disassembleFrom (base : Nat) (image : List UInt8) :
    (disassembleFrom base image).Pairwise (·.address < ·.address) := by
  rw [List.pairwise_iff_getElem]
  intro i j hi hj hlt
  obtain ⟨hfirst, -⟩ := getElem?_disassembleFrom (List.getElem?_eq_getElem hi)
  obtain ⟨hsecond, -⟩ := getElem?_disassembleFrom (List.getElem?_eq_getElem hj)
  rw [UInt16.lt_iff_toNat_lt]
  omega

end Disassemble

/-- A listing has an entry for every two bytes of the image until it reaches the highest address, and
its instructions stand for these bytes, but for the low nibble of 5XYN and 9XYN. -/
theorem disassemble_lossless (rom : List UInt8) (base : UInt16) :
    (disassemble rom base).length = min (rom.length / 2) ((65535 - base.toNat) / 2 + 1) ∧
      (∀ j l, (disassemble rom base)[j]? = some l →
        l.address.toNat = base.toNat + 2 * j ∧
          ∃ hi lo, rom[2 * j]? = some hi ∧ rom[2 * j + 1]? = some lo ∧
            l.instruction = .decode hi lo) ∧
      (disassemble rom base).Pairwise (·.address < ·.address) ∧
      (disassemble rom base).flatMap (·.instruction.bytes) =
        asRead (rom.take (2 * (disassemble rom base).length)) ∧
      (∀ hi lo w, Instruction.decode hi lo = .unknown w ↔
        w = Instruction.wordOfBytes hi lo ∧
          ¬ ∃ i : Instruction,
            i.InTable ∧ i.word = Instruction.wordOfBytes hi (Instruction.lowRead hi lo)) ∧
      ∀ hi lo hi' lo', Instruction.decode hi lo = Instruction.decode hi' lo' ↔
        hi = hi' ∧ Instruction.lowRead hi lo = Instruction.lowRead hi' lo' := by
  refine ⟨?_, fun j l => getElem?_disassembleFrom, pairwise_address_disassembleFrom _ _,
    flatMap_bytes_disassembleFrom _ _, fun hi lo w => Instruction.decode_eq_unknown_iff,
    fun hi lo hi' lo' => Instruction.decode_eq_decode_iff⟩
  have hbase := base.toNat_lt
  rw [disassemble, length_disassembleFrom]
  omega

/-- Of three words and a half, the first two are listed: the third one would start above the highest
address. -/
theorem disassemble_lossless_at_top_of_address_space :
    let rom : List UInt8 := [0x51, 0x27, 0x80, 0x08, 0x00, 0xE0, 0x12]
    disassemble rom 0xFFFD =
        [⟨0xFFFD, .skipEq 1 2⟩, ⟨0xFFFF, .unknown 0x8008⟩] ∧
      (disassemble rom 0xFFFD).flatMap (·.instruction.bytes) = [0x51, 0x20, 0x80, 0x08] ∧
      (∃ hi lo, rom[2]? = some hi ∧ rom[3]? = some lo ∧
        Instruction.unknown 0x8008 = .decode hi lo) ∧
      ¬ ∃ i : Instruction, i.InTable ∧ i.word = 0x8008 := by
  intro rom
  have hlisted : disassemble rom 0xFFFD =
      [⟨0xFFFD, .skipEq 1 2⟩, ⟨0xFFFF, .unknown 0x8008⟩] := by
    decide
  obtain ⟨-, hentries, -, hbytes, hunknown, -⟩ := disassemble_lossless rom 0xFFFD
  refine ⟨hlisted, hbytes.trans (by decide), ?_, ?_⟩
  · exact (hentries 1 ⟨0xFFFF, .unknown 0x8008⟩ (by rw [hlisted]; rfl)).2
  · exact ((hunknown 0x80 0x08 0x8008).mp rfl).2

end ChipEight
