import ChipEight.Instruction.Listing
import ChipEight.Proofs.Numeral

namespace ChipEight

section Listing

variable {base : Nat} {address : UInt16} {image : List UInt8}

theorem ofNat_eq_iff (h : base < UInt16.size) :
    UInt16.ofNat base = address ↔ base = address.toNat := by
  rw [← UInt16.toNat_inj, UInt16.toNat_ofNat_of_lt' h]

theorem filter_disassembleFrom_of_lt (h : address.toNat < base) :
    (disassembleFrom base image).filter (·.address = address) = [] := by
  fun_induction disassembleFrom base image with
  | case1 base hi lo rest hbase ih =>
      have hne : UInt16.ofNat base ≠ address := by
        rw [Ne, ofNat_eq_iff hbase]
        omega
      rw [List.filter_cons, if_neg (by simpa using hne)]
      exact ih (by omega)
  | case2 => rfl
  | case3 => rfl

theorem length_lt_two_of_short (h : ∀ hi lo rest, image = hi :: lo :: rest → False) :
    image.length < 2 := by
  rcases image with _ | ⟨hi, _ | ⟨lo, rest⟩⟩
  · exact Nat.zero_lt_two
  · exact Nat.one_lt_two
  · exact (h hi lo rest rfl).elim

theorem filter_disassembleFrom (hle : base ≤ address.toNat)
    (heven : (address.toNat - base) % 2 = 0) (hlt : address.toNat + 1 < base + image.length) :
    (disassembleFrom base image).filter (·.address = address) =
      [⟨address, .decode image[address.toNat - base] image[address.toNat + 1 - base]⟩] := by
  fun_induction disassembleFrom base image with
  | case1 base hi lo rest hbase ih =>
      rw [List.filter_cons]
      by_cases hhead : UInt16.ofNat base = address
      · rw [if_pos (by simpa using hhead)]
        have hbase := (ofNat_eq_iff hbase).mp hhead
        rw [filter_disassembleFrom_of_lt (by omega)]
        simp [hhead, ← hbase]
      · have hne := mt (ofNat_eq_iff hbase).mpr hhead
        rw [if_neg (by simpa using hhead)]
        rw [List.length_cons, List.length_cons] at hlt
        rw [ih (by omega) (by omega) (by omega)]
        have hfirst : address.toNat - base = address.toNat - (base + 2) + 2 := by omega
        have hsecond : address.toNat + 1 - base = address.toNat + 1 - (base + 2) + 2 := by omega
        simp [hfirst, hsecond]
  | case2 base hi lo rest hbase =>
      exact absurd (Nat.lt_of_le_of_lt hle address.toNat_lt) hbase
  | case3 image base hshort =>
      have hlength := length_lt_two_of_short hshort
      omega

end Listing

/-- The text with the first two spaces that follow each other made one. -/
def singleSpaced : List Char → List Char
  | ' ' :: ' ' :: rest => ' ' :: rest
  | c :: rest => c :: singleSpaced rest
  | [] => []

theorem singleSpaced_append {front : List Char} (h : ' ' ∉ front) (back : List Char) :
    singleSpaced (front ++ ' ' :: ' ' :: back) = front ++ ' ' :: back := by
  induction front with
  | nil => rfl
  | cons c front ih =>
      obtain ⟨hc, hfront⟩ : ' ' ≠ c ∧ ' ' ∉ front := by simpa using h
      rw [List.cons_append, singleSpaced, ih hfront]
      · rfl
      · rintro rest rfl
        exact absurd rfl hc

theorem space_not_mem_hexPrefixed (width n : Nat) :
    ' ' ∉ (Numeral.hexPrefixed width n).toList := by
  have hdigits : ' ' ∉ Numeral.hexDigits width n := fun hspace =>
    absurd (Numeral.isAlphanum_of_mem_hexDigits hspace) (by decide)
  simp [Numeral.hexPrefixed, Numeral.hex, hdigits]

theorem Listed.toList_text (l : Listed) : (l.text " ").toList = singleSpaced l.line.toList := by
  have haddress := space_not_mem_hexPrefixed 3 l.address.toNat
  have hline : l.line.toList = (Numeral.hexPrefixed 3 l.address.toNat).toList ++
      ' ' :: ' ' :: l.instruction.mnemonic.toList := by
    simp [line, text]
  rw [hline, singleSpaced_append haddress]
  simp [text]

end ChipEight
