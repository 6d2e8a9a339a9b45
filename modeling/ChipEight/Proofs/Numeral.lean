import ChipEight.Numeral
import Mathlib.Algebra.Group.Nat.Defs

namespace ChipEight.Numeral

section Digits

variable {width n : Nat} {c : Char}

theorem exists_digitChar_of_mem (h : c ∈ Nat.toDigits 16 n) : ∃ d < 16, c = Nat.digitChar d := by
  induction n using Nat.strongRecOn with
  | ind n ih =>
      rw [Nat.toDigits_eq_if (by decide)] at h
      split at h
      · next hlt => exact ⟨n, hlt, List.mem_singleton.mp h⟩
      · rcases List.mem_append.mp h with hinit | hlast
        · exact ih (n / 16) (by omega) hinit
        · exact ⟨n % 16, Nat.mod_lt _ (by decide), List.mem_singleton.mp hlast⟩

theorem mem_hexDigits (h : c ∈ hexDigits width n) : ∃ d < 16, c = Nat.digitChar d := by
  rcases List.mem_append.mp h with hzero | hdigit
  · exact ⟨0, by decide, List.eq_of_mem_replicate hzero⟩
  · exact exists_digitChar_of_mem hdigit

theorem isAlphanum_of_mem_hexDigits (h : c ∈ hexDigits width n) : c.isAlphanum = true := by
  have hdigit : ∀ d < 16, (Nat.digitChar d).isAlphanum = true := by decide
  obtain ⟨d, hd, rfl⟩ := mem_hexDigits h
  exact hdigit d hd

theorem isAlphanum_toUpper_of_mem_hexDigits (h : c ∈ hexDigits width n) :
    c.toUpper.isAlphanum = true := by
  have hdigit : ∀ d < 16, (Nat.digitChar d).toUpper.isAlphanum = true := by decide
  obtain ⟨d, hd, rfl⟩ := mem_hexDigits h
  exact hdigit d hd

/-- The uppercase digits of `n` by place value: exactly `width` of them, the lowest last. -/
def upperPlaces : (width n : Nat) → List Char
  | 0, _ => []
  | width + 1, n => upperPlaces width (n / 16) ++ ["0123456789ABCDEF".toList.getD (n % 16) '0']

theorem hexDigits_succ (h : 0 < width) (n : Nat) :
    hexDigits (width + 1) n = hexDigits width (n / 16) ++ [Nat.digitChar (n % 16)] := by
  rw [hexDigits, hexDigits, List.leftpad, List.leftpad, Nat.toDigits_eq_if (by decide)]
  split
  · next hlt =>
      obtain ⟨width, rfl⟩ := Nat.exists_eq_succ_of_ne_zero (Nat.ne_of_gt h)
      simp [Nat.div_eq_of_lt hlt, Nat.mod_eq_of_lt hlt, List.replicate_succ']
  · simp

theorem map_toUpper_hexDigits (hwidth : 0 < width) (hn : n < 16 ^ width) :
    (hexDigits width n).map Char.toUpper = upperPlaces width n := by
  have hdigit : ∀ d < 16,
      (Nat.digitChar d).toUpper = "0123456789ABCDEF".toList.getD d '0' := by decide
  induction width generalizing n with
  | zero => exact absurd hwidth (Nat.lt_irrefl 0)
  | succ width ih =>
      rw [upperPlaces, ← hdigit _ (Nat.mod_lt n (by decide))]
      rcases Nat.eq_zero_or_pos width with rfl | hpos
      · have hlt : n < 16 := by simpa using hn
        simp [hexDigits, List.leftpad, Nat.toDigits_of_lt_base hlt, Nat.mod_eq_of_lt hlt,
          upperPlaces]
      · have hquotient : n / 16 < 16 ^ width := by
          rw [pow_succ] at hn
          exact Nat.div_lt_of_lt_mul (by rwa [Nat.mul_comm])
        rw [hexDigits_succ hpos, List.map_append, ih hpos hquotient, List.map_singleton]

theorem toList_hexUpper (width n : Nat) :
    (hexUpper width n).toList = (hexDigits width n).map Char.toUpper :=
  String.toList_ofList

theorem toList_hexUpper_of_lt (hwidth : 0 < width) (hn : n < 16 ^ width) :
    (hexUpper width n).toList = upperPlaces width n := by
  rw [toList_hexUpper, map_toUpper_hexDigits hwidth hn]

end Digits

/-- The value of a hexadecimal digit of either case. -/
def digitValue (c : Char) : Nat :=
  "0123456789abcdef".toList.idxOf c.toLower

/-- The value of a run of hexadecimal digits. -/
def hexValue (cs : List Char) : Nat :=
  (cs.map digitValue).foldl (fun n d => 16 * n + d) 0

theorem digitValue_digitChar : ∀ d < 16, digitValue (Nat.digitChar d) = d := by
  decide

theorem hexValue_concat (cs : List Char) (c : Char) :
    hexValue (cs ++ [c]) = 16 * hexValue cs + digitValue c := by
  rw [hexValue, List.map_append, List.foldl_append]
  rfl

theorem hexValue_toDigits (n : Nat) : hexValue (Nat.toDigits 16 n) = n := by
  induction n using Nat.strongRecOn with
  | ind n ih =>
      rw [Nat.toDigits_eq_if (by decide)]
      split
      · next hlt => simp [hexValue, digitValue_digitChar n hlt]
      · have hlast : n % 16 < 16 := Nat.mod_lt _ (by decide)
        rw [hexValue_concat, ih (n / 16) (by omega), digitValue_digitChar _ hlast]
        exact Nat.div_add_mod n 16

theorem hexValue_zeros_append (zeros : Nat) (cs : List Char) :
    hexValue (List.replicate zeros '0' ++ cs) = hexValue cs := by
  induction zeros with
  | zero => rfl
  | succ zeros ih => exact ih

theorem hexValue_hexDigits (width n : Nat) : hexValue (hexDigits width n) = n := by
  rw [hexDigits, List.leftpad, hexValue_zeros_append, hexValue_toDigits]

theorem hexValue_map_toUpper (width n : Nat) :
    hexValue ((hexDigits width n).map Char.toUpper) = n := by
  have hdigit : ∀ d < 16, digitValue (Nat.digitChar d).toUpper = digitValue (Nat.digitChar d) := by
    decide
  have hvalues : ((hexDigits width n).map Char.toUpper).map digitValue =
      (hexDigits width n).map digitValue := by
    rw [List.map_map]
    refine List.map_congr_left fun c hc => ?_
    obtain ⟨d, hd, rfl⟩ := mem_hexDigits hc
    exact hdigit d hd
  rw [hexValue, hvalues]
  exact hexValue_hexDigits width n

section Decimal

variable {text : String} {n : Nat}

/-- The text is a decimal numeral for the number: its digits, with any zeros in front of them and at
most a plus sign in front of these. -/
def Denotes (text : String) (n : Nat) : Prop :=
  ∃ zeros, text.toList = List.replicate zeros '0' ++ Nat.toDigits 10 n ∨
    text.toList = '+' :: (List.replicate zeros '0' ++ Nat.toDigits 10 n)

theorem denotes_decimal (n : Nat) : Denotes (decimal n) n :=
  ⟨0, .inl String.toList_ofList⟩

theorem read?_zeros_append (zeros n : Nat) :
    read? (List.replicate zeros '0' ++ Nat.toDigits 10 n) = some n := by
  induction zeros with
  | zero => exact read?_toDigits n
  | succ zeros ih =>
      have hne : List.replicate zeros '0' ++ Nat.toDigits 10 n ≠ [] := by
        simp [Nat.toDigits_ne_nil]
      rw [List.replicate_succ, List.cons_append]
      -- A zero in front keeps both the digits and their value.
      simpa [read?, hne, Nat.ofDigitChars_cons] using ih

theorem exists_digit_of_read? {cs : List Char} (h : read? cs = some n) :
    ∃ c rest, cs = c :: rest ∧ c.isDigit = true := by
  unfold read? at h
  split at h
  · next hdigits =>
      obtain ⟨hne, hall⟩ := hdigits
      obtain ⟨c, rest, rfl⟩ := List.exists_cons_of_ne_nil hne
      exact ⟨c, rest, rfl, List.all_eq_true.mp hall c List.mem_cons_self⟩
  · cases h

theorem readUnsigned?_of_read? {cs : List Char} (h : read? cs = some n) :
    readUnsigned? cs = some n ∧ readSigned? cs = some (n : Int) ∧ cs.head? ≠ some '-' := by
  obtain ⟨c, rest, rfl, hdigit⟩ := exists_digit_of_read? h
  have hplus : c ≠ '+' := by
    rintro rfl
    cases hdigit
  have hminus : c ≠ '-' := by
    rintro rfl
    cases hdigit
  have hunsigned : readUnsigned? (c :: rest) = some n := by
    unfold readUnsigned?
    split
    · next heq => exact absurd (List.cons.inj heq).1 hplus
    · exact h
  refine ⟨hunsigned, ?_, by simp [hminus]⟩
  unfold readSigned?
  split
  · next heq => exact absurd (List.cons.inj heq).1 hminus
  · rw [hunsigned]
    rfl

theorem readUnsigned?_of_denotes (h : Denotes text n) : readUnsigned? text.toList = some n := by
  obtain ⟨zeros, htext | htext⟩ := h
  · rw [htext]
    exact (readUnsigned?_of_read? (read?_zeros_append zeros n)).1
  · rw [htext]
    exact read?_zeros_append zeros n

theorem readSigned?_of_denotes (h : Denotes text n) :
    readSigned? text.toList = some (n : Int) := by
  obtain ⟨zeros, htext | htext⟩ := h
  · rw [htext]
    exact (readUnsigned?_of_read? (read?_zeros_append zeros n)).2.1
  · rw [htext]
    show (read? _).map Int.ofNat = _
    rw [read?_zeros_append]
    rfl

theorem head?_ne_of_denotes (h : Denotes text n) : text.toList.head? ≠ some '-' := by
  obtain ⟨zeros, htext | htext⟩ := h
  · rw [htext]
    exact (readUnsigned?_of_read? (read?_zeros_append zeros n)).2.2
  · rw [htext]
    simp

end Decimal

end ChipEight.Numeral
