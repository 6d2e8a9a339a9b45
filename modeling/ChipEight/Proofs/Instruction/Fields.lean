import ChipEight.Instruction.Basic

namespace ChipEight.Instruction

@[simp] theorem toNat_highNibble (b : UInt8) : (b >>> 4).toNat = b.toNat / 0x10 := by
  simp [UInt8.toNat_shiftRight, Nat.shiftRight_eq_div_pow]

@[simp] theorem toNat_lowNibble (b : UInt8) : (b &&& 0xF).toNat = b.toNat % 0x10 := by
  rw [UInt8.toNat_and]
  exact Nat.and_two_pow_sub_one_eq_mod b.toNat 4

theorem toNat_shiftLeft_or {a b k : UInt16} (hk : k.toNat < 0x10)
    (ha : a.toNat <<< k.toNat < 0x10000) (hb : b.toNat < 1 <<< k.toNat) :
    (a <<< k ||| b).toNat = a.toNat <<< k.toNat + b.toNat := by
  have hshift : (a <<< k).toNat = a.toNat <<< k.toNat := by
    rw [UInt16.toNat_shiftLeft, Nat.mod_eq_of_lt hk]
    exact Nat.mod_eq_of_lt ha
  rw [Nat.one_shiftLeft] at hb
  rw [UInt16.toNat_or, hshift, Nat.shiftLeft_add_eq_or_of_lt hb]

@[simp] theorem toNat_wordOfBytes (hi lo : UInt8) :
    (wordOfBytes hi lo).toNat = 0x100 * hi.toNat + lo.toNat := by
  have hhi := hi.toNat_lt
  have hshift : hi.toNat <<< 8 = 0x100 * hi.toNat := by
    rw [Nat.shiftLeft_eq, Nat.mul_comm]
  rw [← hshift]
  exact toNat_shiftLeft_or (k := 8) (by decide) (by simp; omega) lo.toNat_lt

theorem toNat_highNibble_lt (b : UInt8) : (b >>> 4).toNat < 0x10 := by
  have := b.toNat_lt
  rw [toNat_highNibble]
  omega

theorem toNat_lowNibble_lt (b : UInt8) : (b &&& 0xF).toNat < 0x10 := by
  rw [toNat_lowNibble]
  omega

theorem toNat_wordOfBytes_lt {x : UInt8} (hx : x.toNat < 0x10) (low : UInt8) :
    (wordOfBytes x low).toNat < 0x1000 := by
  have := low.toNat_lt
  rw [toNat_wordOfBytes]
  omega

/-- The operands of an instruction stay within the fields of an instruction word: registers and
rows within four bits, addresses within twelve. -/
def Fits : Instruction → Prop
  | clear | ret | unknown _ => True
  | jump a | call a | setIndex a | jumpPlus a => a.toNat < 0x1000
  | skipEqByte x _ | skipNeByte x _ | setByte x _ | addByte x _ | random x _ | skipHeld x
  | skipFree x | readDelay x | awaitKey x | setDelay x | setSound x | addIndex x | glyph x
  | decimal x | store x | load x => x.toNat < 0x10
  | skipEq x y | skipNe x y | copy x y | or x y | and x y | xor x y | add x y | sub x y
  | shiftRight x y | subFrom x y | shiftLeft x y => x.toNat < 0x10 ∧ y.toNat < 0x10
  | draw x y n => x.toNat < 0x10 ∧ y.toNat < 0x10 ∧ n.toNat < 0x10

theorem fits_of_ofWord? {word : Nat} {i : Instruction} (h : ofWord? word = some i) : i.Fits := by
  unfold ofWord? at h
  split at h <;> cases h <;> trivial

theorem fits_of_ofRegisters? {x y : UInt8} (hx : x.toNat < 0x10) (hy : y.toNat < 0x10) {n : Nat}
    {i : Instruction} (h : ofRegisters? x y n = some i) : i.Fits := by
  unfold ofRegisters? at h
  split at h <;> cases h <;> exact ⟨hx, hy⟩

theorem fits_of_ofKey? {x : UInt8} (hx : x.toNat < 0x10) {low : Nat} {i : Instruction}
    (h : ofKey? x low = some i) : i.Fits := by
  unfold ofKey? at h
  split at h <;> cases h <;> exact hx

theorem fits_of_ofRegister? {x : UInt8} (hx : x.toNat < 0x10) {low : Nat} {i : Instruction}
    (h : ofRegister? x low = some i) : i.Fits := by
  unfold ofRegister? at h
  split at h <;> cases h <;> exact hx

theorem fits_getD_unknown {found : Option Instruction} (h : ∀ i, found = some i → i.Fits)
    (word : UInt16) : (found.getD (unknown word)).Fits := by
  cases found with
  | none => trivial
  | some i => exact h i rfl

theorem fits_decode (hi lo : UInt8) : (decode hi lo).Fits := by
  have hx := toNat_lowNibble_lt hi
  have hy := toNat_highNibble_lt lo
  have hn := toNat_lowNibble_lt lo
  have ha := toNat_wordOfBytes_lt hx lo
  unfold decode
  split
  · exact fits_getD_unknown (fun _ => fits_of_ofWord?) _
  · exact ha
  · exact ha
  · exact hx
  · exact hx
  · exact ⟨hx, hy⟩
  · exact hx
  · exact hx
  · exact fits_getD_unknown (fun _ => fits_of_ofRegisters? hx hy) _
  · exact ⟨hx, hy⟩
  · exact ha
  · exact ha
  · exact hx
  · exact ⟨hx, hy, hn⟩
  · exact fits_getD_unknown (fun _ => fits_of_ofKey? hx) _
  · exact fits_getD_unknown (fun _ => fits_of_ofRegister? hx) _

end ChipEight.Instruction
