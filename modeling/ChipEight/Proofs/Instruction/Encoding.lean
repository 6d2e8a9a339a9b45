import ChipEight.Instruction.Encoding
import ChipEight.Proofs.Instruction.Fields

namespace ChipEight.Instruction

section Words

variable {a w : UInt16} {hi lo hi' lo' x y n low : UInt8}

def byteOfNibbles (y n : UInt8) : UInt8 :=
  y <<< 4 ||| n

theorem toNat_byteOfNibbles (hy : y.toNat < 0x10) (hn : n.toNat < 0x10) :
    (byteOfNibbles y n).toNat = 0x10 * y.toNat + n.toNat := by
  have hshift : (y <<< 4).toNat = 2 ^ 4 * y.toNat := by
    rw [UInt8.toNat_shiftLeft, Nat.shiftLeft_eq, Nat.mul_comm]
    exact Nat.mod_eq_of_lt (by simp; omega)
  rw [byteOfNibbles, UInt8.toNat_or, hshift]
  exact (Nat.two_pow_add_eq_or_of_lt hn y.toNat).symm

theorem highNibble_byteOfNibbles (hy : y.toNat < 0x10) (hn : n.toNat < 0x10) :
    byteOfNibbles y n >>> 4 = y := by
  rw [← UInt8.toNat_inj, toNat_highNibble, toNat_byteOfNibbles hy hn]
  omega

theorem lowNibble_byteOfNibbles (hy : y.toNat < 0x10) (hn : n.toNat < 0x10) :
    byteOfNibbles y n &&& 0xF = n := by
  rw [← UInt8.toNat_inj, toNat_lowNibble, toNat_byteOfNibbles hy hn]
  omega

theorem byteOfNibbles_of_nibbles (lo : UInt8) : byteOfNibbles (lo >>> 4) (lo &&& 0xF) = lo := by
  rw [← UInt8.toNat_inj, toNat_byteOfNibbles (toNat_highNibble_lt lo) (toNat_lowNibble_lt lo),
    toNat_highNibble, toNat_lowNibble]
  omega

theorem wordOfBytes_inj : wordOfBytes hi lo = wordOfBytes hi' lo' ↔ hi = hi' ∧ lo = lo' := by
  have hlo := lo.toNat_lt
  have hlo' := lo'.toNat_lt
  rw [← UInt16.toNat_inj, ← UInt8.toNat_inj, ← UInt8.toNat_inj, toNat_wordOfBytes,
    toNat_wordOfBytes]
  omega

theorem highByte_wordOfBytes (hi lo : UInt8) : (wordOfBytes hi lo >>> 8).toUInt8 = hi := by
  have hhi := hi.toNat_lt
  have hlo := lo.toNat_lt
  rw [← UInt8.toNat_inj, UInt16.toNat_toUInt8, UInt16.toNat_shiftRight, toNat_wordOfBytes,
    Nat.shiftRight_eq_div_pow]
  show (0x100 * hi.toNat + lo.toNat) / 0x100 % 0x100 = hi.toNat
  omega

theorem lowByte_wordOfBytes (hi lo : UInt8) : (wordOfBytes hi lo).toUInt8 = lo := by
  have hlo := lo.toNat_lt
  rw [← UInt8.toNat_inj, UInt16.toNat_toUInt8, toNat_wordOfBytes]
  omega

theorem toNat_topNibble_or (ha : a.toNat < 0x10) (hw : w.toNat < 0x1000) :
    (a <<< 12 ||| w).toNat = 0x1000 * a.toNat + w.toNat := by
  have hshift : a.toNat <<< 12 = 0x1000 * a.toNat := by
    rw [Nat.shiftLeft_eq, Nat.mul_comm]
  rw [← hshift]
  exact toNat_shiftLeft_or (k := 12) (by decide) (by simp; omega) hw

theorem topNibble_or_eq_iff (ha : a.toNat < 0x10) (hw : w.toNat < 0x1000) :
    a <<< 12 ||| w = wordOfBytes hi lo ↔
      (hi >>> 4).toNat = a.toNat ∧ wordOfBytes (hi &&& 0xF) lo = w := by
  have hlo := lo.toNat_lt
  rw [← UInt16.toNat_inj, ← UInt16.toNat_inj, toNat_topNibble_or ha hw, toNat_highNibble,
    toNat_wordOfBytes, toNat_wordOfBytes, toNat_lowNibble]
  omega

theorem wordOfByte_eq_iff (ha : a.toNat < 0x10) (hx : x.toNat < 0x10) :
    wordOfByte a x low = wordOfBytes hi lo ↔
      (hi >>> 4).toNat = a.toNat ∧ hi &&& 0xF = x ∧ lo = low := by
  rw [wordOfByte, UInt16.or_assoc, ← wordOfBytes,
    topNibble_or_eq_iff ha (toNat_wordOfBytes_lt hx low), wordOfBytes_inj]

theorem wordOfNibbles_eq (hy : y.toNat < 0x10) (hn : n.toNat < 0x10) :
    wordOfNibbles a x y n = wordOfByte a x (byteOfNibbles y n) := by
  have hshift : y.toNat <<< 4 = 0x10 * y.toNat := by
    rw [Nat.shiftLeft_eq, Nat.mul_comm]
  have hlow : (y.toUInt16 <<< 4 ||| n.toUInt16).toNat = y.toNat <<< 4 + n.toNat :=
    toNat_shiftLeft_or (k := 4) (by decide) (by simp; omega) hn
  have hbyte : y.toUInt16 <<< 4 ||| n.toUInt16 = (byteOfNibbles y n).toUInt16 := by
    rw [← UInt16.toNat_inj, hlow, hshift, UInt8.toNat_toUInt16, toNat_byteOfNibbles hy hn]
  rw [wordOfNibbles, wordOfByte, UInt16.or_assoc, hbyte]

theorem wordOfNibbles_eq_iff (ha : a.toNat < 0x10) (hx : x.toNat < 0x10) (hy : y.toNat < 0x10)
    (hn : n.toNat < 0x10) :
    wordOfNibbles a x y n = wordOfBytes hi lo ↔
      (hi >>> 4).toNat = a.toNat ∧ hi &&& 0xF = x ∧ lo >>> 4 = y ∧ lo &&& 0xF = n := by
  rw [wordOfNibbles_eq hy hn, wordOfByte_eq_iff ha hx]
  constructor
  · rintro ⟨htop, hsecond, rfl⟩
    exact ⟨htop, hsecond, highNibble_byteOfNibbles hy hn, lowNibble_byteOfNibbles hy hn⟩
  · rintro ⟨htop, hsecond, rfl, rfl⟩
    exact ⟨htop, hsecond, (byteOfNibbles_of_nibbles lo).symm⟩

end Words

/-- The low byte of a word as decoding reads it: the low nibble of 5XYN and 9XYN counts as zero. -/
def lowRead (hi lo : UInt8) : UInt8 :=
  if hi >>> 4 = 0x5 ∨ hi >>> 4 = 0x9 then lo &&& 0xF0 else lo

/-- The instructions of the opcode table, with operands that fit into its words. -/
def InTable : Instruction → Prop
  | unknown _ => False
  | i => i.Fits

section Decode

variable {i : Instruction} {hi lo hi' lo' x y : UInt8} {w : UInt16}

theorem lowRead_of_skip (h : hi >>> 4 = 0x5 ∨ hi >>> 4 = 0x9) :
    lowRead hi lo = byteOfNibbles (lo >>> 4) 0 := by
  have hall : ∀ k : Fin 256, UInt8.ofFin k &&& (0xF0 : UInt8) =
      byteOfNibbles (UInt8.ofFin k >>> (4 : UInt8)) 0 := by
    decide +kernel
  rw [lowRead, if_pos h]
  exact hall lo.toFin

theorem decode_eq_skipEq (h : hi >>> 4 = 0x5) : decode hi lo = skipEq (hi &&& 0xF) (lo >>> 4) := by
  rw [decode, h]
  rfl

theorem decode_eq_skipNe (h : hi >>> 4 = 0x9) : decode hi lo = skipNe (hi &&& 0xF) (lo >>> 4) := by
  rw [decode, h]
  rfl

theorem decode_lowRead (hi lo : UInt8) : decode hi (lowRead hi lo) = decode hi lo := by
  by_cases hskip : hi >>> 4 = 0x5 ∨ hi >>> 4 = 0x9
  · rw [lowRead_of_skip hskip]
    have hy := highNibble_byteOfNibbles (n := 0) (toNat_highNibble_lt lo) (by decide)
    rcases hskip with htop | htop
    · rw [decode_eq_skipEq htop, decode_eq_skipEq htop, hy]
    · rw [decode_eq_skipNe htop, decode_eq_skipNe htop, hy]
  · rw [lowRead, if_neg hskip]

theorem lowRead_of_unknown (h : decode hi lo = unknown w) : lowRead hi lo = lo := by
  refine if_neg ?_
  rintro (htop | htop)
  · rw [decode_eq_skipEq htop] at h
    cases h
  · rw [decode_eq_skipNe htop] at h
    cases h

theorem word_of_ofWord? (h : ofWord? w.toNat = some i) : i.word = w := by
  unfold ofWord? at h
  split at h <;> cases h <;> exact UInt16.toNat_inj.mp (Eq.symm ‹_›)

theorem word_of_ofRegisters? {n : UInt8} (h : ofRegisters? x y n.toNat = some i) :
    i.word = wordOfNibbles 0x8 x y n := by
  rw [← UInt8.ofNat_toNat (x := n)]
  unfold ofRegisters? at h
  split at h <;> cases h <;> simp only [*] <;> rfl

theorem word_of_ofKey? {low : UInt8} (h : ofKey? x low.toNat = some i) :
    i.word = wordOfByte 0xE x low := by
  rw [← UInt8.ofNat_toNat (x := low)]
  unfold ofKey? at h
  split at h <;> cases h <;> simp only [*] <;> rfl

theorem word_of_ofRegister? {low : UInt8} (h : ofRegister? x low.toNat = some i) :
    i.word = wordOfByte 0xF x low := by
  rw [← UInt8.ofNat_toNat (x := low)]
  unfold ofRegister? at h
  split at h <;> cases h <;> simp only [*] <;> rfl

theorem word_getD_unknown {found : Option Instruction} (h : ∀ i, found = some i → i.word = w) :
    (found.getD (unknown w)).word = w := by
  cases found with
  | none => rfl
  | some i => exact h i rfl

theorem word_decode (hi lo : UInt8) : (decode hi lo).word = wordOfBytes hi (lowRead hi lo) := by
  have hx := toNat_lowNibble_lt hi
  have hy := toNat_highNibble_lt lo
  have hn := toNat_lowNibble_lt lo
  have haddress := toNat_wordOfBytes_lt hx lo
  -- 5XYN and 9XYN stand apart: everywhere else decoding reads the low byte as it is.
  by_cases hskip : hi >>> 4 = 0x5 ∨ hi >>> 4 = 0x9
  · rw [lowRead_of_skip hskip]
    have hzero : (0 : UInt8).toNat < 0x10 := by decide
    have hyRead := highNibble_byteOfNibbles hy hzero
    have hnRead := lowNibble_byteOfNibbles hy hzero
    rcases hskip with htop | htop
    · rw [decode_eq_skipEq htop]
      exact (wordOfNibbles_eq_iff (by decide) hx hy hzero).mpr
        ⟨congrArg UInt8.toNat htop, rfl, hyRead, hnRead⟩
    · rw [decode_eq_skipNe htop]
      exact (wordOfNibbles_eq_iff (by decide) hx hy hzero).mpr
        ⟨congrArg UInt8.toNat htop, rfl, hyRead, hnRead⟩
  · rw [lowRead, if_neg hskip]
    unfold decode
    split
    · exact word_getD_unknown fun _ => word_of_ofWord?
    · exact (topNibble_or_eq_iff (a := 0x1) (by decide) haddress).mpr ⟨‹_›, rfl⟩
    · exact (topNibble_or_eq_iff (a := 0x2) (by decide) haddress).mpr ⟨‹_›, rfl⟩
    · exact (wordOfByte_eq_iff (by decide) hx).mpr ⟨‹_›, rfl, rfl⟩
    · exact (wordOfByte_eq_iff (by decide) hx).mpr ⟨‹_›, rfl, rfl⟩
    · next htop => exact absurd (.inl (UInt8.toNat_inj.mp htop)) hskip
    · exact (wordOfByte_eq_iff (by decide) hx).mpr ⟨‹_›, rfl, rfl⟩
    · exact (wordOfByte_eq_iff (by decide) hx).mpr ⟨‹_›, rfl, rfl⟩
    · next htop =>
        have hword : wordOfNibbles 0x8 (hi &&& 0xF) (lo >>> 4) (lo &&& 0xF) = wordOfBytes hi lo :=
          (wordOfNibbles_eq_iff (by decide) hx hy hn).mpr ⟨htop, rfl, rfl, rfl⟩
        exact word_getD_unknown fun _ h => (word_of_ofRegisters? h).trans hword
    · next htop => exact absurd (.inr (UInt8.toNat_inj.mp htop)) hskip
    · exact (topNibble_or_eq_iff (a := 0xA) (by decide) haddress).mpr ⟨‹_›, rfl⟩
    · exact (topNibble_or_eq_iff (a := 0xB) (by decide) haddress).mpr ⟨‹_›, rfl⟩
    · exact (wordOfByte_eq_iff (by decide) hx).mpr ⟨‹_›, rfl, rfl⟩
    · exact (wordOfNibbles_eq_iff (by decide) hx hy hn).mpr ⟨‹_›, rfl, rfl, rfl⟩
    · next htop =>
        have hword : wordOfByte 0xE (hi &&& 0xF) lo = wordOfBytes hi lo :=
          (wordOfByte_eq_iff (by decide) hx).mpr ⟨htop, rfl, rfl⟩
        exact word_getD_unknown fun _ h => (word_of_ofKey? h).trans hword
    · next =>
        have htop : (hi >>> 4).toNat = 0xF := by
          have := toNat_highNibble_lt hi
          grind
        have hword : wordOfByte 0xF (hi &&& 0xF) lo = wordOfBytes hi lo :=
          (wordOfByte_eq_iff (by decide) hx).mpr ⟨htop, rfl, rfl⟩
        exact word_getD_unknown fun _ h => (word_of_ofRegister? h).trans hword

theorem decode_of_word (htable : i.InTable) (hword : i.word = wordOfBytes hi lo) :
    decode hi lo = i := by
  cases i with
  | unknown => exact htable.elim
  | clear =>
      have hbytes : wordOfBytes hi lo = wordOfBytes 0x00 0xE0 := hword.symm
      obtain ⟨rfl, rfl⟩ := wordOfBytes_inj.mp hbytes
      rfl
  | ret =>
      have hbytes : wordOfBytes hi lo = wordOfBytes 0x00 0xEE := hword.symm
      obtain ⟨rfl, rfl⟩ := wordOfBytes_inj.mp hbytes
      rfl
  | jump =>
      obtain ⟨htop, haddress⟩ := (topNibble_or_eq_iff (a := 0x1) (by decide) htable).mp hword
      simp only [decode, htop, haddress]
      rfl
  | call =>
      obtain ⟨htop, haddress⟩ := (topNibble_or_eq_iff (a := 0x2) (by decide) htable).mp hword
      simp only [decode, htop, haddress]
      rfl
  | setIndex =>
      obtain ⟨htop, haddress⟩ := (topNibble_or_eq_iff (a := 0xA) (by decide) htable).mp hword
      simp only [decode, htop, haddress]
      rfl
  | jumpPlus =>
      obtain ⟨htop, haddress⟩ := (topNibble_or_eq_iff (a := 0xB) (by decide) htable).mp hword
      simp only [decode, htop, haddress]
      rfl
  | skipEqByte | skipNeByte | setByte | addByte | random | skipHeld | skipFree | readDelay
  | awaitKey | setDelay | setSound | addIndex | glyph | decimal | store | load =>
      obtain ⟨htop, hx, hlow⟩ := (wordOfByte_eq_iff (by decide) htable).mp hword
      simp only [decode, htop, hx, hlow]
      rfl
  | skipEq | skipNe | copy | or | and | xor | add | sub | shiftRight | subFrom | shiftLeft =>
      obtain ⟨htop, hx, hy, hn⟩ :=
        (wordOfNibbles_eq_iff (by decide) htable.1 htable.2 (by decide)).mp hword
      simp only [decode, htop, hx, hy, hn]
      rfl
  | draw =>
      obtain ⟨htop, hx, hy, hn⟩ :=
        (wordOfNibbles_eq_iff (by decide) htable.1 htable.2.1 htable.2.2).mp hword
      simp only [decode, htop, hx, hy, hn]
      rfl

theorem eq_of_decode_unknown (h : decode hi lo = unknown w) : w = wordOfBytes hi lo := by
  have hword := word_decode hi lo
  rw [lowRead_of_unknown h, h] at hword
  exact hword

theorem inTable_decode (hi lo : UInt8) :
    (decode hi lo).InTable ∨ decode hi lo = unknown (wordOfBytes hi lo) := by
  have hfits := fits_decode hi lo
  cases hdecode : decode hi lo with
  | unknown w => exact .inr (congrArg unknown (eq_of_decode_unknown hdecode))
  | _ =>
      rw [hdecode] at hfits
      exact .inl hfits

/-- The words that decode to `unknown`, which carries them, are those that stand for no instruction of
the opcode table. -/
theorem decode_eq_unknown_iff :
    decode hi lo = unknown w ↔
      w = wordOfBytes hi lo ∧
        ¬ ∃ i : Instruction, i.InTable ∧ i.word = wordOfBytes hi (lowRead hi lo) := by
  constructor
  · intro h
    refine ⟨eq_of_decode_unknown h, ?_⟩
    rintro ⟨i, htable, hword⟩
    have hdecode := decode_of_word htable hword
    rw [decode_lowRead, h] at hdecode
    rw [← hdecode] at htable
    exact htable
  · rintro ⟨rfl, hno⟩
    rcases inTable_decode hi lo with htable | hunknown
    · exact absurd ⟨_, htable, word_decode hi lo⟩ hno
    · exact hunknown

/-- Words decode alike only if they differ at most in the low nibble of 5XYN and 9XYN. -/
theorem decode_eq_decode_iff :
    decode hi lo = decode hi' lo' ↔ hi = hi' ∧ lowRead hi lo = lowRead hi' lo' := by
  constructor
  · intro h
    have hword := congrArg word h
    rw [word_decode, word_decode] at hword
    exact wordOfBytes_inj.mp hword
  · rintro ⟨rfl, hlow⟩
    rw [← decode_lowRead, hlow, decode_lowRead]

theorem bytes_decode (hi lo : UInt8) : (decode hi lo).bytes = [hi, lowRead hi lo] := by
  rw [bytes, word_decode, highByte_wordOfBytes, lowByte_wordOfBytes]

end Decode

end ChipEight.Instruction
