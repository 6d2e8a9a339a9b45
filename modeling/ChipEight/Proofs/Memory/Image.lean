import ChipEight.Proofs.Memory.Blocks

namespace ChipEight.Memory

theorem writeSlice_of_le {m : Memory} {start : Nat} {data : List UInt8} (hstart : start < 0x1000)
    (hend : start + data.length ≤ 0x1000) :
    m.writeSlice start data = .ok { m with bytes := overlay m.bytes start data hend } := by
  rw [writeSlice, if_pos hstart, dif_pos hend]

theorem writeSlice_font (m : Memory) : m.writeSlice Font.start Font.rows = .ok m.loadFont :=
  writeSlice_of_le (by decide) (by decide)

theorem loadRom_eq_writeSlice {m : Memory} {rom : List UInt8} (h : rom.length ≤ 3584) :
    m.loadRom rom = m.writeSlice 0x200 rom := by
  have hcapacity : romCapacity = 3584 := by decide
  have hfits : rom.length ≤ romCapacity := hcapacity ▸ h
  rw [writeSlice_of_le (by decide) (by omega), loadRom, dif_pos hfits]
  rfl

theorem loadRom_of_lt {m : Memory} {rom : List UInt8} (h : 3584 < rom.length) :
    m.loadRom rom = .error (.programTooLarge rom.length 3584) := by
  have hcapacity : romCapacity = 3584 := by decide
  rw [loadRom, dif_neg (by omega), hcapacity]

/-- The memory is as a program of these bytes finds it. -/
structure Holds (m : Memory) (rom : List UInt8) : Prop where
  font : ∀ a : Fin 0x50, m.read a = .ok (Font.rows.get a)
  program : ∀ k : Fin rom.length, m.read (0x200 + k) = .ok (rom.get k)
  elsewhere : ∀ a, 0x50 ≤ a → a < 0x200 ∨ 0x200 + rom.length ≤ a → a < 0x1000 → m.read a = .ok 0
  registers : ∀ x : UInt8, x.toNat < 0x10 → m.register x = .ok 0
  index : m.i = 0

theorem read_of_lt {m : Memory} {a : Nat} (h : a < 0x1000) : m.read a = .ok m.bytes[a] :=
  dif_pos h

theorem getElem_loadFont {a : Nat} (ha : a < 0x1000) :
    ({} : Memory).loadFont.bytes[a] = if h : a < 0x50 then Font.rows.get ⟨a, h⟩ else 0 := by
  have hlength : Font.rows.length = 0x50 := by decide
  have hstart : Font.start = 0 := rfl
  simp only [loadFont]
  rw [getElem_overlay ha]
  by_cases hfont : a < 0x50
  · rw [dif_pos hfont, dif_pos (by omega)]
    simp [hstart]
  · rw [dif_neg hfont, dif_neg (by omega)]
    simp

theorem holds_of_loadRom {rom : List UInt8} {loaded : Memory}
    (h : ({} : Memory).loadFont.loadRom rom = .ok loaded) : loaded.Holds rom := by
  obtain ⟨hcapacity, hv, hi, hbytes⟩ := getElem_of_loadRom h
  refine ⟨?_, ?_, ?_, ?_, hi⟩
  · intro a
    have ha := a.isLt
    rw [read_of_lt (by omega), hbytes a (by omega), dif_neg (by omega),
      getElem_loadFont (by omega), dif_pos ha]
    rfl
  · intro k
    have hk := k.isLt
    rw [read_of_lt (by omega), hbytes _ (by omega), dif_pos (by omega)]
    simp
  · intro a hfont hprogram ha
    rw [read_of_lt ha, hbytes a ha, dif_neg (by omega), getElem_loadFont ha, dif_neg (by omega)]
  · intro x hx
    rw [register, hv]
    show Registers.get {} x = .ok 0
    simp [Registers.get, hx]

end ChipEight.Memory
