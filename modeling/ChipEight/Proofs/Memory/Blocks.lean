import ChipEight.Machine.Execute

namespace ChipEight.Memory

section Registers

variable (m : Memory)

@[simp] theorem bytes_putRegister (x value : UInt8) :
    (m.putRegister x value).value.bytes = m.bytes := by
  unfold putRegister setRegister Registers.set
  split
  · rfl
  · rfl

@[simp] theorem bytes_putFlagged (x value : UInt8) (flag : Bool) :
    (m.putFlagged x value flag).value.bytes = m.bytes := by
  simp [putFlagged]

@[simp] theorem bytes_combine (x y : UInt8) (f : UInt8 → UInt8 → UInt8) :
    (m.combine x y f).value.bytes = m.bytes := by
  simp [combine]

@[simp] theorem bytes_combineFlagged (x y : UInt8) (f : UInt8 → UInt8 → UInt8 × Bool) :
    (m.combineFlagged x y f).value.bytes = m.bytes := by
  simp [combineFlagged]

@[simp] theorem bytes_shift (x source : UInt8) (f : UInt8 → UInt8 × Bool) :
    (m.shift x source f).value.bytes = m.bytes := by
  simp [shift]

@[simp] theorem bytes_putRegisters (x : UInt8) (values : List UInt8) :
    (m.putRegisters x values).value.bytes = m.bytes := by
  induction values generalizing m x with
  | nil => rfl
  | cons value rest ih => simp [putRegisters, ih]

@[simp] theorem length_fetchRegisters (x : UInt8) (count : Nat) :
    (m.fetchRegisters x count).value.length = count := by
  induction count generalizing x with
  | zero => rfl
  | succ count ih => simp [fetchRegisters, ih]

end Registers

theorem getElem_attempt_write {m : Memory} {address : Nat} {byte : UInt8} {a : Nat}
    (ha : a < 4096) :
    (Access.attempt m (m.write address byte)).value.bytes[a] =
      if a = address then byte else m.bytes[a] := by
  unfold write
  by_cases haddress : address < 4096
  · rw [dif_pos haddress]
    by_cases heq : a = address
    · subst heq
      simp
    · simp [heq, Vector.getElem_set_ne _ _ (Ne.symm heq)]
  · rw [dif_neg haddress, if_neg (by omega)]
    rfl

theorem getElem_writeBlock {m : Memory} {address : Nat} {data : List UInt8} {a : Nat}
    (ha : a < 4096) :
    (m.writeBlock address data).value.bytes[a] =
      if address ≤ a then data[a - address]?.getD m.bytes[a] else m.bytes[a] := by
  induction data generalizing m address with
  | nil => simp [writeBlock]
  | cons byte rest ih =>
      simp only [writeBlock, Access.value_bind]
      rw [ih, getElem_attempt_write ha]
      rcases Nat.lt_trichotomy a address with hbefore | rfl | hbehind
      · rw [if_neg (by omega), if_neg (by omega), if_neg (by omega)]
      · rw [if_neg (by omega), if_pos rfl, if_pos (Nat.le_refl a), Nat.sub_self]
        rfl
      · have hoffset : a - address = a - (address + 1) + 1 := by omega
        rw [if_pos (by omega), if_neg (by omega), if_pos (by omega), hoffset,
          List.getElem?_cons_succ]

theorem getElem_writeBlock_of_not_mem {m : Memory} {address : Nat} {data : List UInt8} {a : Nat}
    (ha : a < 4096) (hout : a ∉ List.range' address data.length) :
    (m.writeBlock address data).value.bytes[a] = m.bytes[a] := by
  rw [List.mem_range'_1] at hout
  rw [getElem_writeBlock ha]
  split
  · rw [List.getElem?_eq_none (by omega)]
    rfl
  · rfl

theorem exists_loadRom (m : Memory) {rom : List UInt8} (h : rom.length ≤ 3584) :
    ∃ loaded, m.loadRom rom = .ok loaded := by
  have hcapacity : romCapacity = 3584 := by decide
  have hfits : rom.length ≤ romCapacity := hcapacity ▸ h
  exact ⟨_, dif_pos hfits⟩

/-- A program that was loaded lies at its load address, and the rest of memory is as before. -/
theorem getElem_of_loadRom {m loaded : Memory} {rom : List UInt8}
    (h : m.loadRom rom = .ok loaded) :
    rom.length ≤ 3584 ∧ loaded.v = m.v ∧ loaded.i = m.i ∧
      ∀ a (ha : a < 4096), loaded.bytes[a] =
        if hd : 0x200 ≤ a ∧ a < 0x200 + rom.length then rom.get ⟨a - 0x200, by omega⟩
        else m.bytes[a] := by
  have hcapacity : romCapacity = 3584 := by decide
  unfold loadRom at h
  split at h
  · next hfits =>
      cases h
      refine ⟨hcapacity ▸ hfits, rfl, rfl, ?_⟩
      intro a ha
      exact getElem_overlay ha
  · cases h

theorem getElem_loadRom {m loaded : Memory} {rom : List UInt8} (h : m.loadRom rom = .ok loaded)
    {k : Nat} (hk : k < rom.length) :
    ∃ hlt : 0x200 + k < 4096, loaded.bytes[0x200 + k] = rom[k] := by
  obtain ⟨hlength, -, -, hbytes⟩ := getElem_of_loadRom h
  have hlt : 0x200 + k < 4096 := by omega
  refine ⟨hlt, ?_⟩
  rw [hbytes _ hlt, dif_pos (by omega)]
  simp only [Nat.add_sub_cancel_left, List.get_eq_getElem]

end ChipEight.Memory
