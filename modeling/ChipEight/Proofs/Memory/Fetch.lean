import ChipEight.Machine.Execute

namespace ChipEight.Memory

theorem toNat_succ {pc : UInt16} (h : pc.toNat < 0x1000) : (pc + 1).toNat = pc.toNat + 1 := by
  rw [UInt16.toNat_add]
  exact Nat.mod_eq_of_lt (by simp; omega)

theorem toNat_succ_succ {pc : UInt16} (h : pc.toNat < 0x1000) : (pc + 2).toNat = pc.toNat + 2 := by
  rw [UInt16.toNat_add]
  exact Nat.mod_eq_of_lt (by simp; omega)

theorem fetch_of_lt {m : Memory} {pc : UInt16} (h : pc.toNat + 1 < 0x1000) :
    m.fetch pc = .ok (m.bytes[pc.toNat], m.bytes[pc.toNat + 1]) := by
  have hsucc : (pc + 1).toNat = pc.toNat + 1 := toNat_succ (by omega)
  have hhi : m.read pc.toNat = .ok m.bytes[pc.toNat] := dif_pos (by omega)
  have hlo : m.read (pc + 1).toNat = .ok m.bytes[pc.toNat + 1] := by
    rw [hsucc]
    exact dif_pos h
  rw [fetch, hhi]
  simp only [hlo]

theorem fetch_of_le {m : Memory} {pc : UInt16} (h : 0xFFF ≤ pc.toNat) :
    m.fetch pc = .error (UInt16.ofNat (max pc.toNat 0x1000)) := by
  by_cases hlast : pc.toNat = 0xFFF
  · have hpc : pc = 0xFFF := UInt16.toNat_inj.mp hlast
    subst hpc
    have hhi : m.read (0xFFF : UInt16).toNat = .ok m.bytes[0xFFF] := dif_pos (by decide)
    have hlo : m.read (0xFFF + 1 : UInt16).toNat = .error (.noSuchAddress 0x1000) :=
      dif_neg (by decide)
    rw [fetch, hhi]
    simp only [hlo]
    rfl
  · have hmax : max pc.toNat 0x1000 = pc.toNat := by omega
    have hread : m.read pc.toNat = .error (.noSuchAddress pc.toNat) := dif_neg (by omega)
    rw [fetch, hread, hmax, UInt16.ofNat_toNat]

theorem toNat_stop (pc : UInt16) :
    (UInt16.ofNat (max pc.toNat 0x1000)).toNat = max pc.toNat 0x1000 := by
  have hpc := pc.toNat_lt
  rw [UInt16.toNat_ofNat']
  exact Nat.mod_eq_of_lt (by omega)

theorem fetch_eq_ok {m : Memory} {pc : UInt16} {bytes : UInt8 × UInt8}
    (h : m.fetch pc = .ok bytes) :
    ∃ hlt : pc.toNat + 1 < 0x1000, bytes = (m.bytes[pc.toNat], m.bytes[pc.toNat + 1]) := by
  by_cases hlt : pc.toNat + 1 < 0x1000
  · rw [fetch_of_lt hlt] at h
    cases h
    exact ⟨hlt, rfl⟩
  · rw [fetch_of_le (by omega)] at h
    cases h

theorem fetch_eq_error {m : Memory} {pc stop : UInt16} (h : m.fetch pc = .error stop) :
    0xFFF ≤ pc.toNat ∧ stop = UInt16.ofNat (max pc.toNat 0x1000) := by
  by_cases hlt : pc.toNat + 1 < 0x1000
  · rw [fetch_of_lt hlt] at h
    cases h
  · have hle : 0xFFF ≤ pc.toNat := by omega
    rw [fetch_of_le hle] at h
    cases h
    exact ⟨hle, rfl⟩

end ChipEight.Memory
