import ChipEight.Proofs.Memory.Image
import ChipEight.Proofs.Memory.RegisterAccess
import ChipEight.Proofs.Memory.Untouched

namespace ChipEight.Memory

open Access

section Reads

variable (m : Memory)

theorem read_of_le {a : Nat} (h : 0x1000 ≤ a) : m.read a = .error (.noSuchAddress a) :=
  dif_neg (Nat.not_lt.mpr h)

theorem value_readBlock (address count : Nat) :
    (m.readBlock address count).value =
      (List.range' address count).map fun a => (attempt 0 (m.read a)).value := by
  induction count generalizing address with
  | zero => rfl
  | succ count ih =>
      simp only [readBlock, value_bind, value_pure, ih, List.range'_succ, List.map_cons]

/-- Of a block, what lies in memory is read, and zeros for the rest. -/
theorem value_readBlock_eq_append (address count : Nat) :
    (m.readBlock address count).value =
      (m.bytes.toList.drop address).take count ++
        List.replicate (count - (0x1000 - address)) 0 := by
  apply List.ext_getElem
  · simp [length_readBlock]
    omega
  · intro k hk _
    rw [length_readBlock] at hk
    simp only [value_readBlock, List.getElem_map, List.getElem_range', Nat.one_mul]
    by_cases hin : address + k < 0x1000
    · have hread : k < ((m.bytes.toList.drop address).take count).length := by
        simp
        omega
      rw [List.getElem_append_left hread, List.getElem_take, List.getElem_drop, read_of_lt hin]
      simp
    · have hbehind : ((m.bytes.toList.drop address).take count).length ≤ k := by
        simp
        omega
      rw [List.getElem_append_right hbehind, List.getElem_replicate, read_of_le m (by omega)]
      rfl

theorem value_fetchRegisters (x : UInt8) (count : Nat) :
    (m.fetchRegisters x count).value =
      (List.range count).map fun k => (m.fetchRegister (x + UInt8.ofNat k)).value := by
  induction count generalizing x with
  | zero => rfl
  | succ count ih =>
      have hfirst : x + UInt8.ofNat 0 = x := UInt8.add_zero x
      simp only [fetchRegisters, value_bind, value_pure, ih, List.range_succ_eq_map, List.map_cons,
        List.map_map, hfirst, add_ofNat_succ, Function.comp_def]

end Reads

section Writes

variable {m n : Memory} {x y : UInt8}

theorem eq_with_registers (hbytes : n.bytes = m.bytes) (hi : n.i = m.i) :
    n = { m with v := n.v } := by
  rcases n with ⟨bytes, v, i⟩
  cases hbytes
  cases hi
  rfl

theorem register_putRegister (hx : x.toNat < 0x10) (value : UInt8) :
    (m.putRegister x value).value.register y = if y = x then .ok value else m.register y := by
  rw [putRegister_of_lt hx]
  exact Registers.get_set (Registers.set_of_lt hx value) y

theorem register_putFlagged (hx : x.toNat < 0x10) (value : UInt8) (flag : Bool) :
    (m.putFlagged x value flag).value.register y =
      if y = flagRegister then .ok flag.toUInt8
      else if y = x then .ok value else m.register y := by
  have hflag : flagRegister.toNat < 0x10 := by decide
  rw [putFlagged, value_bind, register_putRegister hflag, register_putRegister hx]

theorem register_putRegisters {values : List UInt8} (h : x.toNat + values.length ≤ 0x10) {k : Nat}
    (hk : k < values.length) :
    (m.putRegisters x values).value.register (x + UInt8.ofNat k) = .ok values[k] := by
  induction values generalizing m x k with
  | nil => cases hk
  | cons value rest ih =>
      rw [List.length_cons] at h hk
      have hx : x.toNat < 0x10 := by omega
      have hnext := toNat_nextRegister hx
      rw [putRegisters, value_bind]
      cases k with
      | zero =>
          have hbehind : ∀ k < rest.length, x ≠ x + 1 + UInt8.ofNat k := by
            intro k hk heq
            have hk' : (UInt8.ofNat k).toNat = k :=
              UInt8.toNat_ofNat_of_lt' (Nat.lt_trans (show k < 0x10 by omega) (by decide))
            have hsum := congrArg UInt8.toNat heq
            rw [UInt8.toNat_add, hnext, hk', Nat.mod_eq_of_lt (by omega)] at hsum
            omega
          show (Memory.putRegisters _ (x + 1) rest).value.register (x + 0) = .ok value
          rw [UInt8.add_zero, register_putRegisters_of_ne hbehind, register_putRegister hx,
            if_pos rfl]
      | succ k =>
          rw [add_ofNat_succ]
          exact ih (by omega) (by omega)

theorem read_writeBlock {address k : Nat} {data : List UInt8} (hk : k < data.length)
    (h : address + k < 0x1000) : (m.writeBlock address data).value.read (address + k) = .ok data[k] := by
  rw [read_of_lt h, getElem_writeBlock h, if_pos (Nat.le_add_right address k),
    Nat.add_sub_cancel_left, List.getElem?_eq_getElem hk]
  rfl

theorem read_writeBlock_of_not_mem {address a : Nat} {data : List UInt8}
    (h : a ∉ List.range' address data.length) :
    (m.writeBlock address data).value.read a = m.read a := by
  by_cases ha : a < 0x1000
  · rw [read_of_lt ha, read_of_lt ha, getElem_writeBlock_of_not_mem ha h]
  · rw [read_of_le _ (Nat.le_of_not_lt ha), read_of_le _ (Nat.le_of_not_lt ha)]

end Writes

end ChipEight.Memory
