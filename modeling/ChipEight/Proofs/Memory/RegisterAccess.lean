import ChipEight.Machine.Execute

namespace ChipEight

namespace Access

variable {α β : Type}

@[simp] theorem value_map (f : α → β) (a : Access α) : (f <$> a).value = f a.value := rfl

@[simp] theorem rejected_map (f : α → β) (a : Access α) : (f <$> a).rejected = a.rejected := by
  show a.rejected ++ [] = a.rejected
  exact List.append_nil _

/-- No access to a register was rejected. -/
def SparesRegisters (a : Access α) : Prop :=
  ∀ x, AccessError.noSuchRegister x ∉ a.rejected

theorem sparesRegisters_pure (a : α) : (pure a : Access α).SparesRegisters := by
  rintro x ⟨⟩

end Access

namespace Registers

theorem get_of_lt {v : Registers} {x : UInt8} (hx : x.toNat < 0x10) :
    v.get x = .ok v.values[x.toNat] :=
  dif_pos hx

theorem set_of_lt {v : Registers} {x : UInt8} (hx : x.toNat < 0x10) (value : UInt8) :
    v.set x value = .ok ⟨v.values.set x.toNat value⟩ :=
  dif_pos hx

theorem ext_get {v w : Registers} (h : ∀ x, v.get x = w.get x) : v = w := by
  rcases v with ⟨v⟩
  rcases w with ⟨w⟩
  congr 1
  apply Vector.ext
  intro k hk
  have hx : (UInt8.ofNat k).toNat = k := UInt8.toNat_ofNat_of_lt' (Nat.lt_trans hk (by decide))
  have hregister := h (UInt8.ofNat k)
  rw [get_of_lt (by omega), get_of_lt (by omega)] at hregister
  simpa [hx] using hregister

end Registers

namespace Memory

open Access

theorem fetchRegister_of_lt {m : Memory} {x : UInt8} (hx : x.toNat < 0x10) :
    m.fetchRegister x = pure m.v.values[x.toNat] := by
  rw [fetchRegister, register, Registers.get_of_lt hx, attempt_ok]

theorem putRegister_of_lt {m : Memory} {x : UInt8} (hx : x.toNat < 0x10) (value : UInt8) :
    m.putRegister x value = pure { m with v := ⟨m.v.values.set x.toNat value⟩ } := by
  rw [putRegister, setRegister, Registers.set_of_lt hx]
  rfl

section Rejected

variable {m : Memory} {x y : UInt8}

theorem sparesRegisters_putRegister (hx : x.toNat < 0x10) (value : UInt8) :
    (m.putRegister x value).SparesRegisters := by
  rw [putRegister_of_lt hx]
  exact sparesRegisters_pure _

theorem rejected_combine (hx : x.toNat < 0x10) (hy : y.toNat < 0x10)
    (f : UInt8 → UInt8 → UInt8) : (m.combine x y f).rejected = [] := by
  simp [combine, fetchRegister_of_lt hx, fetchRegister_of_lt hy, putRegister_of_lt hx]

theorem rejected_putFlagged (hx : x.toNat < 0x10) (value : UInt8) (flag : Bool) :
    (m.putFlagged x value flag).rejected = [] := by
  have hflag : flagRegister.toNat < 0x10 := by decide
  simp [putFlagged, putRegister_of_lt hx, putRegister_of_lt hflag]

theorem rejected_combineFlagged (hx : x.toNat < 0x10) (hy : y.toNat < 0x10)
    (f : UInt8 → UInt8 → UInt8 × Bool) : (m.combineFlagged x y f).rejected = [] := by
  simp [combineFlagged, fetchRegister_of_lt hx, fetchRegister_of_lt hy, rejected_putFlagged hx]

theorem rejected_shift (hx : x.toNat < 0x10) (hy : y.toNat < 0x10)
    (f : UInt8 → UInt8 × Bool) : (m.shift x y f).rejected = [] := by
  simp [shift, fetchRegister_of_lt hy, rejected_putFlagged hx]

theorem toNat_nextRegister (hx : x.toNat < 0x10) : (x + 1).toNat = x.toNat + 1 := by
  rw [UInt8.toNat_add]
  exact Nat.mod_eq_of_lt (by simp; omega)

theorem rejected_fetchRegisters {count : Nat} (h : x.toNat + count ≤ 0x10) :
    (m.fetchRegisters x count).rejected = [] := by
  induction count generalizing x with
  | zero => rfl
  | succ count ih =>
      have hx : x.toNat < 0x10 := by omega
      have hnext := toNat_nextRegister hx
      have hrest := ih (x := x + 1) (by omega)
      simp [fetchRegisters, fetchRegister_of_lt hx, hrest]

theorem rejected_putRegisters {values : List UInt8} (h : x.toNat + values.length ≤ 0x10) :
    (m.putRegisters x values).rejected = [] := by
  induction values generalizing m x with
  | nil => rfl
  | cons value rest ih =>
      rw [List.length_cons] at h
      have hx : x.toNat < 0x10 := by omega
      have hnext := toNat_nextRegister hx
      have hrest := fun n : Memory => ih (m := n) (x := x + 1) (by omega)
      simp [putRegisters, putRegister_of_lt hx, hrest]

/-- The addresses of a block that lie behind the end of memory. -/
def outside (address count : Nat) : List Nat :=
  (List.range' address count).filter (0x1000 ≤ ·)

theorem outside_succ (address count : Nat) :
    outside address (count + 1) =
      (if 0x1000 ≤ address then [address] else []) ++ outside (address + 1) count := by
  rw [outside, List.range'_succ, List.filter_cons]
  by_cases h : 0x1000 ≤ address
  · simp [h, outside]
  · simp [h, outside]

theorem rejected_attempt_read (address : Nat) :
    (attempt 0 (m.read address)).rejected =
      (if 0x1000 ≤ address then [address] else []).map .noSuchAddress := by
  unfold read
  by_cases h : address < 0x1000
  · rw [dif_pos h, if_neg (by omega)]
    rfl
  · rw [dif_neg h, if_pos (by omega)]
    rfl

theorem rejected_attempt_write (address : Nat) (byte : UInt8) :
    (attempt m (m.write address byte)).rejected =
      (if 0x1000 ≤ address then [address] else []).map .noSuchAddress := by
  unfold write
  by_cases h : address < 0x1000
  · rw [dif_pos h, if_neg (by omega)]
    rfl
  · rw [dif_neg h, if_pos (by omega)]
    rfl

theorem rejected_readBlock (address count : Nat) :
    (m.readBlock address count).rejected = (outside address count).map .noSuchAddress := by
  induction count generalizing address with
  | zero => rfl
  | succ count ih =>
      simp [readBlock, rejected_attempt_read, ih, outside_succ]

theorem rejected_writeBlock (address : Nat) (data : List UInt8) :
    (m.writeBlock address data).rejected = (outside address data.length).map .noSuchAddress := by
  induction data generalizing m address with
  | nil => rfl
  | cons byte rest ih =>
      simp [writeBlock, rejected_attempt_write, ih, outside_succ]

theorem length_readBlock (address count : Nat) :
    (m.readBlock address count).value.length = count := by
  induction count generalizing address with
  | zero => rfl
  | succ count ih =>
      have hrest := ih (address + 1)
      simp [readBlock, hrest]

end Rejected

end Memory

end ChipEight
