import ChipEight.Machine.Execute

namespace ChipEight.Memory

section Index

variable (m : Memory)

@[simp] theorem i_putRegister (x value : UInt8) : (m.putRegister x value).value.i = m.i := by
  unfold putRegister setRegister
  cases m.v.set x value <;> rfl

@[simp] theorem i_putFlagged (x value : UInt8) (flag : Bool) :
    (m.putFlagged x value flag).value.i = m.i := by
  simp [putFlagged]

@[simp] theorem i_combine (x y : UInt8) (f : UInt8 → UInt8 → UInt8) :
    (m.combine x y f).value.i = m.i := by
  simp [combine]

@[simp] theorem i_combineFlagged (x y : UInt8) (f : UInt8 → UInt8 → UInt8 × Bool) :
    (m.combineFlagged x y f).value.i = m.i := by
  simp [combineFlagged]

@[simp] theorem i_shift (x source : UInt8) (f : UInt8 → UInt8 × Bool) :
    (m.shift x source f).value.i = m.i := by
  simp [shift]

@[simp] theorem i_putRegisters (x : UInt8) (values : List UInt8) :
    (m.putRegisters x values).value.i = m.i := by
  induction values generalizing m x with
  | nil => rfl
  | cons value rest ih => simp [putRegisters, ih]

theorem writeBlock_eq (address : Nat) (data : List UInt8) :
    (m.writeBlock address data).value =
      { m with bytes := (m.writeBlock address data).value.bytes } := by
  induction data generalizing m address with
  | nil => rfl
  | cons byte rest ih =>
      simp only [writeBlock, Access.value_bind]
      rw [ih]
      unfold write
      split
      · rfl
      · rfl

@[simp] theorem i_writeBlock (address : Nat) (data : List UInt8) :
    (m.writeBlock address data).value.i = m.i := by
  rw [writeBlock_eq]

end Index

section Registers

variable {m : Memory} {x y : UInt8}

theorem register_putRegister_of_ne (h : y ≠ x) (value : UInt8) :
    (m.putRegister x value).value.register y = m.register y := by
  unfold putRegister setRegister
  cases hset : m.v.set x value with
  | ok v => exact (Registers.get_set hset y).trans (if_neg h)
  | error e => rfl

theorem register_putFlagged_of_ne (hx : y ≠ x) (hflag : y ≠ flagRegister) (value : UInt8)
    (flag : Bool) : (m.putFlagged x value flag).value.register y = m.register y := by
  rw [putFlagged, Access.value_bind, register_putRegister_of_ne hflag,
    register_putRegister_of_ne hx]

theorem register_writeBlock (m : Memory) (address : Nat) (data : List UInt8) (y : UInt8) :
    (m.writeBlock address data).value.register y = m.register y := by
  rw [writeBlock_eq]
  rfl

theorem add_ofNat_succ (x : UInt8) (k : Nat) : x + UInt8.ofNat (k + 1) = x + 1 + UInt8.ofNat k := by
  rw [UInt8.ofNat_add, UInt8.add_comm (UInt8.ofNat k), ← UInt8.add_assoc]
  rfl

theorem register_putRegisters_of_ne {values : List UInt8}
    (h : ∀ k < values.length, y ≠ x + UInt8.ofNat k) :
    (m.putRegisters x values).value.register y = m.register y := by
  induction values generalizing m x with
  | nil => rfl
  | cons value rest ih =>
      have hfirst : y ≠ x := by simpa using h 0 (by simp)
      have hrest : ∀ k < rest.length, y ≠ x + 1 + UInt8.ofNat k := by
        intro k hk
        have hnext := h (k + 1) (by simpa using hk)
        rwa [add_ofNat_succ] at hnext
      rw [putRegisters, Access.value_bind, ih hrest, register_putRegister_of_ne hfirst]

end Registers

end ChipEight.Memory
