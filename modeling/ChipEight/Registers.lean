import ChipEight.Access

namespace ChipEight

/-- The number of the flag register, which arithmetic, shifts and drawing overwrite. -/
def flagRegister : UInt8 := 0xF

structure Registers where
  values : Vector UInt8 16 := .replicate 16 0
deriving DecidableEq

namespace Registers

def get (v : Registers) (index : UInt8) : Except AccessError UInt8 :=
  if h : index.toNat < 16 then .ok v.values[index.toNat] else .error (.noSuchRegister index)

def set (v : Registers) (index value : UInt8) : Except AccessError Registers :=
  if h : index.toNat < 16 then .ok ⟨v.values.set index.toNat value⟩
  else .error (.noSuchRegister index)

theorem get_set {v w : Registers} {x value : UInt8} (h : v.set x value = .ok w) (y : UInt8) :
    w.get y = if y = x then .ok value else v.get y := by
  unfold set at h
  split at h
  · cases h
    unfold get
    by_cases hy : y = x
    · subst hy
      simp [*]
    · have : x.toNat ≠ y.toNat := fun hxy => hy (UInt8.toNat_inj.mp hxy.symm)
      simp [hy, this]
  · cases h

end Registers

end ChipEight
