namespace ChipEight

/-- The return addresses of the calls in progress. -/
structure CallStack where
  slots : Vector UInt16 16
  depth : Nat
  depth_le : depth ≤ 16
deriving DecidableEq

namespace CallStack

def empty : CallStack :=
  { slots := .replicate 16 0, depth := 0, depth_le := Nat.zero_le 16 }

/-- The return addresses, the newest first. -/
def toList (s : CallStack) : List UInt16 :=
  (s.slots.toList.take s.depth).reverse

/-- Puts a return address on top, if there is a slot left. -/
def push? (s : CallStack) (address : UInt16) : Option CallStack :=
  if h : s.depth < 16 then
    some { slots := s.slots.set s.depth address, depth := s.depth + 1, depth_le := h }
  else
    none

/-- Takes the return address off the top, if there is one. -/
def pop? (s : CallStack) : Option (UInt16 × CallStack) :=
  if h : s.depth = 0 then none
  else
    have hle := s.depth_le
    some (s.slots[s.depth - 1],
      { s with depth := s.depth - 1, depth_le := Nat.le_trans (Nat.sub_le _ _) hle })

def clear (s : CallStack) : CallStack :=
  { s with depth := 0, depth_le := Nat.zero_le 16 }

theorem length_toList (s : CallStack) : s.toList.length = s.depth := by
  have := s.depth_le
  simp [toList]
  omega

theorem toList_clear (s : CallStack) : s.clear.toList = [] := by
  simp [toList, clear]

theorem toList_of_push {s t : CallStack} {address : UInt16} (h : s.push? address = some t) :
    t.toList = address :: s.toList := by
  unfold push? at h
  split at h
  · cases h
    simp only [toList, Vector.toList_set]
    rw [List.take_succ_eq_append_getElem (by simpa)]
    simp [List.take_set_of_le]
  · cases h

theorem push?_eq_none_iff {s : CallStack} {address : UInt16} :
    s.push? address = none ↔ s.toList.length = 16 := by
  have := s.depth_le
  rw [length_toList]
  unfold push?
  split <;> simp <;> omega

theorem toList_of_pop {s t : CallStack} {address : UInt16} (h : s.pop? = some (address, t)) :
    s.toList = address :: t.toList := by
  unfold pop? at h
  split at h
  · cases h
  next hdepth =>
    have hle := s.depth_le
    cases h
    simp only [toList]
    obtain ⟨d, hd⟩ : ∃ d, s.depth = d + 1 := ⟨s.depth - 1, by omega⟩
    have hlen : d < s.slots.toList.length := by
      simp
      omega
    simp only [hd, Nat.add_sub_cancel]
    rw [List.take_succ_eq_append_getElem hlen]
    simp

theorem pop?_eq_none_iff {s : CallStack} : s.pop? = none ↔ s.toList = [] := by
  rw [← List.length_eq_zero_iff, length_toList]
  unfold pop?
  split <;> simp [*]

end CallStack

end ChipEight
