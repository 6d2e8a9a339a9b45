import ChipEight.Proofs.Memory.Contents

namespace ChipEight.Memory

open Access

/-- Writes the bytes of `data` one by one from the address `start` on. -/
def writeEach (m : Memory) (start : Nat) (data : List UInt8) : Except AccessError Memory :=
  (data.zipIdx start).foldlM (fun m (byte, address) => m.write address byte) m

/-- A write to memory: of one byte, or of a slice. -/
inductive Store
  | byte (address : Nat) (value : UInt8)
  | slice (start : Nat) (data : List UInt8)
deriving DecidableEq, Repr

namespace Store

/-- All of the write lies in memory. -/
def Fits : Store → Prop
  | byte address _ => address < 0x1000
  | slice start data => start < 0x1000 ∧ start + data.length ≤ 0x1000

instance : DecidablePred Fits
  | byte address _ => inferInstanceAs (Decidable (address < 0x1000))
  | slice start data =>
    inferInstanceAs (Decidable (start < 0x1000 ∧ start + data.length ≤ 0x1000))

/-- The byte for an address, if the write covers it. -/
def byteAt? : Store → Nat → Option UInt8
  | byte address value, a => if a = address then some value else none
  | slice start data, a => if start ≤ a then data[a - start]? else none

end Store

def store (m : Memory) : Store → Except AccessError Memory
  | .byte address value => m.write address value
  | .slice start data => m.writeSlice start data

/-- Memory after writes of which the rejected ones change nothing. -/
def storeAll (m : Memory) (stores : List Store) : Access Memory :=
  stores.foldlM (fun m s => attempt m (m.store s)) m

/-- The second memory is the first one with `data` laid over it. -/
structure Overlaid (m n : Memory) (start : Nat) (data : List UInt8) : Prop where
  inside : ∀ k (hk : k < data.length), n.read (start + k) = .ok data[k]
  outside : ∀ a, a < start ∨ start + data.length ≤ a → n.read a = m.read a
  registers : n.v = m.v
  index : n.i = m.i

section Slice

variable {m n : Memory} {start : Nat} {data : List UInt8}

theorem writeSlice_of_not_fits (h : ¬(Store.slice start data).Fits) :
    m.writeSlice start data =
      .error (.noSuchAddress (if 0x1000 ≤ start then start else start + data.length - 1)) := by
  unfold writeSlice
  split
  · next hstart =>
      rw [dif_neg fun hend => h ⟨hstart, hend⟩, if_neg (by omega)]
  · rw [if_pos (by omega)]

theorem writeEach_of_le (h : start + data.length ≤ 0x1000) :
    m.writeEach start data = .ok { m with bytes := overlay m.bytes start data h } := by
  induction data generalizing m start with
  | nil => rfl
  | cons byte rest ih =>
      rw [List.length_cons] at h
      have hbyte : m.write start byte = .ok { m with bytes := m.bytes.set start byte } :=
        dif_pos (by omega)
      rw [writeEach, List.zipIdx_cons, List.foldlM_cons]
      simp only [hbyte]
      exact ih (by omega)

theorem overlaid_of_writeSlice (h : m.writeSlice start data = .ok n) :
    m.Overlaid n start data := by
  by_cases hfits : (Store.slice start data).Fits
  · rw [writeSlice_of_le hfits.1 hfits.2] at h
    cases h
    have hend := hfits.2
    refine ⟨?_, ?_, rfl, rfl⟩
    · intro k hk
      rw [read_of_lt (by omega), getElem_overlay (by omega), dif_pos (by omega)]
      simp
    · intro a ha
      by_cases hin : a < 0x1000
      · rw [read_of_lt hin, read_of_lt hin, getElem_overlay hin, dif_neg (by omega)]
      · rw [read_of_le _ (by omega), read_of_le _ (by omega)]
  · rw [writeSlice_of_not_fits hfits] at h
    cases h

end Slice

section Stores

variable {m : Memory} {s : Store} {a : Nat}

theorem store_ok_iff : (∃ n, m.store s = .ok n) ↔ s.Fits := by
  cases s with
  | byte address value =>
      simp only [store, write, Store.Fits]
      split <;> simp [*]
  | slice start data =>
      simp only [store]
      by_cases hfits : (Store.slice start data).Fits
      · rw [writeSlice_of_le hfits.1 hfits.2]
        exact iff_of_true ⟨_, rfl⟩ hfits
      · rw [writeSlice_of_not_fits hfits]
        exact iff_of_false (by simp) hfits

theorem getElem_attempt_store (ha : a < 0x1000) :
    (attempt m (m.store s)).value.bytes[a] =
      (if s.Fits then s.byteAt? a else none).getD m.bytes[a] := by
  cases s with
  | byte address value =>
      simp only [store, getElem_attempt_write ha, Store.Fits, Store.byteAt?]
      by_cases heq : a = address
      · simp [heq, heq ▸ ha]
      · simp [heq]
  | slice start data =>
      by_cases hfits : (Store.slice start data).Fits
      · have hwritten : m.store (.slice start data) = .ok _ := writeSlice_of_le hfits.1 hfits.2
        rw [hwritten, if_pos hfits]
        show (overlay m.bytes start data hfits.2)[a] = _
        rw [getElem_overlay ha]
        simp only [Store.byteAt?]
        by_cases hstart : start ≤ a
        · by_cases hend : a < start + data.length
          · rw [dif_pos ⟨hstart, hend⟩, if_pos hstart, List.getElem?_eq_getElem (by omega)]
            rfl
          · rw [dif_neg (by omega), if_pos hstart, List.getElem?_eq_none (by omega)]
            rfl
        · rw [dif_neg (by omega), if_neg hstart]
          rfl
      · have hrejected : m.store (.slice start data) = .error _ := writeSlice_of_not_fits hfits
        rw [hrejected, if_neg hfits]
        rfl

theorem getElem_storeAll (m : Memory) (stores : List Store) (ha : a < 0x1000) :
    (m.storeAll stores).value.bytes[a] =
      ((stores.filter (·.Fits)).filterMap (·.byteAt? a)).getLast?.getD m.bytes[a] := by
  induction stores generalizing m with
  | nil => rfl
  | cons s rest ih =>
      have hrest : (m.storeAll (s :: rest)).value =
          ((attempt m (m.store s)).value.storeAll rest).value := rfl
      rw [hrest, ih, getElem_attempt_store ha]
      by_cases hfits : s.Fits
      · cases hbyte : s.byteAt? a with
        | none => simp [hfits, hbyte]
        | some value => simp [hfits, hbyte, List.getLast?_cons]
      · simp [hfits]

end Stores

theorem last_accepted_write_read_back :
    (∀ (m : Memory) (start : Nat) (data : List UInt8),
      ((∃ n, m.writeSlice start data = .ok n) ↔
        start < 0x1000 ∧ start + data.length ≤ 0x1000) ∧
      (∀ n, m.writeSlice start data = .ok n →
        m.writeEach start data = .ok n ∧ m.Overlaid n start data) ∧
      (∀ e, m.writeSlice start data = .error e →
        m.storeAll [.slice start data] = { value := m, rejected := [e] } ∧
          e = .noSuchAddress (if 0x1000 ≤ start then start else start + data.length - 1))) ∧
    (∀ (m : Memory) (s : Store), (∃ n, m.store s = .ok n) ↔ s.Fits) ∧
    ∀ (stores : List Store) (a : Nat),
      (({} : Memory).storeAll stores).value.read a =
        if a < 0x1000 then
          .ok (((stores.filter (·.Fits)).filterMap (·.byteAt? a)).getLast?.getD 0)
        else .error (.noSuchAddress a) := by
  refine ⟨?_, fun m s => store_ok_iff, ?_⟩
  · intro m start data
    refine ⟨store_ok_iff (s := .slice start data), ?_, ?_⟩
    · intro n h
      refine ⟨?_, overlaid_of_writeSlice h⟩
      obtain ⟨hstart, hend⟩ : (Store.slice start data).Fits := store_ok_iff.mp ⟨n, h⟩
      rw [writeEach_of_le hend, ← writeSlice_of_le hstart hend, h]
    · intro e h
      have hfits : ¬(Store.slice start data).Fits := by
        rintro ⟨hstart, hend⟩
        rw [writeSlice_of_le hstart hend] at h
        cases h
      refine ⟨?_, ?_⟩
      · show attempt m (m.writeSlice start data) >>= pure = _
        rw [h]
        rfl
      · rw [writeSlice_of_not_fits hfits] at h
        cases h
        rfl
  · intro stores a
    by_cases ha : a < 0x1000
    · rw [if_pos ha, read_of_lt ha, getElem_storeAll _ _ ha]
      simp
    · rw [if_neg ha, read_of_le _ (by omega)]

end ChipEight.Memory
