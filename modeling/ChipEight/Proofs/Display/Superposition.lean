import ChipEight.Proofs.Display.Framebuffer
import ChipEight.Proofs.Display.Toggling
import Mathlib.Logic.Basic

namespace ChipEight

theorem exists_pixel_iff {row : UInt8} :
    (∃ column < 8, Sprite.pixel row column = true) ↔ ∃ k < 8, row.toNat.testBit k = true := by
  constructor
  · rintro ⟨column, hcolumn, hset⟩
    exact ⟨7 - column, by omega, hset⟩
  · rintro ⟨k, hk, hset⟩
    refine ⟨7 - k, by omega, ?_⟩
    rw [Sprite.pixel, show 7 - (7 - k) = k by omega]
    exact hset

theorem Sprite.cells_ne_nil_iff (w : Wrap) (x y : Nat) (sprite : Sprite) :
    cells w x y sprite ≠ [] ↔ ∃ row ∈ sprite, ∃ k < 8, row.toNat.testBit k = true := by
  induction sprite generalizing y with
  | nil => simp
  | cons row rest ih =>
      have hrow : rowCells w x y row ≠ [] ↔ ∃ column < 8, pixel row column = true := by
        simp [rowCells]
      rw [cells_cons, Ne, List.append_eq_nil_iff, not_and_or, ← Ne, ← Ne, hrow, ih,
        exists_pixel_iff]
      simp only [List.mem_cons, exists_eq_or_imp]

theorem Sprite.cells_append (w : Wrap) (x y : Nat) (sprite more : Sprite) :
    cells w x y (sprite ++ more) = cells w x y sprite ++ cells w x (y + sprite.length) more := by
  induction sprite generalizing y with
  | nil => rfl
  | cons row rest ih =>
      rw [List.cons_append, cells_cons, ih, cells_cons, List.append_assoc, List.length_cons,
        Nat.add_assoc, Nat.add_comm 1]

theorem Sprite.cells_append_replicate_zero (w : Wrap) (x y : Nat) (sprite : Sprite) (count : Nat) :
    cells w x y (sprite ++ List.replicate count 0) = cells w x y sprite := by
  have hblank : cells w x (y + sprite.length) (List.replicate count 0) = [] := by
    refine not_ne_iff.mp fun hset => ?_
    obtain ⟨row, hrow, k, -, hbit⟩ := (cells_ne_nil_iff _ _ _ _).mp hset
    rw [List.eq_of_mem_replicate hrow, UInt8.toNat_zero, Nat.zero_testBit] at hbit
    cases hbit
  rw [cells_append, hblank, List.append_nil]

namespace Display

theorem draw_draw (d : Display) (x y : Nat) (sprite : Sprite) (x' y' : Nat) (sprite' : Sprite) :
    let first := d.draw x y sprite
    let second := first.1.draw x' y' sprite'
    (second.1, first.2 || second.2) =
      d.toggleAll (sprite.cells d.wrap x y ++ sprite'.cells d.wrap x' y') :=
  (d.toggleAll_append _ _).symm

theorem draw_draw_self (d : Display) (x y : Nat) (sprite : Sprite) :
    let first := d.draw x y sprite
    let second := first.1.draw x y sprite
    (second.1, first.2 || second.2) =
      ({ d with dirty := true }.present, !(sprite.cells d.wrap x y).isEmpty) := by
  intro first second
  rw [draw_draw, toggleAll, Picture.toggleAll_append_self]

/-- Displays as they can be: set up in a palette, and changed since by the operations on displays. -/
inductive Reachable : Display → Prop
  | initial (palette : Palette) : Reachable { palette }
  | setPalette {d : Display} (h : Reachable d) (palette : Palette) : Reachable (d.setPalette palette)
  | setWrap {d : Display} (h : Reachable d) (wrap : Wrap) : Reachable { d with wrap }
  | clear {d : Display} (h : Reachable d) : Reachable d.clear
  | draw {d : Display} (h : Reachable d) (x y : Nat) (sprite : Sprite) :
      Reachable (d.draw x y sprite).1
  | takeDirty {d : Display} (h : Reachable d) : Reachable d.takeDirty.1

theorem Reachable.presented {d : Display} (h : d.Reachable) : d.Presented := by
  induction h with
  | initial palette => exact presented_initial palette
  | setPalette | clear | draw => exact presented_present _
  | setWrap _ _ ih | takeDirty _ ih => exact ih

/-- The frame comes back if it showed the picture, as it does in every reachable display
(`Reachable.presented`). -/
theorem drawings_commute_and_cancel (d : Display) (x₁ y₁ : Nat) (sprite₁ : Sprite) (x₂ y₂ : Nat)
    (sprite₂ : Sprite) :
    let first := d.draw x₁ y₁ sprite₁
    let second := first.1.draw x₂ y₂ sprite₂
    let first' := d.draw x₂ y₂ sprite₂
    let second' := first'.1.draw x₁ y₁ sprite₁
    let again := first.1.draw x₁ y₁ sprite₁
    second.1 = second'.1 ∧
      (first.2 || second.2) = (first'.2 || second'.2) ∧
      again.1.picture = d.picture ∧
      (d.Presented → again.1.frame = d.frame) ∧
      ((first.2 || again.2) = true ↔ ∃ row ∈ sprite₁, ∃ k < 8, row.toNat.testBit k = true) := by
  intro first second first' second' again
  have hboth : (second.1, first.2 || second.2) = (second'.1, first'.2 || second'.2) := by
    rw [draw_draw, d.toggleAll_perm List.perm_append_comm]
    exact (draw_draw d x₂ y₂ sprite₂ x₁ y₁ sprite₁).symm
  have hself : (again.1, first.2 || again.2) =
      ({ d with dirty := true }.present, !(sprite₁.cells d.wrap x₁ y₁).isEmpty) :=
    draw_draw_self d x₁ y₁ sprite₁
  obtain ⟨hdisplay, hcollision⟩ := Prod.mk.inj hboth
  obtain ⟨hundone, hmet⟩ := Prod.mk.inj hself
  refine ⟨hdisplay, hcollision, ?_, ?_, ?_⟩
  · rw [hundone]
    rfl
  · intro hpresented
    rw [hundone]
    exact hpresented.symm
  · rw [hmet, ← Sprite.cells_ne_nil_iff d.wrap x₁ y₁]
    simp

/-- Whichever of the two sprites is drawn first meets the lit cell in the corner, which is then dark
for the other one. -/
theorem drawings_commute_and_cancel_at_lit_corner :
    let red : Palette := { on := ⟨255, 0, 0, 255⟩ }
    let d := (({ ({} : Display).setPalette red with wrap := .narrow } : Display).draw 0 0 [0x80]).1
    let first := d.draw 62 0 [0xFF]
    let second := first.1.draw 0 0 [0x80]
    let first' := d.draw 0 0 [0x80]
    let second' := first'.1.draw 62 0 [0xFF]
    let again := first.1.draw 62 0 [0xFF]
    d.Presented ∧ second.1 = second'.1 ∧ again.1.frame = d.frame ∧
      first.2 = true ∧ second.2 = false ∧ first'.2 = true ∧ second'.2 = false := by
  intro red d first second first' second' again
  have hpresented : d.Presented :=
    (((Reachable.initial {}).setPalette red).setWrap .narrow |>.draw 0 0 [0x80]).presented
  obtain ⟨hdisplay, -, -, hframe, -⟩ := d.drawings_commute_and_cancel 62 0 [0xFF] 0 0 [0x80]
  exact ⟨hpresented, hdisplay, hframe hpresented, by decide +kernel⟩

end Display

end ChipEight
