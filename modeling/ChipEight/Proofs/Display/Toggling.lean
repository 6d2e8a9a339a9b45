import ChipEight.Display.Basic
import Mathlib.Data.Nat.Bits

namespace ChipEight

namespace Picture

variable {p : Picture} {c : Cell} {cells more : List Cell}

theorem toggleAll_nil (p : Picture) : p.toggleAll [] = (p, false) := rfl

theorem foldl_toggle (p : Picture) (hit : Bool) (cells : List Cell) :
    cells.foldl (fun (q, hit) c => (q.toggle c, hit || q.lit c)) (p, hit) =
      ((p.toggleAll cells).1, hit || (p.toggleAll cells).2) := by
  let earlier : Picture × Bool → Picture × Bool := fun toggled => (toggled.1, hit || toggled.2)
  have hstart : (p, hit) = earlier (p, false) := by
    simp [earlier]
  rw [hstart]
  apply List.foldl_hom earlier
  intro toggled c
  simp [earlier, Bool.or_assoc]

theorem toggleAll_append (p : Picture) (cells more : List Cell) :
    p.toggleAll (cells ++ more) =
      (((p.toggleAll cells).1.toggleAll more).1,
        (p.toggleAll cells).2 || ((p.toggleAll cells).1.toggleAll more).2) := by
  rw [toggleAll, List.foldl_append]
  exact foldl_toggle _ _ _

theorem toggleAll_cons (p : Picture) (c : Cell) (cells : List Cell) :
    p.toggleAll (c :: cells) =
      (((p.toggle c).toggleAll cells).1, p.lit c || ((p.toggle c).toggleAll cells).2) := by
  rw [toggleAll, List.foldl_cons]
  exact foldl_toggle _ _ _

theorem lit_toggleAll (p : Picture) (cells : List Cell) (c : Cell) :
    (p.toggleAll cells).1.lit c = (p.lit c ^^ (cells.count c).bodd) := by
  induction cells generalizing p with
  | nil => simp [toggleAll_nil]
  | cons d cells ih =>
      rw [toggleAll_cons, ih, lit_toggle, List.count_cons]
      by_cases hd : d = c
      · simp [hd]
      · simp [hd]

/-- A lit cell is met if a cell is lit at the start, or toggled again. -/
theorem collided_iff :
    (p.toggleAll cells).2 = true ↔
      ∃ c, 1 ≤ cells.count c ∧ (p.lit c = true ∨ 2 ≤ cells.count c) := by
  induction cells generalizing p with
  | nil => simp [toggleAll_nil]
  | cons d cells ih =>
      rw [toggleAll_cons, Bool.or_eq_true, ih]
      constructor
      · rintro (hlit | ⟨c, hmem, hmet⟩)
        · exact ⟨d, by simp, .inl hlit⟩
        -- If the cell toggled first is the one that is met later, it occurs twice.
        · by_cases hd : d = c
          · subst hd
            exact ⟨d, by simp, .inr (by simpa using hmem)⟩
          · rw [lit_toggle, if_neg hd] at hmet
            refine ⟨c, ?_⟩
            rw [List.count_cons_of_ne hd]
            exact ⟨hmem, hmet⟩
      · rintro ⟨c, hmem, hmet⟩
        by_cases hd : d = c
        · subst hd
          rw [List.count_cons_self] at hmet
          cases hlit : p.lit d with
          | true => exact .inl rfl
          | false =>
              refine .inr ⟨d, ?_, ?_⟩
              · simpa [hlit] using hmet
              · simp [lit_toggle, hlit]
        · rw [List.count_cons_of_ne hd] at hmem hmet
          refine .inr ⟨c, hmem, ?_⟩
          rw [lit_toggle, if_neg hd]
          exact hmet

theorem toggleAll_perm (p : Picture) (h : cells.Perm more) : p.toggleAll cells = p.toggleAll more := by
  refine Prod.ext (ext_lit ?_) ?_
  · intro c
    rw [lit_toggleAll, lit_toggleAll, h.count_eq]
  · rw [Bool.eq_iff_iff, collided_iff, collided_iff]
    simp only [h.count_eq]

/-- The second time undoes the first one, and meets again every cell that there is. -/
theorem toggleAll_append_self (p : Picture) (cells : List Cell) :
    p.toggleAll (cells ++ cells) = (p, !cells.isEmpty) := by
  refine Prod.ext (ext_lit ?_) ?_
  · intro c
    rw [lit_toggleAll, List.count_append, Nat.bodd_add, Bool.xor_self, Bool.xor_false]
  · rw [Bool.eq_iff_iff, collided_iff]
    constructor
    · rintro ⟨c, hmem, -⟩
      cases cells with
      | nil => simp at hmem
      | cons => rfl
    · intro hsome
      cases cells with
      | nil => cases hsome
      | cons c cells =>
          refine ⟨c, ?_, .inr ?_⟩
          · simp
          · simp [List.count_append]
            omega

end Picture

namespace Display

/-- Toggles cells of the picture, and says whether one of them was lit when its turn came. -/
def toggleAll (d : Display) (cells : List Cell) : Display × Bool :=
  ({ d with picture := (d.picture.toggleAll cells).1, dirty := true }.present,
    (d.picture.toggleAll cells).2)

theorem draw_eq_toggleAll (d : Display) (x y : Nat) (sprite : Sprite) :
    d.draw x y sprite = d.toggleAll (sprite.cells d.wrap x y) := rfl

theorem toggleAll_append (d : Display) (cells more : List Cell) :
    d.toggleAll (cells ++ more) =
      (((d.toggleAll cells).1.toggleAll more).1,
        (d.toggleAll cells).2 || ((d.toggleAll cells).1.toggleAll more).2) := by
  rw [toggleAll, Picture.toggleAll_append]
  rfl

theorem toggleAll_perm (d : Display) {cells more : List Cell} (h : cells.Perm more) :
    d.toggleAll cells = d.toggleAll more := by
  rw [toggleAll, d.picture.toggleAll_perm h, toggleAll]

end Display

end ChipEight
