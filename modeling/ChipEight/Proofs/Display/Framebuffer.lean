import ChipEight.Display.Basic

namespace ChipEight

@[ext] structure Framebuffer where
  byte : Cell → UInt8

namespace Framebuffer

def zero : Framebuffer :=
  ⟨fun _ => 0⟩

def flip (fb : Framebuffer) (c : Cell) : Framebuffer :=
  ⟨fun d => if c = d then fb.byte d ^^^ 1 else fb.byte d⟩

/-- Flips bytes one after the other, and says whether one of them was one when its turn came. -/
def flipAll (fb : Framebuffer) (cells : List Cell) : Framebuffer × Bool :=
  cells.foldl (fun flipped c => (flipped.1.flip c, flipped.2 || flipped.1.byte c = 1)) (fb, false)

end Framebuffer

theorem toUInt8_not (b : Bool) : (!b).toUInt8 = b.toUInt8 ^^^ 1 := by
  cases b with
  | false => rfl
  | true => rfl

namespace Picture

/-- The framebuffer that holds one for the lit cells and zero for the dark ones. -/
def bytes (p : Picture) : Framebuffer :=
  ⟨fun c => (p.lit c).toUInt8⟩

theorem byte_bytes_eq_one_iff {p : Picture} {c : Cell} : p.bytes.byte c = 1 ↔ p.lit c = true := by
  show (p.lit c).toUInt8 = 1 ↔ p.lit c = true
  cases p.lit c with
  | false => decide
  | true => decide

theorem byte_bytes_zero_or_one (p : Picture) (c : Cell) :
    p.bytes.byte c = 0 ∨ p.bytes.byte c = 1 := by
  show (p.lit c).toUInt8 = 0 ∨ (p.lit c).toUInt8 = 1
  cases p.lit c with
  | false => exact .inl rfl
  | true => exact .inr rfl

theorem bytes_dark : dark.bytes = .zero := by
  apply Framebuffer.ext
  funext c
  show (dark.lit c).toUInt8 = 0
  rw [lit_dark]
  rfl

theorem bytes_toggle (p : Picture) (c : Cell) : (p.toggle c).bytes = p.bytes.flip c := by
  apply Framebuffer.ext
  funext d
  show ((p.toggle c).lit d).toUInt8 =
    if c = d then (p.lit d).toUInt8 ^^^ 1 else (p.lit d).toUInt8
  rw [lit_toggle, ← toUInt8_not]
  exact apply_ite Bool.toUInt8 _ _ _

theorem flipAll_bytes (p : Picture) (cells : List Cell) :
    p.bytes.flipAll cells = Prod.map bytes id (p.toggleAll cells) := by
  show cells.foldl _ (Prod.map bytes id (p, false)) = _
  apply List.foldl_hom
  intro toggled c
  simp only [Prod.map, id_eq, ← bytes_toggle, byte_bytes_eq_one_iff, Bool.decide_eq_true]

theorem getElem_coloured (p : Picture) (palette : Palette) (c : Cell) :
    (p.coloured palette)[64 * c.y.val + c.x.val] =
      if p.bytes.byte c = 1 then palette.on else palette.off := by
  have hdiv : (64 * c.y.val + c.x.val) / 64 = c.y.val := by omega
  have hmod : (64 * c.y.val + c.x.val) % 64 = c.x.val := by omega
  have hcell : p.rows.flatten[64 * c.y.val + c.x.val] = p.lit c := by
    have hflatten :=
      @Vector.getElem_flatten Bool 64 32 p.rows (64 * c.y.val + c.x.val) (by omega)
    simp only [hdiv, hmod] at hflatten
    exact hflatten
  simp only [coloured, Vector.getElem_map, hcell, byte_bytes_eq_one_iff, Palette.colour]

theorem coloured_dark (palette : Palette) :
    dark.coloured palette = .replicate 2048 palette.off := by
  apply Vector.ext
  intro k hk
  simp [coloured, dark, Palette.colour]

theorem eq_of_coloured_eq {p q : Picture} {palette : Palette} (hcolours : palette.on ≠ palette.off)
    (h : p.coloured palette = q.coloured palette) : p = q := by
  apply ext_lit
  intro c
  have hcell := p.getElem_coloured palette c
  simp only [h, q.getElem_coloured palette c, byte_bytes_eq_one_iff] at hcell
  cases hp : p.lit c with
  | true =>
      cases hq : q.lit c with
      | true => rfl
      | false => simp [hp, hq, hcolours.symm] at hcell
  | false =>
      cases hq : q.lit c with
      | true => simp [hp, hq, hcolours] at hcell
      | false => rfl

end Picture

namespace Display

/-- The frame shows the picture in the palette. -/
def Presented (d : Display) : Prop :=
  d.frame = d.picture.coloured d.palette

theorem presented_initial (palette : Palette) : ({ palette } : Display).Presented :=
  (Picture.coloured_dark palette).symm

theorem presented_present (d : Display) : d.present.Presented := rfl

theorem presented_draw (d : Display) (x y : Nat) (sprite : Sprite) :
    (d.draw x y sprite).1.Presented := rfl

end Display

end ChipEight
