import ChipEight.Proofs.Machine.Adjustment
import ChipEight.Proofs.Machine.Coherence

namespace ChipEight

theorem Wrap.cell_eq_of_lt {x : Nat} (h : x < 63) (v w : Wrap) (y : Nat) :
    v.cell x y = w.cell x y := by
  have hmod : ∀ w : Wrap, x % w.width = x := by
    intro w
    apply Nat.mod_eq_of_lt
    cases w with
    | full => exact Nat.lt_of_lt_of_le h (by decide)
    | narrow => exact h
  simp only [cell, hmod]

namespace Sprite

/-- A set pixel lies at column 63 or to the right of it when the sprite is drawn at column `x`. -/
def reachesEdge (x : Nat) (sprite : Sprite) : Bool :=
  sprite.any fun row => (List.range 8).any fun column => pixel row column && 63 ≤ x + column

theorem cells_eq_of_not_reachesEdge {x : Nat} {sprite : Sprite} (h : ¬ sprite.reachesEdge x)
    (v w : Wrap) (y : Nat) : cells v x y sprite = cells w x y sprite := by
  simp only [reachesEdge, List.any_eq_true, not_exists, not_and, Bool.and_eq_true,
    decide_eq_true_eq] at h
  induction sprite generalizing y with
  | nil => rfl
  | cons row rest ih =>
      have hrow : rowCells v x y row = rowCells w x y row := by
        apply List.map_congr_left
        intro column hcolumn
        obtain ⟨hcolumn, hpixel⟩ := List.mem_filter.mp hcolumn
        have hlt := h row List.mem_cons_self column hcolumn hpixel
        exact Wrap.cell_eq_of_lt (by omega) v w y
      have hrest := ih (y + 1) fun row hmem => h row (List.mem_cons_of_mem _ hmem)
      rw [cells_cons, cells_cons, hrow, hrest]

end Sprite

theorem Display.draw_with_wrap {d : Display} {w : Wrap} {x y : Nat} {sprite : Sprite}
    (h : sprite.cells w x y = sprite.cells d.wrap x y) :
    ({ d with wrap := w } : Display).draw x y sprite =
      ({ (d.draw x y sprite).1 with wrap := w }, (d.draw x y sprite).2) := by
  simp only [draw, h]
  rfl

def Setting.changesDialect : Setting → Bool
  | dialect _ | legacyShift _ | jumpAddOffset _ | memoryIncrementI _ | legacyWrap _ => true
  | opsPerCycle _ | palette _ | seed _ => false

namespace Machine

/-- The instruction, executed next, may work differently in the dialect `d` than in the machine's
own. -/
def distinguishes (m : Machine) (d : Dialect) : Instruction → Bool
  | .shiftRight x y | .shiftLeft x y =>
    m.config.dialect.legacyShift ≠ d.legacyShift && m.registerValue x ≠ m.registerValue y
  | .jumpPlus address =>
    m.config.dialect.jumpAddOffset ≠ d.jumpAddOffset &&
      m.registerValue (address >>> 8).toUInt8 ≠ m.registerValue 0
  | .store _ | .load _ => m.config.dialect.memoryIncrementI ≠ d.memoryIncrementI
  | .draw x _ rows =>
    m.config.dialect.legacyWrap ≠ d.legacyWrap &&
      Sprite.reachesEdge (m.registerValue x).toNat
        (m.memory.readBlock m.memory.i.toNat rows.toNat).value
  | _ => false

/-- The two machines are equal but for their dialects, and for the wrapping of their displays. -/
def EqualButDialect (m n : Machine) : Prop :=
  n =
    { m with
      config := { m.config with dialect := n.config.dialect }
      display := { m.display with wrap := n.display.wrap } }

end Machine

def Adjustment.dialect (d : Dialect) : Adjustment where
  config c := { c with dialect := d }
  display s := { s with wrap := d.wrap }
  opsPerCycle _ := rfl
  clear _ := rfl
  takeDirty _ := rfl

namespace Machine

section Effect

variable {m : Machine} {d : Dialect} {i : Instruction}

theorem apply_dialect (m : Machine) (d : Dialect) :
    (Adjustment.dialect d).apply m = m.setDialect d := rfl

theorem registerValue_choice {p q : Bool} {x y : UInt8}
    (h : q = p ∨ m.registerValue x = m.registerValue y) :
    m.registerValue (if p then x else y) = m.registerValue (if q then x else y) := by
  rcases h with rfl | hequal
  · rfl
  · cases p <;> cases q <;> simp [hequal]

theorem shiftSource_setDialect {x y : UInt8} (h : ¬ m.distinguishes d (.shiftRight x y)) :
    m.registerValue ((m.setDialect d).shiftSource x y) = m.registerValue (m.shiftSource x y) := by
  have heither : m.config.dialect.legacyShift = d.legacyShift ∨
      m.registerValue x = m.registerValue y := by
    simpa [distinguishes, Decidable.or_iff_not_imp_left] using h
  exact registerValue_choice (heither.imp_right Eq.symm)

theorem jumpOffset_setDialect {address : UInt16} (h : ¬ m.distinguishes d (.jumpPlus address)) :
    m.registerValue ((m.setDialect d).jumpOffset address) =
      m.registerValue (m.jumpOffset address) := by
  have heither : m.config.dialect.jumpAddOffset = d.jumpAddOffset ∨
      m.registerValue (address >>> 8).toUInt8 = m.registerValue 0 := by
    simpa [distinguishes, Decidable.or_iff_not_imp_left] using h
  exact registerValue_choice heither

theorem afterBlock_setDialect {x : UInt8} (h : ¬ m.distinguishes d (.store x)) (memory : Memory) :
    (m.setDialect d).afterBlock memory x = m.afterBlock memory x := by
  have hflag : m.config.dialect.memoryIncrementI = d.memoryIncrementI := by
    simpa [distinguishes] using h
  show (if d.memoryIncrementI then memory.passBlock x else memory) = m.afterBlock memory x
  rw [← hflag]
  rfl

theorem draw_setDialect (hwrap : m.display.wrap = m.config.dialect.wrap) {x y rows : UInt8}
    (h : ¬ m.distinguishes d (.draw x y rows)) (row : Nat) :
    let sprite := (m.memory.readBlock m.memory.i.toNat rows.toNat).value
    let drawn := m.display.draw (m.registerValue x).toNat row sprite
    (m.setDialect d).display.draw (m.registerValue x).toNat row sprite =
      ({ drawn.1 with wrap := d.wrap }, drawn.2) := by
  intro sprite drawn
  apply Display.draw_with_wrap
  by_cases hflag : m.config.dialect.legacyWrap = d.legacyWrap
  · rw [hwrap]
    unfold Dialect.wrap
    rw [hflag]
  · apply Sprite.cells_eq_of_not_reachesEdge
    simpa [distinguishes, hflag] using h

theorem value_effect_setDialect (hwrap : m.display.wrap = m.config.dialect.wrap)
    (h : ¬ m.distinguishes d i) :
    ((m.setDialect d).effect i).value =
      ((m.effect i).value.1.setDialect d, (m.effect i).value.2) := by
  cases i with
  | shiftRight x y | shiftLeft x y =>
      have hsource : (m.memory.fetchRegister ((m.setDialect d).shiftSource x y)).value =
          (m.memory.fetchRegister (m.shiftSource x y)).value := shiftSource_setDialect h
      have hmemory : (m.setDialect d).memory = m.memory := rfl
      simp only [effect, Access.value_map, Memory.shift, Access.value_bind, hmemory, hsource]
      rfl
  | jumpPlus address =>
      refine Prod.ext rfl ?_
      exact congrArg (fun v : UInt8 => Transfer.jump (address + v.toUInt16))
        (jumpOffset_setDialect h)
  | store x | load x =>
      have hafter := fun memory => afterBlock_setDialect (x := x) h memory
      simp only [effect, Access.value_bind, Access.value_pure, hafter]
      rfl
  | draw x y rows =>
      -- The display before the drawing is read only by the drawing itself.
      exact congrArg
        (fun drawn : Display × Bool =>
          ({ m.setDialect d with
              memory := (m.memory.putRegister flagRegister drawn.2.toUInt8).value
              display := drawn.1 },
            Transfer.next))
        (draw_setDialect hwrap h (m.registerValue y).toNat)
  | _ => rfl

theorem carries_dialect (hwrap : m.display.wrap = m.config.dialect.wrap) (hi : i.Fits)
    (h : ¬ m.distinguishes d i) : (Adjustment.dialect d).Carries m i where
  value := value_effect_setDialect hwrap h
  rejected := by
    rw [rejected_effect hi, rejected_effect hi]
    rfl

theorem executed_of_distinguishes (hi : m.Fetches i) (h : m.distinguishes d i) :
    m.step.result = .ok (.executed i) := by
  cases i with
  | shiftRight | shiftLeft | store | load | draw => exact hi.executed_of_next rfl
  | jumpPlus address =>
      rw [hi.step_eq]
      rfl
  | _ => cases h

theorem carries_dialect_of_fetches (hm : m.Coherent)
    (h : ∀ i, m.step.result = .ok (.executed i) → ¬ m.distinguishes d i) (hi : m.Fetches i) :
    (Adjustment.dialect d).Carries m i := by
  apply carries_dialect hm.wrap hi.fits
  intro hdistinguishes
  exact h i (executed_of_distinguishes hi hdistinguishes) hdistinguishes

end Effect

theorem configure_setDialect {setting : Setting} (h : ¬ setting.changesDialect) (m : Machine)
    (d : Dialect) : (m.setDialect d).configure setting = (m.configure setting).setDialect d := by
  cases setting with
  | opsPerCycle | palette | seed => rfl
  | dialect | legacyShift | jumpAddOffset | memoryIncrementI | legacyWrap => exact absurd rfl h

namespace EqualButDialect

variable {m n : Machine}

theorem setDialect (m : Machine) (d : Dialect) : m.EqualButDialect (m.setDialect d) := rfl

theorem eq_setDialect (h : m.EqualButDialect n) (hn : n.Coherent) :
    n = m.setDialect n.config.dialect := by
  have hwrap := hn.wrap
  rw [EqualButDialect, hwrap] at h
  exact h

end EqualButDialect

theorem dialects_agree_until_distinguished {m n : Machine} (hm : m.Reachable) (hn : n.Reachable)
    (hmn : m.EqualButDialect n) {operations : List Operation}
    (hsettings : ∀ setting, .configure setting ∈ operations → ¬ setting.changesDialect)
    (halike : ∀ s ∈ m.history operations, ∀ i, s.step.result = .ok (.executed i) →
      ¬ s.distinguishes n.config.dialect i) :
    (n.performAll operations).result = (m.performAll operations).result ∧
      (n.performAll operations).log = (m.performAll operations).log ∧
      (m.performAll operations).machine.EqualButDialect (n.performAll operations).machine := by
  have hcoherent := kept_coherent.forall_mem_history (coherent_of_reachable hm) operations
  have hrelated := Adjustment.related_performAll (a := .dialect n.config.dialect)
    (fun setting hsetting m => configure_setDialect (hsettings setting hsetting) m _)
    fun s hs i => carries_dialect_of_fetches (hcoherent s hs) (halike s hs)
  have hn := hmn.eq_setDialect (coherent_of_reachable hn)
  rw [apply_dialect, ← hn] at hrelated
  refine ⟨hrelated.result.symm, hrelated.log.symm, ?_⟩
  rw [hrelated.machine]
  exact .setDialect _ _

/-- The program shifts V3 into V2 while both hold 7, draws up to column 62, and jumps by V2 or V0
while both hold 3. -/
theorem dialects_agree_until_distinguished_at_edge :
    let rom : List UInt8 := [0x62, 0x07, 0x63, 0x07, 0x82, 0x36, 0x60, 0x3B, 0xD0, 0x01, 0x60, 0x03,
      0xB2, 0x0B, 0x00, 0xE0]
    let m := ((initial (.ofSeed 0)).performAll [.load rom]).machine
    let n := m.setDialect ⟨true, true, true, true⟩
    let operations : List Operation := [.tick, .run 7, .pressKey 5, .configure (.opsPerCycle 1), .cycle]
    m.EqualButDialect n ∧
      (m.history operations).length = 8 ∧
      (∀ s ∈ m.history operations, ∀ i, s.step.result = .ok (.executed i) →
        ¬ s.distinguishes n.config.dialect i) ∧
      (n.performAll operations).result = (m.performAll operations).result ∧
      (n.performAll operations).log = (m.performAll operations).log ∧
      (m.performAll operations).machine.EqualButDialect (n.performAll operations).machine := by
  intro rom m n operations
  have hm : m.Reachable := ⟨_, _, rfl⟩
  have hn : n.Reachable := ⟨.ofSeed 0, [.load rom, .configure (.dialect ⟨true, true, true, true⟩)], rfl⟩
  have hmn : m.EqualButDialect n := .setDialect m _
  have hsettings : ∀ setting, .configure setting ∈ operations → ¬ setting.changesDialect := by
    simp [operations, Setting.changesDialect]
  obtain ⟨hlength, hall⟩ : (m.history operations).length = 8 ∧
      (m.history operations).all fun s =>
        s.executed?.all fun i => !s.distinguishes n.config.dialect i := by
    decide +kernel
  have halike : ∀ s ∈ m.history operations, ∀ i, s.step.result = .ok (.executed i) →
      ¬ s.distinguishes n.config.dialect i := by
    intro s hs i hi
    have h := List.all_eq_true.mp hall s hs
    rw [executed?_eq_some_iff.mpr hi] at h
    simpa using h
  exact ⟨hmn, hlength, halike, dialects_agree_until_distinguished hm hn hmn hsettings halike⟩

end Machine

end ChipEight
