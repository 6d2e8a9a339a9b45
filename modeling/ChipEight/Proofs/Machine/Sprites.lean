import ChipEight.Machine.Operation
import ChipEight.Proofs.Display.Drawing
import ChipEight.Proofs.Display.Superposition
import ChipEight.Proofs.Machine.Presentation
import ChipEight.Proofs.Memory.Contents

namespace ChipEight.Machine

variable {m : Machine} {x y rows : UInt8}

/-- The rows of the sprite at the index register, as far as there is memory. -/
def spriteRows (m : Machine) (rows : UInt8) : Sprite :=
  (m.memory.bytes.toList.drop m.memory.i.toNat).take rows.toNat

/-- How many set pixels of the sprite at the index register fall on a cell if it is drawn at column
VX and row VY. -/
def spriteHits (m : Machine) (x y rows : UInt8) (c : Cell) : Nat :=
  (m.spriteRows rows).hits m.config.dialect.wrap (m.registerValue x).toNat
    (m.registerValue y).toNat c

/-- A set pixel of the sprite falls on a lit cell. -/
def SpriteMeets (m : Machine) (x y rows : UInt8) : Prop :=
  ∃ c, m.spriteHits x y rows c = 1 ∧ m.framebuffer.byte c = 1

/-- The sprite is drawn on the framebuffer by the values that VX, VY and the index register have
before, and the flag is set afterwards. -/
structure DrawsSprite (m : Machine) (x y rows : UInt8) : Prop where
  result : m.step.result = .ok (.executed (.draw x y rows))
  hits_le_one : ∀ c, m.spriteHits x y rows c ≤ 1
  byte : ∀ c, m.step.machine.framebuffer.byte c =
    m.framebuffer.byte c ^^^ UInt8.ofNat (m.spriteHits x y rows c)
  met : m.SpriteMeets x y rows → m.step.machine.memory.register 0xF = .ok 1
  unmet : ¬ m.SpriteMeets x y rows → m.step.machine.memory.register 0xF = .ok 0
  registers : ∀ z, z ≠ 0xF → m.step.machine.memory.register z = m.memory.register z
  anomalies : m.step.machine.anomalies =
    m.anomalies + (List.range' m.memory.i.toNat rows.toNat).countP (0x1000 ≤ ·)
  rest : m.step.machine =
    { m with
      memory := { m.memory with v := m.step.machine.memory.v }
      display :=
        { m.display with
          picture := m.step.machine.display.picture
          frame := m.step.machine.display.picture.coloured m.config.palette
          dirty := true }
      pc := m.pc + 2
      anomalies := m.step.machine.anomalies }

theorem length_spriteRows_le (m : Machine) (rows : UInt8) :
    (m.spriteRows rows).length ≤ rows.toNat :=
  List.length_take_le _ _

/-- The zeros that are read behind the end of memory draw nothing. -/
theorem draw_readBlock (m : Machine) (column row : Nat) (rows : UInt8) :
    m.display.draw column row (m.memory.readBlock m.memory.i.toNat rows.toNat).value =
      m.display.draw column row (m.spriteRows rows) := by
  rw [Memory.value_readBlock_eq_append, Display.draw_eq_toggleAll,
    Sprite.cells_append_replicate_zero]
  rfl

namespace Fetches

theorem machine_of_draw (h : m.Fetches (.draw x y rows)) :
    let drawn := m.display.draw (m.registerValue x).toNat (m.registerValue y).toNat
      (m.spriteRows rows)
    m.step.machine =
      { m with
        memory := (m.memory.putRegister flagRegister drawn.2.toUInt8).value
        display := drawn.1
        pc := m.pc + 2
        anomalies :=
          m.anomalies + (List.range' m.memory.i.toNat rows.toNat).countP (0x1000 ≤ ·) } := by
  intro drawn
  have hrejected : (m.effect (.draw x y rows)).rejected.length =
      (List.range' m.memory.i.toNat rows.toNat).countP (0x1000 ≤ ·) := by
    rw [rejected_effect h.fits, List.countP_eq_length_filter]
    simp [rejections, touchedAddresses, askedKeys]
  rw [h.machine_of_next rfl, acted, hrejected]
  simp only [drawn, ← draw_readBlock]
  rfl

end Fetches

theorem sprites_drawn_from_memory (hm : m.Reachable) (h : m.Fetches (.draw x y rows)) :
    m.DrawsSprite x y rows := by
  have hcoherent := coherent_of_reachable hm
  have hlength : (m.spriteRows rows).length ≤ 32 := by
    have hrows : rows.toNat < 0x10 := h.fits.2.2
    have hle := m.length_spriteRows_le rows
    omega
  let drawn := m.display.draw (m.registerValue x).toNat (m.registerValue y).toNat
    (m.spriteRows rows)
  have hmachine := h.machine_of_draw
  have hdisplay : m.step.machine.display = drawn.1 := congrArg Machine.display hmachine
  have hmemory : m.step.machine.memory =
      (m.memory.putRegister flagRegister drawn.2.toUInt8).value := congrArg Machine.memory hmachine
  have hregister : ∀ z, m.step.machine.memory.register z =
      if z = 0xF then .ok drawn.2.toUInt8 else m.memory.register z := by
    intro z
    rw [hmemory]
    exact Memory.register_putRegister (by decide) _
  -- The display wraps as the dialect says, which is what `spriteHits` goes by.
  have hhits : ∀ c, (m.spriteRows rows).hits m.display.wrap (m.registerValue x).toNat
      (m.registerValue y).toNat c = m.spriteHits x y rows c := by
    intro c
    rw [hcoherent.wrap]
    rfl
  have hcollision : drawn.2 = true ↔ m.SpriteMeets x y rows := by
    simp only [SpriteMeets, ← hhits]
    exact Display.collision_draw_iff _ _ _ hlength
  refine
    { result := h.executed_of_next rfl
      hits_le_one := fun c => Sprite.hits_le_one hlength c
      byte := ?_
      met := ?_
      unmet := ?_
      registers := ?_
      anomalies := congrArg Machine.anomalies hmachine
      rest := ?_ }
  · intro c
    rw [framebuffer, hdisplay, ← hhits]
    exact Display.byte_draw _ _ _ hlength c
  · intro hmet
    rw [hregister, if_pos rfl, hcollision.mpr hmet]
    rfl
  · intro hunmet
    rw [hregister, if_pos rfl, Bool.eq_false_of_not_eq_true (mt hcollision.mp hunmet)]
    rfl
  · intro z hz
    rw [hregister, if_neg hz]
  · have hregisters : m.step.machine.memory = { m.memory with v := m.step.machine.memory.v } := by
      rw [hmemory]
      exact Memory.eq_with_registers (Memory.bytes_putRegister _ _ _) (Memory.i_putRegister _ _ _)
    have hshown : m.step.machine.display =
        { m.display with
          picture := m.step.machine.display.picture
          frame := m.step.machine.display.picture.coloured m.config.palette
          dirty := true } := by
      rw [hdisplay, ← hcoherent.palette]
      rfl
    rw [← hregisters, ← hshown, hmachine]

/-- A sprite of three rows, two of which lie behind the end of memory, at the place that VF names
twice: its only pixel falls on the one that an earlier drawing left. -/
theorem sprites_drawn_from_memory_over_end :
    let rom : List UInt8 := [0x60, 0x80, 0xAF, 0xFF, 0xF0, 0x55, 0x6F, 0x03, 0xDF, 0xF3, 0x6F, 0x03,
      0xDF, 0xF3]
    let m := ((initial (.ofSeed 0)).performAll [.load rom, .run 6]).machine
    m.Fetches (.draw 0xF 0xF 3) ∧ m.framebuffer.byte ⟨3, 3⟩ = 1 ∧
      m.step.machine.framebuffer.byte ⟨3, 3⟩ = 0 ∧ m.step.machine.memory.register 0xF = .ok 1 ∧
      m.step.machine.anomalies = m.anomalies + 2 := by
  intro rom m
  obtain ⟨hfetched, hmet, houtside⟩ : m.fetched? = some (.draw 0xF 0xF 3) ∧
      (m.spriteHits 0xF 0xF 3 ⟨3, 3⟩ = 1 ∧ m.framebuffer.byte ⟨3, 3⟩ = 1) ∧
      (List.range' m.memory.i.toNat 3).countP (0x1000 ≤ ·) = 2 := by
    decide +kernel
  have hfetches := fetched?_eq_some_iff.mp hfetched
  have hdrawn := sprites_drawn_from_memory ⟨_, _, rfl⟩ hfetches
  refine ⟨hfetches, hmet.2, ?_, hdrawn.met ⟨_, hmet⟩, hdrawn.anomalies.trans ?_⟩
  · rw [hdrawn.byte, hmet.1, hmet.2]
    rfl
  · exact congrArg (m.anomalies + ·) houtside

end ChipEight.Machine
