import ChipEight.Proofs.Machine.Arithmetic
import ChipEight.Proofs.Machine.Halting
import ChipEight.Proofs.Machine.Loading
import ChipEight.Proofs.Machine.Sprites
import ChipEight.Proofs.Machine.Trace
/-!
The built-in glyphs: as long as a program does not store over the font, FX29 and the next instruction
DYZ5 draw the glyph of VX.

`Begun.hasFont` says that the font is in memory when a program begins, `hasFont_of_passes` that it stays
there, and `memory_of_next_executed` that the index register is at the drawing where FX29 has put it.
-/

namespace ChipEight

def Font.glyph (digit : Nat) : Sprite :=
  (rows.drop (5 * digit)).take 5

/-- The font lies at the bottom of memory. -/
def Memory.HasFont (m : Memory) : Prop :=
  ∀ a : Fin 0x50, m.read a = .ok (Font.rows.get a)

namespace Machine

variable {m base s t u : Machine} {x y z : UInt8}

/-- The machine is as it was constructed, or as operations and then a load have left it. -/
inductive Begun : Machine → Prop
  | constructed (random : RandomSource) : Begun (initial random)
  | loaded {m : Machine} {operation : Operation} (hm : m.Reachable)
      (hloads : (m.perform operation).result.loads) : Begun (m.perform operation).machine

theorem hasFont_of_load {rom : List UInt8} (h : Reply.loads (.loaded (m.load rom).result)) :
    (m.load rom).machine.memory.HasFont := by
  have hfits : rom.length ≤ 3584 := by
    refine Nat.le_of_not_lt fun hlarge => ?_
    rw [m.load_of_lt hlarge] at h
    cases h
  obtain ⟨memory, hmemory, hload⟩ := exists_start_of_le hfits
  rw [hload]
  exact (Memory.holds_of_loadRom hmemory).font

theorem Begun.hasFont (h : Begun base) : base.memory.HasFont := by
  cases h with
  | constructed random =>
      intro a
      have ha := a.isLt
      show ({} : Memory).loadFont.read a = _
      rw [Memory.read_of_lt (by omega), Memory.getElem_loadFont (by omega), dif_pos ha]
      rfl
  | @loaded m operation hm hloads =>
      cases operation with
      | load rom => exact hasFont_of_load hloads
      | loadFile path contents =>
          cases contents with
          | error reason => cases hloads
          | ok rom => exact hasFont_of_load ((loads_fileLoaded _).symm.trans hloads)
      | configure | step | run | cycle | tick | pressKey | releaseKey | takeDirty => cases hloads

theorem Begun.coherent (h : Begun base) : base.Coherent := by
  cases h with
  | constructed random => exact coherent_initial random
  | loaded hm hloads => exact kept_coherent.perform (coherent_of_reachable hm) _

theorem hasFont_of_passes {memory memory' : Memory} {history : List Machine}
    (h : Passes Machine.memory memory history memory') (hfont : memory.HasFont)
    (hkept : ∀ u ∈ history, ∀ a ∈ u.storeAddresses, 0x50 ≤ a) : memory'.HasFont := by
  intro a
  have ha : a.val < 0x1000 := Nat.lt_trans a.isLt (by decide)
  have hbyte : memory'.bytes[a.val] = memory.bytes[a.val] := by
    apply getElem_bytes_of_passes h ha
    intro u hu hmem
    exact absurd (hkept u hu a hmem) (Nat.not_le.mpr a.isLt)
  rw [Memory.read_of_lt ha, hbyte, ← Memory.read_of_lt ha]
  exact hfont a

theorem memory_step_of_not_executed (h : ∀ i, u.step.result ≠ .ok (.executed i))
    (hwait : ∀ x, u.state ≠ .awaitingKey x) :
    u.step.machine.memory = u.memory ∧ ∀ x, u.step.machine.state ≠ .awaitingKey x := by
  have hstep := u.takes_step
  generalize u.step = outcome at h hstep
  cases hstep with
  | halted => exact ⟨rfl, hwait⟩
  | waits hstate | receives hstate => exact absurd hstate (hwait _)
  | misses => exact ⟨rfl, by simp⟩
  | executes => exact absurd rfl (h _)
  | faults hstate hfetch hdecode hfollow =>
      obtain ⟨hcontrol, pc, rfl⟩ := control_ne_next_of_fault hfollow
      rw [acted_of_control hcontrol]
      exact ⟨rfl, by simp⟩

theorem SteppedOnly.pair {α β : Type} {first : Machine → α} {second : Machine → β}
    (hfirst : SteppedOnly first) (hsecond : SteppedOnly second) :
    SteppedOnly fun m => (first m, second m) where
  configure m setting := Prod.ext (hfirst.configure m setting) (hsecond.configure m setting)
  others m timers keypad dirty :=
    Prod.ext (hfirst.others m timers keypad dirty) (hsecond.others m timers keypad dirty)

section Next

variable {operations : List Operation} {before between after : List Machine}

theorem memory_of_next_executed (hloads : base.LoadsNothing operations)
    (hhistory : base.history operations = before ++ s :: between ++ t :: after)
    (hwait : ∀ x, s.step.machine.state ≠ .awaitingKey x)
    (hnext : ∀ u ∈ between, ∀ i, u.step.result ≠ .ok (.executed i)) :
    t.memory = s.step.machine.memory := by
  have hpasses := (steppedOnly_memory.pair steppedOnly_state).passes hloads
  rw [hhistory] at hpasses
  have hbetween := (hpasses.cut.1).cut.2
  refine (hbetween.invariant
    (P := fun part => part.1 = s.step.machine.memory ∧ ∀ x, part.2 ≠ .awaitingKey x) ?_
    ⟨rfl, hwait⟩).1
  rintro u hu ⟨hmemory, hstate⟩
  obtain ⟨hkept, hwaits⟩ := memory_step_of_not_executed (hnext u hu) hstate
  exact ⟨hkept.trans hmemory, hwaits⟩

/-- The font is in memory at each step in front of which no step stores over it. -/
theorem hasFont_of_history (hbase : Begun base) (hloads : base.LoadsNothing operations)
    (hhistory : base.history operations = before ++ s :: after)
    (hkept : ∀ u ∈ before, ∀ a ∈ u.storeAddresses, 0x50 ≤ a) : s.memory.HasFont := by
  have hpasses := steppedOnly_memory.passes hloads
  rw [hhistory] at hpasses
  exact hasFont_of_passes hpasses.cut.1 hbase.hasFont hkept

end Next

/-- FX29 points the index register at the glyph of VX and changes nothing else. -/
structure PointsAtGlyph (m : Machine) (x : UInt8) : Prop where
  result : m.step.result = .ok (.executed (.glyph x))
  index : m.step.machine.memory.i.toNat = 5 * m.number x
  rest : m.step.machine =
    { m with memory := { m.memory with i := m.step.machine.memory.i }, pc := m.pc + 2 }

theorem Fetches.pointsAtGlyph (h : m.Fetches (.glyph x)) : m.PointsAtGlyph x := by
  have hmachine : m.step.machine =
      { m with memory := { m.memory with i := Font.address (m.registerValue x) }, pc := m.pc + 2 } := by
    rw [h.machine_of_next rfl, acted, rejected_effect h.fits]
    rfl
  have hmemory := congrArg Machine.memory hmachine
  refine ⟨h.executed_of_next rfl, ?_, ?_⟩
  · rw [hmemory]
    exact Font.toNat_address _
  · rw [hmemory]
    exact hmachine

/-- The glyph of a digit is drawn at column VX and row VY, and no access is rejected. -/
structure DrawsGlyph (m : Machine) (x y : UInt8) (digit : Nat) : Prop where
  result : m.step.result = .ok (.executed (.draw x y 5))
  display : m.step.machine.display =
    (m.display.draw (m.number x) (m.number y) (Font.glyph digit)).1
  byte : ∀ c, m.step.machine.framebuffer.byte c =
    m.framebuffer.byte c ^^^
      UInt8.ofNat ((Font.glyph digit).hits m.config.dialect.wrap (m.number x) (m.number y) c)
  anomalies : m.step.machine.anomalies = m.anomalies

theorem spriteRows_of_hasFont (hfont : m.memory.HasFont) {digit : Nat} (hdigit : digit ≤ 0xF)
    (hi : m.memory.i.toNat = 5 * digit) : m.spriteRows 5 = Font.glyph digit := by
  have hlength : Font.rows.length = 0x50 := Font.length_rows
  have hbytes : m.memory.bytes.toList.length = 0x1000 := m.memory.bytes.length_toList
  have hrows : (5 : UInt8).toNat = 5 := rfl
  unfold spriteRows Font.glyph
  rw [hi, hrows]
  apply List.ext_getElem
  · simp only [List.length_take, List.length_drop, hlength, hbytes]
    omega
  · intro k hk hk'
    rw [List.length_take] at hk
    have ha : 5 * digit + k < 0x50 := by omega
    have hread := hfont ⟨5 * digit + k, ha⟩
    rw [Memory.read_of_lt (by omega)] at hread
    rw [List.getElem_take, List.getElem_take, List.getElem_drop, List.getElem_drop,
      Vector.getElem_toList]
    exact Except.ok.inj hread

theorem Fetches.drawsGlyph (h : m.Fetches (.draw x y 5)) (hm : m.Coherent)
    (hfont : m.memory.HasFont) {digit : Nat} (hdigit : digit ≤ 0xF)
    (hi : m.memory.i.toNat = 5 * digit) : m.DrawsGlyph x y digit := by
  have hrows := spriteRows_of_hasFont hfont hdigit hi
  have hlength : (Font.glyph digit).length ≤ 32 :=
    Nat.le_trans (List.length_take_le _ _) (by decide)
  have hinside : (List.range' m.memory.i.toNat (5 : UInt8).toNat).countP (0x1000 ≤ ·) = 0 := by
    rw [List.countP_eq_zero]
    intro a ha
    have hend : a < m.memory.i.toNat + 5 := (List.mem_range'_1.mp ha).2
    rw [decide_eq_true_eq]
    omega
  have hmachine := h.machine_of_draw
  simp only [hrows, hinside, Nat.add_zero] at hmachine
  have hdisplay := congrArg Machine.display hmachine
  refine ⟨h.executed_of_next rfl, hdisplay, ?_, ?_⟩
  · intro c
    rw [framebuffer, hdisplay, ← hm.wrap]
    exact Display.byte_draw _ _ _ hlength c
  · rw [hmachine]

/-- FX29 points at the glyph of VX, and as long as no step since the program began stores over the
font, the next instruction draws this glyph. In the history of the program, `before` are the steps up to
FX29, and those in `between` execute nothing. -/
theorem glyphs_stay_drawable :
    (∀ (m : Machine) (x : UInt8), m.Fetches (.glyph x) → m.PointsAtGlyph x) ∧
      ∀ (base s t : Machine) (operations : List Operation) (before between after : List Machine)
        (x y z : UInt8), Begun base → base.LoadsNothing operations →
        base.history operations = before ++ s :: between ++ t :: after →
        (∀ u ∈ before, ∀ a ∈ u.storeAddresses, 0x50 ≤ a) →
        s.Fetches (.glyph x) → s.number x ≤ 0xF →
        (∀ u ∈ between, ∀ i, u.step.result ≠ .ok (.executed i)) →
        t.Fetches (.draw y z 5) → t.DrawsGlyph y z (s.number x) := by
  refine ⟨fun m x => Fetches.pointsAtGlyph, ?_⟩
  intro base s t operations before between after x y z hbase hloads hhistory hkept hglyph hdigit
    hnext hdraw
  have hpoints := hglyph.pointsAtGlyph
  have hrunning : s.step.machine.state = .running := by
    rw [hpoints.rest]
    exact hglyph.1
  have hmemory : t.memory = s.step.machine.memory :=
    memory_of_next_executed hloads hhistory (by simp [hrunning]) hnext
  have hfont : t.memory.HasFont := by
    have hbefore : s.memory.HasFont := by
      rw [List.append_assoc] at hhistory
      exact hasFont_of_history hbase hloads hhistory hkept
    rw [hmemory, hpoints.rest]
    exact hbefore
  have hcoherent : t.Coherent := by
    apply kept_coherent.forall_mem_history hbase.coherent operations
    rw [hhistory]
    simp
  refine hdraw.drawsGlyph hcoherent hfont hdigit ?_
  rw [hmemory]
  exact hpoints.index

/-- The program stores right behind the font, and draws the glyph of eleven at column and row eleven.
Between the two instructions a file cannot be loaded, and the timers are counted down. -/
theorem glyphs_stay_drawable_behind_stored_byte :
    let rom : List UInt8 := [0x60, 0x0B, 0xA0, 0x50, 0xF0, 0x55, 0xF0, 0x29, 0xD0, 0x05]
    let base := ((initial (.ofSeed 0)).perform (.load rom)).machine
    let s := base.step.machine.step.machine.step.machine
    let t := s.step.machine.tick
    s.number 0 = 0xB ∧ s.step.machine.memory.i.toNat = 55 ∧
      Font.glyph 0xB = [0xE0, 0x90, 0xE0, 0x90, 0xE0] ∧ t.DrawsGlyph 0 0 0xB := by
  intro rom base s t
  let operations : List Operation :=
    [.step, .step, .step, .step, .loadFile "" (.error .notFound), .tick, .step]
  have hbase : Begun base := .loaded ⟨.ofSeed 0, [], rfl⟩ (by decide +kernel)
  have hloads : base.LoadsNothing operations := by
    unfold LoadsNothing
    decide +kernel
  have hhistory : ∀ n : Machine, n.history operations =
      [n, n.step.machine, n.step.machine.step.machine] ++
        n.step.machine.step.machine.step.machine :: [] ++
          n.step.machine.step.machine.step.machine.step.machine.tick :: [] := fun _ => rfl
  obtain ⟨hglyph, hdraw, hnumber, hfirst, hsecond, hthird⟩ :
      s.fetched? = some (.glyph 0) ∧ t.fetched? = some (.draw 0 0 5) ∧ s.number 0 = 0xB ∧
        base.storeAddresses = [] ∧ base.step.machine.storeAddresses = [] ∧
        base.step.machine.step.machine.storeAddresses = [0x50] := by
    decide +kernel
  rw [fetched?_eq_some_iff] at hglyph hdraw
  obtain ⟨hpoints, hdraws⟩ := glyphs_stay_drawable
  have hindex := (hpoints s 0 hglyph).index
  have hdrawn := hdraws base s t operations _ _ _ 0 0 0 hbase hloads (hhistory base)
    (by simp [hfirst, hsecond, hthird]) hglyph (by omega) (by simp) hdraw
  rw [hnumber] at hindex hdrawn
  exact ⟨hnumber, hindex, rfl, hdrawn⟩

end Machine

end ChipEight
