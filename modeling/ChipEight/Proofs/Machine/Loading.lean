import ChipEight.Machine.Operation
import ChipEight.Proofs.Memory.Image

namespace ChipEight.Machine

/-- The machine is about to execute the first instruction of a program. -/
structure Begins (m : Machine) (rom : List UInt8) : Prop where
  memory : m.memory.Holds rom
  dark : ∀ c, m.display.picture.lit c = false
  dirty : m.display.dirty = true
  delay : m.timers.delay = 0
  sound : m.timers.sound = 0
  free : ∀ key, m.keypad.isHeld key = false
  latch : m.keypad.latch = none
  depth : m.stack.depth = 0
  pc : m.pc = 0x200
  state : m.state = .running

/-- What a load leaves as it is. -/
structure CarriesOver (m n : Machine) : Prop where
  config : n.config = m.config
  palette : n.display.palette = m.display.palette
  wrap : n.display.wrap = m.display.wrap
  random : n.random = m.random
  anomalies : n.anomalies = m.anomalies

theorem isHeld_empty (key : UInt8) : ({} : Keypad).isHeld key = false := by
  unfold Keypad.isHeld Keypad.query
  split
  · simp [Except.toOption]
  · rfl

theorem begins_start {memory : Memory} {rom : List UInt8} (h : memory.Holds rom) (m : Machine) :
    (m.start memory).Begins rom where
  memory := h
  dark := Picture.lit_dark
  dirty := rfl
  delay := rfl
  sound := rfl
  free := isHeld_empty
  latch := rfl
  depth := rfl
  pc := rfl
  state := rfl

theorem carriesOver_start (m : Machine) (memory : Memory) : m.CarriesOver (m.start memory) where
  config := rfl
  palette := rfl
  wrap := rfl
  random := rfl
  anomalies := rfl

section Load

variable (m : Machine) {rom : List UInt8}

theorem exists_start_of_le (h : rom.length ≤ 3584) :
    ∃ memory, ({} : Memory).loadFont.loadRom rom = .ok memory ∧
      ∀ m : Machine, m.load rom =
        { result := .ok (), machine := m.start memory, log := [.programLoaded rom.length] } := by
  obtain ⟨memory, hmemory⟩ := Memory.exists_loadRom ({} : Memory).loadFont h
  refine ⟨memory, hmemory, ?_⟩
  intro m
  rw [load, hmemory]

theorem load_of_lt (h : 3584 < rom.length) :
    m.load rom = { result := .error (.programTooLarge rom.length 3584), machine := m } := by
  rw [load, Memory.loadRom_of_lt h]

theorem load_ok_iff : (m.load rom).result = .ok () ↔ rom.length ≤ 3584 := by
  constructor
  · intro hok
    refine Nat.le_of_not_lt fun hlt => ?_
    rw [m.load_of_lt hlt] at hok
    cases hok
  · intro hle
    obtain ⟨memory, -, hload⟩ := exists_start_of_le hle
    rw [hload]

theorem loadFile_ok_iff (path : String) (contents : Contents) :
    (m.loadFile path contents).result = .ok () ↔ ∃ rom, contents = .ok rom ∧ rom.length ≤ 3584 := by
  cases contents with
  | error reason => simp [loadFile]
  | ok rom =>
      have hresult : (m.loadFile path (.ok rom)).result =
          (m.load rom).result.mapError .rejected := rfl
      rw [hresult]
      constructor
      · intro hok
        refine ⟨rom, rfl, m.load_ok_iff.mp ?_⟩
        cases hload : (m.load rom).result with
        | ok => rfl
        | error e =>
            rw [hload] at hok
            cases hok
      · rintro ⟨rom', heq, hle⟩
        cases heq
        rw [m.load_ok_iff.mpr hle]
        rfl

end Load

theorem load_all_or_nothing (m : Machine) (rom : List UInt8) :
    ((m.load rom).result = .ok () ↔ rom.length ≤ 3584) ∧
      (rom.length ≤ 3584 →
        ({} : Memory).loadFont.writeSlice 0x200 rom = .ok (m.load rom).machine.memory ∧
          (m.load rom).machine.Begins rom ∧ m.CarriesOver (m.load rom).machine ∧
          (m.load rom).log = [.programLoaded rom.length]) ∧
      (3584 < rom.length →
        m.load rom = { result := .error (.programTooLarge rom.length 3584), machine := m }) ∧
      ∀ path contents,
        ((m.loadFile path contents).result = .ok () ↔
          ∃ rom, contents = .ok rom ∧ rom.length ≤ 3584) ∧
        (∀ rom, contents = .ok rom →
          (m.loadFile path contents).machine = (m.load rom).machine ∧
            (m.loadFile path contents).log = (m.load rom).log) ∧
        ((m.loadFile path contents).result ≠ .ok () →
          (m.loadFile path contents).machine = m ∧ (m.loadFile path contents).log = []) := by
  refine ⟨m.load_ok_iff, ?_, m.load_of_lt, ?_⟩
  · intro hle
    obtain ⟨memory, hmemory, hload⟩ := exists_start_of_le hle
    rw [hload, ← Memory.loadRom_eq_writeSlice hle]
    exact ⟨hmemory, begins_start (Memory.holds_of_loadRom hmemory) m, m.carriesOver_start memory,
      rfl⟩
  · intro path contents
    refine ⟨m.loadFile_ok_iff path contents, ?_, ?_⟩
    · rintro rom rfl
      exact ⟨rfl, rfl⟩
    · intro hfailed
      cases contents with
      | error reason => exact ⟨rfl, rfl⟩
      | ok rom =>
          have hlt : 3584 < rom.length := by
            refine Nat.lt_of_not_le fun hle => hfailed ?_
            exact (m.loadFile_ok_iff path _).mpr ⟨rom, rfl, hle⟩
          simp only [loadFile, m.load_of_lt hlt]
          exact ⟨rfl, rfl⟩

/-- The largest program that fits, and one that is a byte longer, on a machine that has halted. -/
theorem load_all_or_nothing_at_capacity :
    let m := ((initial (.ofSeed 0)).performAll [.load [0x00, 0xEE], .step]).machine
    let rom : List UInt8 := .replicate 3584 0xAA
    m.state = .halted ∧ (m.load rom).machine.Begins rom ∧ m.load (0xAA :: rom) =
      { result := .error (.programTooLarge 3585 3584), machine := m } := by
  intro m rom
  have hrom : rom.length = 3584 := List.length_replicate
  obtain ⟨-, hfits, -⟩ := load_all_or_nothing m rom
  obtain ⟨-, -, hlarge, -⟩ := load_all_or_nothing m (0xAA :: rom)
  obtain ⟨-, hbegins, -⟩ := hfits (Nat.le_of_eq hrom)
  rw [List.length_cons, hrom] at hlarge
  exact ⟨by decide +kernel, hbegins, hlarge (by decide)⟩

end ChipEight.Machine
