import ChipEight.Proofs.Machine.Calls
import ChipEight.Proofs.Machine.Trace
import ChipEight.Proofs.Memory.Untouched
/-!
Footprints: the parts of a machine that an instruction may write to. Everything outside of them is as
it was, but for the program counter and the count of rejected accesses.

`agrees_step_of_executed` is the case of one step. Over a history, a byte changes only where one of the
steps stores.
-/

namespace ChipEight

/-- The parts of a machine besides the program counter and the count of rejected accesses. -/
inductive Part
  | byte (address : Nat)
  | register (x : UInt8)
  | index
  | picture
  | frame
  | dirty
  | delay
  | sound
  | held
  | latch
  | stack
  | random
  | state
  | settings
deriving DecidableEq, Repr

/-- The second machine has the part as the first one has it. -/
def Part.Agrees (m n : Machine) : Part → Prop
  | byte address => n.memory.bytes[address]? = m.memory.bytes[address]?
  | register x => n.memory.register x = m.memory.register x
  | index => n.memory.i = m.memory.i
  | picture => n.display.picture = m.display.picture
  | frame => n.display.frame = m.display.frame
  | dirty => n.display.dirty = m.display.dirty
  | delay => n.timers.delay = m.timers.delay
  | sound => n.timers.sound = m.timers.sound
  | held => n.keypad.held = m.keypad.held
  | latch => n.keypad.latch = m.keypad.latch
  | stack => n.stack = m.stack
  | random => n.random = m.random
  | state => n.state = m.state
  | settings =>
    n.config = m.config ∧ n.display.palette = m.display.palette ∧ n.display.wrap = m.display.wrap

namespace Machine

/-- The index register, if the dialect moves it with FX55 and FX65. -/
def movedIndex (m : Machine) : List Part :=
  if m.config.dialect.memoryIncrementI then [.index] else []

/-- The parts that an instruction may write to. -/
def writeSet (m : Machine) : Instruction → List Part
  | .clear => [.picture, .frame, .dirty]
  | .draw _ _ _ => [.picture, .frame, .dirty, .register flagRegister]
  | .ret | .call _ => [.stack]
  | .setByte x _ | .addByte x _ | .copy x _ | .or x _ | .and x _ | .xor x _ | .readDelay x =>
    [.register x]
  | .add x _ | .sub x _ | .subFrom x _ | .shiftRight x _ | .shiftLeft x _ =>
    [.register x, .register flagRegister]
  | .random x _ => [.register x, .random]
  | .setIndex _ | .addIndex _ | .glyph _ => [.index]
  | .setDelay _ => [.delay]
  | .setSound _ => [.sound]
  | .awaitKey _ => [.latch, .state]
  | .decimal _ => (List.range' m.memory.i.toNat 3).map .byte
  | .store x => (List.range' m.memory.i.toNat (x.toNat + 1)).map .byte ++ m.movedIndex
  | .load x => (List.range (x.toNat + 1)).map (fun k => .register (UInt8.ofNat k)) ++ m.movedIndex
  | .jump _ | .jumpPlus _ | .skipEqByte _ _ | .skipNeByte _ _ | .skipEq _ _ | .skipNe _ _
  | .skipHeld _ | .skipFree _ | .unknown _ => []

variable {m n : Machine} {i : Instruction}

/-- The parts make up the machine. -/
theorem forall_agrees_iff :
    (∀ part : Part, part.Agrees m n) ↔ n = { m with pc := n.pc, anomalies := n.anomalies } := by
  constructor
  · intro h
    have hbytes : n.memory.bytes = m.memory.bytes := by
      apply Vector.ext
      intro address haddress
      have hbyte := h (.byte address)
      simpa [Part.Agrees, haddress] using hbyte
    have hregisters : n.memory.v = m.memory.v := Registers.ext_get fun x => h (.register x)
    obtain ⟨hconfig, hpalette, hwrap⟩ := h .settings
    rcases m with ⟨config, ⟨bytes, v, i⟩, ⟨palette, picture, frame, wrap, dirty⟩, ⟨held, latch⟩,
      ⟨delay, sound⟩, random, stack, pc, state, anomalies⟩
    rcases n with ⟨_, ⟨_, _, _⟩, ⟨_, _, _, _, _⟩, ⟨_, _⟩, ⟨_, _⟩, _, _, pc', _, anomalies'⟩
    simp only [Machine.mk.injEq, Memory.mk.injEq, Display.mk.injEq, Keypad.mk.injEq,
      Timers.mk.injEq, and_true, true_and]
    exact ⟨hconfig, ⟨hbytes, hregisters, h .index⟩,
      ⟨hpalette, h .picture, h .frame, hwrap, h .dirty⟩, ⟨h .held, h .latch⟩,
      ⟨h .delay, h .sound⟩, h .random, h .stack, h .state⟩
  · intro h part
    rw [h]
    cases part with
    | settings => exact ⟨rfl, rfl, rfl⟩
    | _ => rfl

section Effect

theorem i_afterBlock_of_not_mem (h : .index ∉ m.movedIndex) (memory : Memory) (x : UInt8) :
    (m.afterBlock memory x).i = memory.i := by
  unfold movedIndex at h
  unfold afterBlock
  split
  · next hmoves => simp [hmoves] at h
  · rfl

theorem register_effect_of_not_mem {y : UInt8} (h : .register y ∉ m.writeSet i) :
    (m.effect i).value.1.memory.register y = m.memory.register y := by
  cases i with
  | setByte x | addByte x | copy x | or x | and x | xor x | readDelay x | random x =>
      have hne : y ≠ x := by simpa [writeSet] using h
      exact Memory.register_putRegister_of_ne hne _
  | add x | sub x | subFrom x | shiftRight x | shiftLeft x =>
      obtain ⟨hne, hflag⟩ : y ≠ x ∧ y ≠ flagRegister := by simpa [writeSet] using h
      exact Memory.register_putFlagged_of_ne hne hflag _ _
  | draw =>
      have hflag : y ≠ flagRegister := by simpa [writeSet] using h
      exact Memory.register_putRegister_of_ne hflag _
  | decimal x => exact Memory.register_writeBlock _ _ _ _
  | store x => exact (register_afterBlock m _ x y).trans (Memory.register_writeBlock _ _ _ _)
  | load x =>
      refine (register_afterBlock m _ x y).trans (Memory.register_putRegisters_of_ne ?_)
      intro k hk
      rw [Memory.length_readBlock] at hk
      rintro rfl
      apply h
      have hmem : k ∈ List.range (x.toNat + 1) := List.mem_range.mpr hk
      have hregister := List.mem_map_of_mem (f := fun k => Part.register (UInt8.ofNat k)) hmem
      rw [UInt8.zero_add]
      exact List.mem_append_left _ hregister
  | _ => rfl

theorem i_effect_of_not_mem (h : .index ∉ m.writeSet i) :
    (m.effect i).value.1.memory.i = m.memory.i := by
  cases i with
  | setIndex | addIndex | glyph => simp [writeSet] at h
  | setByte | addByte | copy | or | and | xor | add | sub | subFrom | shiftRight | shiftLeft
  | readDelay | random | draw => simp [effect, withMemory]
  | decimal => exact Memory.i_writeBlock _ _ _
  | store x =>
      have hmoved : .index ∉ m.movedIndex := fun hmem => h (List.mem_append_right _ hmem)
      exact (i_afterBlock_of_not_mem hmoved _ x).trans (Memory.i_writeBlock _ _ _)
  | load x =>
      have hmoved : .index ∉ m.movedIndex := fun hmem => h (List.mem_append_right _ hmem)
      exact (i_afterBlock_of_not_mem hmoved _ x).trans (Memory.i_putRegisters _ _ _)
  | _ => rfl

theorem getElem_bytes_acted_of_not_mem {address : Nat} (h : .byte address ∉ m.writeSet i) :
    (m.acted i).memory.bytes[address]? = m.memory.bytes[address]? := by
  by_cases haddress : address < 4096
  · have hkept : (m.acted i).memory.bytes[address] = m.memory.bytes[address] := by
      apply getElem_bytes_acted haddress
      · rintro x rfl hmem
        exact h (List.mem_map_of_mem hmem)
      · rintro x rfl hmem
        exact h (List.mem_append_left _ (List.mem_map_of_mem hmem))
    simpa [haddress] using hkept
  · simp [haddress]

theorem agrees_acted_of_not_mem {part : Part} (h : part ∉ m.writeSet i) :
    part.Agrees m (m.acted i) := by
  cases part with
  | byte address => exact getElem_bytes_acted_of_not_mem h
  | register y => exact register_effect_of_not_mem h
  | index => exact i_effect_of_not_mem h
  | picture | frame | dirty =>
      have hdisplay : (m.acted i).display = m.display := by
        refine (display_effect m i).trans ?_
        cases i with
        | clear | draw => simp [writeSet] at h
        | _ => rfl
      simp only [Part.Agrees, hdisplay]
  | delay =>
      refine (delay_effect m i).trans ?_
      cases i with
      | setDelay => simp [writeSet] at h
      | _ => rfl
  | sound =>
      refine (sound_effect m i).trans ?_
      cases i with
      | setSound => simp [writeSet] at h
      | _ => rfl
  | held => exact held_effect m i
  | latch =>
      show (m.effect i).value.1.keypad.latch = _
      cases i with
      | awaitKey => simp [writeSet] at h
      | _ => rfl
  | stack => exact stack_acted m i
  | random =>
      refine (random_effect m i).trans ?_
      cases i with
      | random => simp [writeSet] at h
      | _ => rfl
  | state =>
      refine (state_effect m i).trans ?_
      cases i with
      | awaitKey => simp [writeSet] at h
      | _ => rfl
  | settings =>
      have hpalette : (m.acted i).display.palette = m.display.palette := by
        cases i <;> rfl
      have hwrap : (m.acted i).display.wrap = m.display.wrap := by
        cases i <;> rfl
      exact ⟨config_effect m i, hpalette, hwrap⟩

end Effect

section Step

variable {part : Part}

theorem agrees_step_of_executed (h : m.step.result = .ok (.executed i))
    (hpart : part ∉ m.writeSet i) : part.Agrees m m.step.machine := by
  have hacted := agrees_acted_of_not_mem hpart
  obtain ⟨-, -, hfollow⟩ := follow_of_executed h
  obtain ⟨stack, pc, hmachine⟩ := exists_follow_eq (m.acted i) m.pc (m.control i)
  simp only [hfollow] at hmachine
  -- Besides the program counter, following the transfer can change the call stack only.
  cases part with
  | stack =>
      apply stack_step_of_neither
      · intro hcalls
        obtain ⟨target, hcall⟩ := exists_executed_of_calls hcalls
        rw [h] at hcall
        cases hcall
        simp [writeSet] at hpart
      · intro hreturns
        have hret := executed_of_returns hreturns
        rw [h] at hret
        cases hret
        simp [writeSet] at hpart
  | _ =>
      rw [hmachine]
      exact hacted

theorem agrees_step_of_fault {fault : Fault} (h : m.step.result = .error fault)
    (hpart : part ≠ .state) : part.Agrees m m.step.machine := by
  rcases m.step_acts_or_receives_or_keeps with
    ⟨i, stack, pc, hresult, -⟩ | ⟨x, key, hresult, -⟩ | ⟨-, pc, anomalies, state, hmachine⟩
  · rw [h] at hresult
    cases hresult
  · rw [h] at hresult
    cases hresult
  · rw [hmachine]
    cases part with
    | settings => exact ⟨rfl, rfl, rfl⟩
    | state => exact absurd rfl hpart
    | _ => rfl

theorem agrees_byte_step {address : Nat}
    (h : ∀ i, m.step.result = .ok (.executed i) → .byte address ∉ m.writeSet i) :
    (Part.byte address).Agrees m m.step.machine := by
  rcases m.step_acts_or_receives_or_keeps with
    ⟨i, stack, pc, hresult, -⟩ | ⟨x, key, -, hmachine⟩ | ⟨-, pc, anomalies, state, hmachine⟩
  · exact agrees_step_of_executed hresult (h i hresult)
  · simp [Part.Agrees, hmachine, received]
  · rw [hmachine]
    rfl

end Step

/-- An instruction that one of the steps executes may write to the part. -/
def WrittenIn (part : Part) (history : List Machine) : Prop :=
  ∃ u ∈ history, ∃ i, u.step.result = .ok (.executed i) ∧ part ∈ u.writeSet i

theorem writtenIn_of_passes {memory : Memory} {history : List Machine}
    (h : Passes Machine.memory m.memory history memory) {address : Nat}
    (hne : memory.bytes[address]? ≠ m.memory.bytes[address]?) :
    WrittenIn (.byte address) history := by
  by_contra hwritten
  apply hne
  apply h.invariant (P := fun memory => memory.bytes[address]? = m.memory.bytes[address]?)
  · intro u hu heq
    have hkept : (Part.byte address).Agrees u u.step.machine :=
      agrees_byte_step fun i hresult hmem => hwritten ⟨u, hu, i, hresult, hmem⟩
    exact hkept.trans heq
  · rfl

/-- An instruction writes to the parts in its write set only, and a fault to the run state. So for as
long as no program is loaded, a byte differs from what it was only after FX33 or FX55 was executed with
the byte in its window. -/
theorem steps_write_within_footprints (m : Machine) :
    (∀ n, (∀ part : Part, part.Agrees m n) ↔
      n = { m with pc := n.pc, anomalies := n.anomalies }) ∧
    (∀ i, m.step.result = .ok (.executed i) →
      ∀ part ∉ m.writeSet i, part.Agrees m m.step.machine) ∧
    (∀ fault, m.step.result = .error fault →
      ∀ part ≠ Part.state, part.Agrees m m.step.machine) ∧
    ∀ operations, m.LoadsNothing operations → ∀ address,
      (¬ (Part.byte address).Agrees m (m.performAll operations).machine →
        WrittenIn (.byte address) (m.history operations)) ∧
      ∀ before s after, m.history operations = before ++ s :: after →
        ¬ (Part.byte address).Agrees m s → WrittenIn (.byte address) before := by
  refine ⟨fun n => forall_agrees_iff, fun i h part => agrees_step_of_executed h,
    fun fault h part => agrees_step_of_fault h, ?_⟩
  intro operations hloads address
  have hpasses := steppedOnly_memory.passes hloads
  refine ⟨writtenIn_of_passes hpasses, ?_⟩
  intro before s after hhistory
  rw [hhistory] at hpasses
  exact writtenIn_of_passes hpasses.cut.1

/-- FX55 stores three registers from the last but one byte of memory on; then VF is shifted into
itself, and a return faults. -/
theorem steps_write_within_footprints_at_end_of_memory :
    let rom : List UInt8 := [0xAF, 0xFE, 0x60, 0x05, 0xF2, 0x55, 0x8F, 0xFE, 0x00, 0xEE]
    let loaded := ((initial (.ofSeed 0)).load rom).machine
    let stores := loaded.step.machine.step.machine
    let shifts := stores.step.machine
    let returns := shifts.step.machine
    stores.writeSet (.store 2) = [.byte 0xFFE, .byte 0xFFF, .byte 0x1000] ∧
      Part.index.Agrees stores shifts ∧
      shifts.writeSet (.shiftLeft 0xF 0xF) = [.register 0xF, .register 0xF] ∧
      (Part.register 0).Agrees shifts returns ∧
      returns.step.result = .error (.stackUnderflow 0x208) ∧
      Part.stack.Agrees returns returns.step.machine ∧
      shifts.memory.read 0xFFE = .ok 5 ∧
      WrittenIn (.byte 0xFFE) [loaded, loaded.step.machine, stores] := by
  intro rom loaded stores shifts returns
  have hloads : ∀ n : Machine, n.LoadsNothing [.step, .step, .step, .step] := by
    simp [LoadsNothing, performAll, perform, Outcome.map, Reply.loads]
  have hhistory : ∀ n : Machine, n.history [.step, .step, .step, .step] =
      [n, n.step.machine, n.step.machine.step.machine] ++
        n.step.machine.step.machine.step.machine :: [] := fun _ => rfl
  have hflags : shifts.writeSet (.shiftLeft 0xF 0xF) = [.register 0xF, .register 0xF] := rfl
  obtain ⟨hwindow, hstored, hshifted, hfault, hread, hchanged⟩ :
      stores.writeSet (.store 2) = [.byte 0xFFE, .byte 0xFFF, .byte 0x1000] ∧
        stores.step.result = .ok (.executed (.store 2)) ∧
        shifts.step.result = .ok (.executed (.shiftLeft 0xF 0xF)) ∧
        returns.step.result = .error (.stackUnderflow 0x208) ∧
        shifts.memory.read 0xFFE = .ok 5 ∧
        shifts.memory.bytes[0xFFE]? ≠ loaded.memory.bytes[0xFFE]? := by
    decide +kernel
  obtain ⟨-, hstores, -, -⟩ := steps_write_within_footprints stores
  obtain ⟨-, hshifts, -, -⟩ := steps_write_within_footprints shifts
  obtain ⟨-, -, hreturns, -⟩ := steps_write_within_footprints returns
  obtain ⟨-, -, -, hwritten⟩ := steps_write_within_footprints loaded
  refine ⟨hwindow, ?_, hflags, ?_, hfault, ?_, hread, ?_⟩
  · exact hstores _ hstored _ (by simp [hwindow])
  · exact hshifts _ hshifted _ (by simp [hflags])
  · exact hreturns _ hfault _ (by simp)
  · exact (hwritten _ (hloads loaded) 0xFFE).2 _ shifts [] (hhistory loaded) hchanged

end Machine

end ChipEight
