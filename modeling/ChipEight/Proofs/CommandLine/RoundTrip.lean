import ChipEight.Proofs.App.Turns
import ChipEight.Proofs.CommandLine.Arguments
import ChipEight.Proofs.Machine.Coherence
/-!
Command lines that are written for given options, in any order and any spelling.

`WrittenAs` says which command lines these are, item by item. The reading of one more item settles
its slot and nothing else (`Settles.step`), so the reading of them all gives the options back, and
from these come the settings of the machine and of its window.
-/

namespace ChipEight

/-- What an item of a command line is about. -/
inductive Slot
  | rom
  | flag (flag : Flag)
  | value (option : ValueOption)
deriving DecidableEq

inductive Item
  | rom (path : String)
  | flag (flag : Flag)
  /-- An option, with its value as an argument of its own. -/
  | spaced (option : ValueOption) (text : String)
  /-- An option, with its value behind an equals sign. -/
  | joined (option : ValueOption) (text : String)
deriving DecidableEq

namespace Item

def slot : Item → Slot
  | rom _ => .rom
  | flag f => .flag f
  | spaced v _ | joined v _ => .value v

def arguments : Item → List String
  | rom path => [path]
  | flag f => ["--" ++ f.name]
  | spaced v text => ["--" ++ v.name, text]
  | joined v text => ["--" ++ v.name ++ "=" ++ text]

end Item

namespace Slot

def flag? : Slot → Option Flag
  | flag f => some f
  | _ => none

def all : List Slot :=
  .rom :: (Flag.all.map flag ++ ValueOption.all.map value)

theorem mem_all (slot : Slot) : slot ∈ all := by
  rcases slot with _ | f | v
  · decide
  · cases f <;> decide
  · cases v <;> decide

end Slot

def Layout.name : Layout → String
  | cosmac => "cosmac"
  | sequential => "sequential"

namespace Options

variable {o : Options} {items order : List Item}

def has (o : Options) : Flag → Bool
  | .legacyShift => o.dialect.legacyShift
  | .jumpAddOffset => o.dialect.jumpAddOffset
  | .memoryIncrementI => o.dialect.memoryIncrementI
  | .legacyWrap => o.dialect.legacyWrap
  | .disassemble => o.disassemble

/-- The text stands for the value that an option has. -/
def Gives (o : Options) (text : String) : ValueOption → Prop
  | .opsPerFrame => Numeral.Denotes text o.opsPerFrame
  | .seed => ∃ seed, o.seed = some seed ∧ Numeral.Denotes text seed.toNat
  | .scale => Numeral.Denotes text o.scale
  | .layout => text = o.layout.name

/-- The item says what the options are. -/
def Offers (o : Options) : Item → Prop
  | .rom path => path = o.rom
  | .flag f => o.has f = true
  | .spaced v text | .joined v text => o.Gives text v

/-- The options are the default where an item is left out. -/
def Omits (o : Options) : Slot → Prop
  | .rom => False
  | .flag f => o.has f = false
  | .value .opsPerFrame => o.opsPerFrame = 11
  | .value .seed => o.seed = none
  | .value .scale => o.scale = 10
  | .value .layout => o.layout = .cosmac

/-- The items say all that the options are, and say nothing twice. -/
structure WrittenAs (o : Options) (items : List Item) : Prop where
  offered : ∀ item ∈ items, o.Offers item
  once : (items.map Item.slot).Nodup
  omitted : ∀ slot, slot ∉ items.map Item.slot → o.Omits slot

theorem WrittenAs.of_perm (h : o.WrittenAs items) (horder : order.Perm items) :
    o.WrittenAs order where
  offered item hitem := h.offered item (horder.subset hitem)
  once := (horder.map Item.slot).nodup_iff.mpr h.once
  omitted slot hslot := h.omitted slot fun hmem => hslot ((horder.map Item.slot).mem_iff.mpr hmem)

/-- The options can be written: there is a program, whose name is not taken for an option, and the
numbers are in bounds. The bound of the scale is what lets the width of the window fit into 32
bits. -/
structure Writable (o : Options) : Prop where
  rom_ne : o.rom ≠ ""
  head?_rom : o.rom.toList.head? ≠ some '-'
  opsPerFrame_lt : o.opsPerFrame < 2 ^ 64
  scale_le : o.scale ≤ 67108863

theorem Gives.head?_ne {text : String} {v : ValueOption} (h : o.Gives text v) :
    text.toList.head? ≠ some '-' := by
  cases v with
  | opsPerFrame | scale => exact Numeral.head?_ne_of_denotes h
  | seed =>
      obtain ⟨seed, -, hseed⟩ := h
      exact Numeral.head?_ne_of_denotes hseed
  | layout =>
      obtain rfl : text = o.layout.name := h
      cases o.layout <;> decide

/-- The item for a slot, if the options have anything to say there. -/
def item? (o : Options) : Slot → Option Item
  | .rom => some (.rom o.rom)
  | .flag f => if o.has f then some (.flag f) else none
  | .value .opsPerFrame => some (.spaced .opsPerFrame (Numeral.decimal o.opsPerFrame))
  | .value .seed => o.seed.map fun seed => .spaced .seed (Numeral.decimal seed.toNat)
  | .value .scale => some (.spaced .scale (Numeral.decimal o.scale))
  | .value .layout => some (.spaced .layout o.layout.name)

/-- All items that the options have, defaults included. -/
def fullItems (o : Options) : List Item :=
  Slot.all.filterMap o.item?

theorem offers_of_item? {slot : Slot} {item : Item} (h : o.item? slot = some item) :
    o.Offers item ∧ item.slot = slot := by
  cases slot with
  | rom =>
      cases h
      exact ⟨rfl, rfl⟩
  | flag f =>
      obtain ⟨hf, rfl⟩ : o.has f = true ∧ Item.flag f = item := by simpa [item?] using h
      exact ⟨hf, rfl⟩
  | value v =>
      cases v with
      | opsPerFrame | scale =>
          cases h
          exact ⟨Numeral.denotes_decimal _, rfl⟩
      | layout =>
          cases h
          exact ⟨rfl, rfl⟩
      | seed =>
          obtain ⟨seed, hseed, rfl⟩ := Option.map_eq_some_iff.mp h
          exact ⟨⟨seed, hseed, Numeral.denotes_decimal _⟩, rfl⟩

theorem omits_of_item?_eq_none {slot : Slot} (h : o.item? slot = none) : o.Omits slot := by
  cases slot with
  | rom => cases h
  | flag f => simpa [item?, Omits] using h
  | value v =>
      cases v with
      | seed => exact Option.map_eq_none_iff.mp h
      | opsPerFrame | scale | layout => cases h

theorem writtenAs_fullItems (o : Options) : o.WrittenAs o.fullItems where
  offered item hitem := by
    obtain ⟨slot, -, hslot⟩ := List.mem_filterMap.mp hitem
    exact (offers_of_item? hslot).1
  once := by
    have hall : Slot.all.Nodup := by decide
    refine List.pairwise_map.mpr (List.pairwise_filterMap.mpr (hall.imp ?_))
    intro s t hne a ha b hb
    rw [(offers_of_item? ha).2, (offers_of_item? hb).2]
    exact hne
  omitted slot hslot := by
    refine omits_of_item?_eq_none (Option.eq_none_iff_forall_ne_some.mpr fun item hitem => ?_)
    have hmem : item ∈ o.fullItems := List.mem_filterMap.mpr ⟨slot, Slot.mem_all slot, hitem⟩
    exact hslot ((offers_of_item? hitem).2 ▸ List.mem_map_of_mem hmem)

/-- The draft in which the slots in `filled` are settled, as the options have them. -/
def draft (o : Options) (filled : List Slot) : Draft :=
  { rom := if .rom ∈ filled then some o.rom else none
    flags := filled.filterMap Slot.flag?
    opsPerFrame := if .value .opsPerFrame ∈ filled then some o.opsPerFrame else none
    seed := if .value .seed ∈ filled then o.seed else none
    scale := if .value .scale ∈ filled then some o.scale else none
    layout := if .value .layout ∈ filled then some o.layout else none }

variable {filled : List Slot}

theorem mem_flags_draft {f : Flag} : f ∈ (o.draft filled).flags ↔ .flag f ∈ filled := by
  simp only [draft, List.mem_filterMap]
  constructor
  · rintro ⟨slot, hslot, hflag⟩
    cases slot with
    | flag g =>
        obtain rfl : g = f := Option.some.inj hflag
        exact hslot
    | rom | value v => cases hflag
  · exact fun hf => ⟨.flag f, hf, rfl⟩

theorem isSome_rom_draft : (o.draft filled).rom.isSome = decide (.rom ∈ filled) := by
  by_cases h : Slot.rom ∈ filled <;> simp [draft, h]

theorem draft_rom : { o.draft filled with rom := some o.rom } = o.draft (.rom :: filled) := by
  simp [draft, List.filterMap_cons, Slot.flag?]

theorem setFlag_draft {f : Flag} (hnew : .flag f ∉ filled) :
    (o.draft filled).setFlag f = .ok (o.draft (.flag f :: filled)) := by
  rw [Draft.setFlag, if_neg (mt mem_flags_draft.mp hnew)]
  simp [draft, Slot.flag?]

theorem has_draft {v : ValueOption} (hnew : .value v ∉ filled) :
    (o.draft filled).has v = false := by
  cases v <;> simp [Draft.has, draft, hnew]

theorem setValue_draft (h : o.Writable) {v : ValueOption} {text : String} (htext : o.Gives text v)
    (hnew : .value v ∉ filled) :
    (o.draft filled).setValue v text = .ok (o.draft (.value v :: filled)) := by
  have hhas := has_draft hnew (o := o)
  cases v with
  | opsPerFrame =>
      have hread := Draft.readWord?_of_denotes htext h.opsPerFrame_lt
      simp only [Draft.setValue, hhas, hread, Bool.false_eq_true, if_false]
      simp [draft, List.filterMap_cons, Slot.flag?]
  | seed =>
      obtain ⟨seed, hseed, htext⟩ := htext
      have hread := Draft.readWord?_of_denotes htext seed.toNat_lt
      simp only [Draft.setValue, hhas, hread, Bool.false_eq_true, if_false]
      simp [hseed, draft, List.filterMap_cons, Slot.flag?]
  | scale =>
      have hread := Draft.readScale?_of_denotes htext (Nat.lt_of_le_of_lt h.scale_le (by decide))
      simp only [Draft.setValue, hhas, hread, Bool.false_eq_true, if_false]
      simp [draft, List.filterMap_cons, Slot.flag?]
  | layout =>
      obtain rfl : text = o.layout.name := htext
      have hread : Draft.readLayout? o.layout.name = some o.layout := by
        cases o.layout <;> rfl
      simp only [Draft.setValue, hhas, hread, Bool.false_eq_true, if_false]
      simp [draft, List.filterMap_cons, Slot.flag?]

theorem getD_ite_of_imp {α : Type} {p : Prop} [Decidable p] {x default : α}
    (h : ¬p → x = default) : (if p then some x else none).getD default = x := by
  split
  · rfl
  · next hp => exact (h hp).symm

/-- A draft with every slot settled that the options do not omit is these options. -/
theorem options_draft (hfilled : ∀ f, .flag f ∈ filled → o.has f = true)
    (homitted : ∀ slot, slot ∉ filled → o.Omits slot) : (o.draft filled).options = .ok o := by
  have hrom : (o.draft filled).rom = some o.rom :=
    if_pos (Decidable.byContradiction (homitted .rom))
  have hflag : ∀ f, decide (f ∈ (o.draft filled).flags) = o.has f := by
    intro f
    by_cases hmem : .flag f ∈ filled
    · rw [hfilled f hmem]
      exact decide_eq_true (mem_flags_draft.mpr hmem)
    · rw [homitted (.flag f) hmem]
      exact decide_eq_false (mt mem_flags_draft.mp hmem)
  have hops : (o.draft filled).opsPerFrame.getD 11 = o.opsPerFrame :=
    getD_ite_of_imp (homitted (.value .opsPerFrame))
  have hscale : (o.draft filled).scale.getD 10 = o.scale :=
    getD_ite_of_imp (homitted (.value .scale))
  have hlayout : (o.draft filled).layout.getD .cosmac = o.layout :=
    getD_ite_of_imp (homitted (.value .layout))
  have hseed : (o.draft filled).seed = o.seed := by
    by_cases hmem : .value .seed ∈ filled
    · exact if_pos hmem
    · exact (if_neg hmem).trans (homitted (.value .seed) hmem).symm
  simp only [Draft.options, hrom, hflag, hops, hseed, hscale, hlayout, has]

end Options

/-- The part of a command line that was read settles the slots in `filled`, as the options have
them. -/
structure Reading.Settles (r : Reading) (o : Options) (filled : List Slot) : Prop where
  settle : r.settle = .ok (o.draft filled)
  hasRom : r.hasRom = decide (.rom ∈ filled)
  optionsEnded : r.optionsEnded = false

namespace Reading

variable {r : Reading} {o : Options} {filled : List Slot} {items : List Item}

theorem settles_of_nothing (o : Options) (filled : List Slot) :
    ({ draft := o.draft filled } : Reading).Settles o filled where
  settle := rfl
  hasRom := Options.isSome_rom_draft
  optionsEnded := rfl

theorem Settles.step (h : r.Settles o filled) (ho : o.Writable) {item : Item}
    (hitem : o.Offers item) (hnew : item.slot ∉ filled) :
    ∃ r', item.arguments.foldlM accept r = .ok r' ∧ r'.Settles o (item.slot :: filled) := by
  obtain ⟨hsettle, hasRom, hopen⟩ := h
  cases item with
  | rom path =>
      obtain rfl : path = o.rom := hitem
      have hrom : r.hasRom = false := hasRom.trans (decide_eq_false hnew)
      refine ⟨{ r with draft := o.draft filled, pending := .rom o.rom }, ?_, ?_⟩
      · simp [Item.arguments, accept_rom hopen hsettle hrom ho.head?_rom]
      · refine ⟨?_, by simp [Reading.hasRom, Item.slot], hopen⟩
        simp [Reading.settle, ho.rom_ne, Options.draft_rom, Item.slot]
  | flag f =>
      have hset := Options.setFlag_draft (o := o) hnew
      refine ⟨{ draft := o.draft (.flag f :: filled) }, ?_, settles_of_nothing o _⟩
      simp [Item.arguments, accept_flag hopen hsettle hset, hopen]
  | joined v text =>
      have hset := Options.setValue_draft ho hitem hnew
      refine ⟨{ draft := o.draft (.value v :: filled) }, ?_, settles_of_nothing o _⟩
      simp [Item.arguments, accept_value_with hopen hsettle hset, hopen]
  | spaced v text =>
      have hset := Options.setValue_draft ho hitem hnew
      have hname := accept_value hopen hsettle v
      have htext := accept_text (r := { r with draft := o.draft filled, pending := .option v none })
        hopen rfl (Options.Gives.head?_ne hitem)
      -- The value stays pending: the next item settles it, or the end.
      refine ⟨{ r with draft := o.draft filled, pending := .option v (some text) }, ?_, ?_⟩
      · simp [Item.arguments, hname, htext, bind, Except.bind, pure, Except.pure]
      · refine ⟨hset, ?_, hopen⟩
        simp [Reading.hasRom, Options.isSome_rom_draft, Item.slot]

/-- Items settle their slots, one after the other. -/
theorem Settles.run (h : r.Settles o filled) (ho : o.Writable)
    (hoffered : ∀ item ∈ items, o.Offers item)
    (honce : (items.map Item.slot).Nodup) (hnew : ∀ item ∈ items, item.slot ∉ filled) :
    ∃ r', (items.flatMap Item.arguments).foldlM accept r = .ok r' ∧
      r'.Settles o ((items.map Item.slot).reverse ++ filled) := by
  induction items generalizing r filled with
  | nil => exact ⟨r, rfl, h⟩
  | cons item rest ih =>
      obtain ⟨hfirst, hrest⟩ := List.nodup_cons.mp honce
      obtain ⟨next, hnext, hsettles⟩ :=
        h.step ho (hoffered item List.mem_cons_self) (hnew item List.mem_cons_self)
      have hnew' : ∀ other ∈ rest, other.slot ∉ item.slot :: filled := by
        intro other hother hmem
        rcases List.mem_cons.mp hmem with heq | hmem
        · exact hfirst (heq ▸ List.mem_map_of_mem hother)
        · exact hnew other (List.mem_cons_of_mem _ hother) hmem
      obtain ⟨r', hr', hsettles'⟩ :=
        ih hsettles (fun other hother => hoffered other (List.mem_cons_of_mem _ hother)) hrest hnew'
      refine ⟨r', ?_, by simpa using hsettles'⟩
      rw [List.flatMap_cons, List.foldlM_append, hnext]
      exact hr'

end Reading

namespace Options

variable {o : Options} {items order : List Item}

theorem parse_of_writtenAs (ho : o.Writable) (h : o.WrittenAs items) :
    parse (items.flatMap Item.arguments) = .ok o := by
  obtain ⟨r, hread, hsettles⟩ := (Reading.settles_of_nothing o []).run ho h.offered h.once
    fun _ _ => List.not_mem_nil
  have hoptions : (o.draft ((items.map Item.slot).reverse ++ [])).options = .ok o := by
    refine options_draft (fun f hf => ?_) fun slot hslot => h.omitted slot (by simpa using hslot)
    obtain ⟨item, hitem, hslot⟩ : ∃ item ∈ items, item.slot = .flag f := by simpa using hf
    have hoffer := h.offered item hitem
    cases item with
    | flag g =>
        obtain rfl : g = f := Slot.flag.inj hslot
        exact hoffer
    | rom _ | spaced _ _ | joined _ _ => cases hslot
  have hstart : (items.flatMap Item.arguments).foldlM Reading.accept {} = .ok r := hread
  simp only [parse, hstart, hsettles.settle, hoptions, bind, Except.bind]

theorem exists_parse_eq (ho : o.Writable) : ∃ arguments, parse arguments = .ok o :=
  ⟨_, parse_of_writtenAs ho o.writtenAs_fullItems⟩

/-- The machine has the settings that the options ask for, and draws from the stream of their seed,
or from `random` where they have none. -/
structure SetsUp (o : Options) (random : RandomSource) (m : Machine) : Prop where
  dialect : m.config.dialect = o.dialect
  opsPerCycle : m.config.opsPerCycle = o.opsPerFrame
  wrap : m.display.wrap = o.dialect.wrap
  random : m.random = (o.seed.map RandomSource.ofSeed).getD random

theorem setsUp_configure (o : Options) (random : RandomSource) :
    o.SetsUp random (o.settings.foldl Machine.configure (.initial random)) := by
  cases hseed : o.seed with
  | none =>
      have hsettings : o.settings = [.dialect o.dialect, .opsPerCycle o.opsPerFrame] := by
        simp [settings, hseed]
      rw [hsettings]
      exact ⟨rfl, rfl, rfl, by rw [hseed]; rfl⟩
  | some seed =>
      have hsettings :
          o.settings = [.dialect o.dialect, .opsPerCycle o.opsPerFrame, .seed seed] := by
        simp [settings, hseed]
      rw [hsettings]
      exact ⟨rfl, rfl, rfl, by rw [hseed]; rfl⟩

theorem SetsUp.start {random : RandomSource} {m : Machine} (h : o.SetsUp random m)
    (memory : Memory) : o.SetsUp random (m.start memory) :=
  ⟨h.dialect, h.opsPerCycle, h.wrap, h.random⟩

theorem setsUp_of_build {contents : Contents} {random : RandomSource} {machine : Machine}
    {log : List Notice} (h : o.build contents random = (.ok machine, log)) :
    o.SetsUp random machine := by
  obtain ⟨memory, rfl⟩ := eq_start_of_build h
  exact (setsUp_configure o random).start memory

/-- A command line that is written for options, in whatever order and spelling, is read as these
options. The machine that they build has their settings, and the window has the size and the layout
that they ask for. -/
theorem round_trip_of_writtenAs (ho : o.Writable) (h : o.WrittenAs items)
    (horder : order.Perm items) :
    parse (order.flatMap Item.arguments) = .ok o ∧
      (∀ contents random machine log, o.build contents random = (.ok machine, log) →
        o.SetsUp random machine) ∧
      o.appSettings.window.width = 64 * o.scale ∧ o.appSettings.window.height = 32 * o.scale ∧
      64 * o.scale < 2 ^ 32 ∧ o.appSettings.layout = o.layout := by
  have hscale := ho.scale_le
  refine ⟨parse_of_writtenAs ho (h.of_perm horder), fun contents random machine log hbuild => ?_,
    ?_, ?_, ?_, rfl⟩
  · exact setsUp_of_build hbuild
  · rw [window_appSettings hscale]
  · rw [window_appSettings hscale]
  · omega

theorem round_trip_of_mixed_spellings :
    let o : Options :=
      { rom := "pong.ch8", dialect := { legacyShift := true, legacyWrap := true }
        seed := some 18446744073709551615, scale := 67108863, layout := .sequential }
    parse ["--scale=+067108863", "--legacy-wrap", "--seed", "18446744073709551615", "pong.ch8",
        "--layout=sequential", "--legacy-shift"] = .ok o ∧
      ∀ random, ∃ machine log, o.build (.ok [0xC0, 0xFF]) random = (.ok machine, log) ∧
        machine.config.opsPerCycle = 11 ∧ machine.display.wrap = .narrow ∧
        machine.random = .ofSeed 18446744073709551615 := by
  intro o
  let items : List Item :=
    [.rom "pong.ch8", .flag .legacyShift, .flag .legacyWrap, .joined .layout "sequential",
      .joined .scale "+067108863", .spaced .seed "18446744073709551615"]
  let order : List Item :=
    [.joined .scale "+067108863", .flag .legacyWrap, .spaced .seed "18446744073709551615",
      .rom "pong.ch8", .joined .layout "sequential", .flag .legacyShift]
  have ho : o.Writable := ⟨by decide, by decide, by decide, by decide⟩
  have hseed : Numeral.Denotes "18446744073709551615" 18446744073709551615 := ⟨0, .inl rfl⟩
  have hscale : Numeral.Denotes "+067108863" 67108863 := ⟨1, .inr rfl⟩
  have hitems : o.WrittenAs items := by
    refine ⟨?_, by decide, fun slot hslot => ?_⟩
    · simp only [items, List.forall_mem_cons]
      exact ⟨rfl, rfl, rfl, rfl, hscale, ⟨_, rfl, hseed⟩, List.forall_mem_nil _⟩
    · rcases slot with _ | f | v
      · exact absurd (by decide) hslot
      · cases f <;> first | rfl | exact absurd (by decide) hslot
      · cases v <;> first | rfl | exact absurd (by decide) hslot
  have horder : order.Perm items := by decide
  obtain ⟨hparse, hbuild, -⟩ := round_trip_of_writtenAs ho hitems horder
  refine ⟨hparse, fun random => ?_⟩
  have hlength : [0xC0, (0xFF : UInt8)].length ≤ 3584 := by decide
  obtain ⟨log, hbuilt⟩ := o.exists_build_eq random hlength
  have hsetsUp := hbuild _ random _ log hbuilt
  exact ⟨_, log, hbuilt, hsetsUp.opsPerCycle, hsetsUp.wrap, hsetsUp.random⟩

end Options

end ChipEight
