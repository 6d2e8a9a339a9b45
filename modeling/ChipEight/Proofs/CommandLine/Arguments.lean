import ChipEight.CommandLine.Parser
import ChipEight.Proofs.Numeral
import Mathlib.Data.List.TakeWhile

namespace ChipEight

section Names

theorem Flag.ofName?_name (f : Flag) : Flag.ofName? f.name = some f := by
  cases f <;> decide

theorem ValueOption.ofName?_name (v : ValueOption) : ValueOption.ofName? v.name = some v := by
  cases v <;> decide

theorem ValueOption.ofName?_flag_name (f : Flag) : ValueOption.ofName? f.name = none := by
  cases f <;> decide

/-- A name of an option: it is not empty and can be told from a value behind it. -/
def IsName (name : String) : Prop :=
  name ≠ "" ∧ '=' ∉ name.toList

theorem IsName.decide_ne {name : String} (h : IsName name) :
    ∀ c ∈ name.toList, decide (c ≠ '=') = true := by
  intro c hc
  exact decide_eq_true fun heq => h.2 (heq ▸ hc)

theorem Flag.isName (f : Flag) : IsName f.name := by
  cases f <;> exact ⟨by decide, by decide⟩

theorem ValueOption.isName (v : ValueOption) : IsName v.name := by
  cases v <;> exact ⟨by decide, by decide⟩

end Names

namespace Token

variable {name text : String}

theorem ofArgument_dashes {cs : List Char} {argument : String}
    (h : argument.toList = '-' :: '-' :: cs) (hne : cs ≠ []) : ofArgument argument = ofLong cs := by
  obtain ⟨c, rest, rfl⟩ := List.exists_cons_of_ne_nil hne
  simp only [ofArgument, h]

theorem ofArgument_long (h : IsName name) : ofArgument ("--" ++ name) = long name none := by
  have hlist : ("--" ++ name).toList = '-' :: '-' :: name.toList := String.toList_append
  rw [ofArgument_dashes hlist (by simpa using h.1), ofLong]
  simp only [List.takeWhile_eq_self_iff.mpr h.decide_ne, List.dropWhile_eq_nil_iff.mpr h.decide_ne,
    String.ofList_toList]

theorem ofArgument_long_with (h : IsName name) (value : String) :
    ofArgument ("--" ++ name ++ "=" ++ value) = long name (some value) := by
  have hlist : ("--" ++ name ++ "=" ++ value).toList =
      '-' :: '-' :: (name.toList ++ '=' :: value.toList) := by
    simp [String.toList_append]
  rw [ofArgument_dashes hlist (by simp), ofLong]
  simp only [List.takeWhile_append_of_pos h.decide_ne,
    List.dropWhile_append_of_pos h.decide_ne]
  simp

theorem ofArgument_plain (h : text.toList.head? ≠ some '-') : ofArgument text = plain text := by
  unfold ofArgument
  split
  · next heq => simp [heq] at h
  · next heq => simp [heq] at h
  · next heq => simp [heq] at h
  · rfl

end Token

namespace Draft

variable {text : String} {n : Nat}

theorem readWord?_of_denotes (h : Numeral.Denotes text n) (hn : n < 2 ^ 64) :
    readWord? text = some n := by
  have hsize : n < UInt64.size := hn
  simp [readWord?, Numeral.readUnsigned?_of_denotes h, hsize]

theorem readScale?_of_denotes (h : Numeral.Denotes text n) (hn : n < 2 ^ 32) :
    readScale? text = some n := by
  have hsize : n < UInt32.size := hn
  have hnat : (n : Int).toNat? = some n := rfl
  simp [readScale?, Numeral.readSigned?_of_denotes h, hnat, hsize]

end Draft

namespace Reading

variable {r : Reading} {d d' : Draft} {text : String}

theorem accept_long (hopen : r.optionsEnded = false) {argument name : String}
    {value : Option String} (htoken : Token.ofArgument argument = .long name value) :
    r.accept argument = r.acceptLong argument name value := by
  simp [accept, hopen, htoken]

theorem accept_flag (hopen : r.optionsEnded = false) (hsettle : r.settle = .ok d) {f : Flag}
    (hset : d.setFlag f = .ok d') :
    r.accept ("--" ++ f.name) = .ok { r with draft := d', pending := .nothing } := by
  rw [accept_long hopen (Token.ofArgument_long f.isName)]
  simp [acceptLong, ValueOption.ofName?_flag_name, Flag.ofName?_name, hsettle, hset, bind,
    Except.bind, pure, Except.pure]

theorem accept_value (hopen : r.optionsEnded = false) (hsettle : r.settle = .ok d)
    (v : ValueOption) :
    r.accept ("--" ++ v.name) = .ok { r with draft := d, pending := .option v none } := by
  rw [accept_long hopen (Token.ofArgument_long v.isName)]
  simp [acceptLong, ValueOption.ofName?_name, hsettle, bind, Except.bind, pure, Except.pure]

theorem accept_value_with (hopen : r.optionsEnded = false) (hsettle : r.settle = .ok d)
    {v : ValueOption} (hset : d.setValue v text = .ok d') :
    r.accept ("--" ++ v.name ++ "=" ++ text) =
      .ok { r with draft := d', pending := .nothing } := by
  rw [accept_long hopen (Token.ofArgument_long_with v.isName text)]
  simp [acceptLong, ValueOption.ofName?_name, hsettle, hset, bind, Except.bind, pure, Except.pure]

theorem accept_plain (hopen : r.optionsEnded = false) (htext : text.toList.head? ≠ some '-') :
    r.accept text = r.acceptPlain text := by
  simp [accept, hopen, Token.ofArgument_plain htext]

theorem accept_text (hopen : r.optionsEnded = false) {v : ValueOption}
    (hpending : r.pending = .option v none) (htext : text.toList.head? ≠ some '-') :
    r.accept text = .ok { r with pending := .option v (some text) } := by
  rw [accept_plain hopen htext]
  simp only [acceptPlain, hpending, hopen]

theorem accept_rom (hopen : r.optionsEnded = false) (hsettle : r.settle = .ok d)
    (hrom : r.hasRom = false) (htext : text.toList.head? ≠ some '-') :
    r.accept text = .ok { r with draft := d, pending := .rom text } := by
  rw [accept_plain hopen htext, acceptPlain]
  split
  · -- An option that waits for its value cannot be settled.
    next hpending _ => simp [settle, hpending] at hsettle
  · simp [hrom, hsettle, bind, Except.bind, pure, Except.pure]

end Reading

end ChipEight
