import ChipEight.Numeral

namespace ChipEight

/-- Why an access to memory, to the register file or to the keypad was rejected. -/
inductive AccessError
  | noSuchAddress (address : Nat)
  | noSuchRegister (index : UInt8)
  | noSuchKey (key : UInt8)
  /-- A program image does not fit above its load address. -/
  | programTooLarge (size capacity : Nat)
deriving DecidableEq, Repr

def AccessError.message : AccessError → String
  | noSuchAddress a => "address " ++ Numeral.hexPrefixed 4 a ++ " is out of bounds"
  | noSuchRegister x => "register V" ++ Numeral.hexUpper 1 x.toNat ++ " does not exist"
  | noSuchKey k => "key " ++ Numeral.hexPrefixed 2 k.toNat ++ " is not on the keypad"
  | programTooLarge size capacity =>
    "program is too large (" ++ Numeral.decimal size ++ " bytes), max size is "
      ++ Numeral.decimal capacity ++ " bytes"

/-- A value, and the errors of the accesses that were rejected on the way to it. -/
structure Access (α : Type) where
  value : α
  rejected : List AccessError := []

namespace Access

instance : Monad Access where
  pure a := { value := a }
  bind a f :=
    let b := f a.value
    { value := b.value, rejected := a.rejected ++ b.rejected }

/-- Makes an access and goes on with `fallback` if it is rejected. -/
def attempt {α : Type} (fallback : α) : Except AccessError α → Access α
  | .ok a => { value := a }
  | .error e => { value := fallback, rejected := [e] }

@[simp] theorem value_pure {α : Type} (a : α) : (pure a : Access α).value = a := rfl

@[simp] theorem rejected_pure {α : Type} (a : α) : (pure a : Access α).rejected = [] := rfl

@[simp] theorem value_bind {α β : Type} (a : Access α) (f : α → Access β) :
    (a >>= f).value = (f a.value).value := rfl

@[simp] theorem rejected_bind {α β : Type} (a : Access α) (f : α → Access β) :
    (a >>= f).rejected = a.rejected ++ (f a.value).rejected := rfl

@[simp] theorem attempt_ok {α : Type} (fallback a : α) :
    attempt fallback (.ok a) = pure a := rfl

@[simp] theorem value_attempt_error {α : Type} (fallback : α) (e : AccessError) :
    (attempt fallback (.error e)).value = fallback := rfl

@[simp] theorem rejected_attempt_error {α : Type} (fallback : α) (e : AccessError) :
    (attempt fallback (.error e)).rejected = [e] := rfl

end Access

end ChipEight
