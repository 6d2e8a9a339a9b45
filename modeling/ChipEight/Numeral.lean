namespace ChipEight.Numeral

/-- The hexadecimal digits of `n` in lowercase, filled up with zeros on the left to at least
`width`. -/
def hexDigits (width n : Nat) : List Char :=
  (Nat.toDigits 16 n).leftpad width '0'

/-- Lowercase hexadecimal with at least `width` digits. -/
def hex (width n : Nat) : String :=
  String.ofList (hexDigits width n)

/-- Uppercase hexadecimal with at least `width` digits. -/
def hexUpper (width n : Nat) : String :=
  String.ofList ((hexDigits width n).map Char.toUpper)

/-- Lowercase hexadecimal behind `0x`; `width` does not count the `0x`. -/
def hexPrefixed (width n : Nat) : String :=
  "0x" ++ hex width n

def decimal (n : Nat) : String :=
  String.ofList (Nat.toDigits 10 n)

/-- Reads a run of ASCII decimal digits that is not empty; leading zeros are allowed. -/
def read? (cs : List Char) : Option Nat :=
  if cs ≠ [] ∧ cs.all Char.isDigit then some (Nat.ofDigitChars 10 cs 0) else none

/-- Reads a natural number that may carry a plus sign. -/
def readUnsigned? : List Char → Option Nat
  | '+' :: cs => read? cs
  | cs => read? cs

/-- Reads an integer that may carry a sign. -/
def readSigned? : List Char → Option Int
  | '-' :: cs => (read? cs).map fun n => -(n : Int)
  | cs => (readUnsigned? cs).map Int.ofNat

theorem all_isDigit_toDigits (n : Nat) : (Nat.toDigits 10 n).all Char.isDigit = true := by
  induction n using Nat.strongRecOn with
  | ind n ih =>
    rw [Nat.toDigits_eq_if (by decide)]
    split
    · simp [Nat.isDigit_digitChar, *]
    · rw [List.all_append, ih (n / 10) (by omega)]
      simp [Nat.isDigit_digitChar, Nat.mod_lt]

theorem read?_toDigits (n : Nat) : read? (Nat.toDigits 10 n) = some n := by
  simp [read?, all_isDigit_toDigits, Nat.toDigits_ne_nil, Nat.ofDigitChars_ten_toDigits]

end ChipEight.Numeral
