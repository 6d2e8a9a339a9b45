namespace ChipEight.ChaCha

abbrev Key := Vector UInt32 8

abbrev Row := Vector UInt32 4

def rotateLeft (x count : UInt32) : UInt32 :=
  x <<< count ||| x >>> (32 - count)

namespace Row

def add (r s : Row) : Row :=
  r.zipWith (· + ·) s

/-- The exclusive or of two rows, with the bits of each word then rotated. -/
def mixBits (r s : Row) (count : UInt32) : Row :=
  r.zipWith (fun x y => rotateLeft (x ^^^ y) count) s

/-- Moves each word one place to the left, and the first one to the end. -/
def turn (r : Row) : Row :=
  #v[r[1], r[2], r[3], r[0]]

end Row

structure Block where
  a : Row
  b : Row
  c : Row
  d : Row
deriving DecidableEq

namespace Block

def words (s : Block) : Vector UInt32 16 :=
  s.a ++ s.b ++ s.c ++ s.d

def add (s t : Block) : Block :=
  { a := s.a.add t.a, b := s.b.add t.b, c := s.c.add t.c, d := s.d.add t.d }

/-- The quarter round, on the four columns at once. -/
def mixColumns (s : Block) : Block :=
  let a := s.a.add s.b
  let d := s.d.mixBits a 16
  let c := s.c.add d
  let b := s.b.mixBits c 12
  let a := a.add b
  let d := d.mixBits a 8
  let c := c.add d
  let b := b.mixBits c 7
  { a := a, b := b, c := c, d := d }

/-- Turns the rows so that the diagonals become columns. -/
def toDiagonals (s : Block) : Block :=
  { a := s.a, b := s.b.turn, c := s.c.turn.turn, d := s.d.turn.turn.turn }

def ofDiagonals (s : Block) : Block :=
  { a := s.a, b := s.b.turn.turn.turn, c := s.c.turn.turn, d := s.d.turn }

/-- Mixes the columns and then the diagonals. -/
def doubleRound (s : Block) : Block :=
  s.mixColumns.toDiagonals.mixColumns.ofDiagonals

def initial (key : Key) (counter : UInt64) : Block :=
  { a := #v[0x61707865, 0x3320646E, 0x79622D32, 0x6B206574]
    b := #v[key[0], key[1], key[2], key[3]]
    c := #v[key[4], key[5], key[6], key[7]]
    d := #v[counter.toUInt32, (counter >>> 32).toUInt32, 0, 0] }

/-- The block of a counter: six double rounds, and what they began with added to the result. -/
def ofCounter (key : Key) (counter : UInt64) : Block :=
  (Nat.repeat doubleRound 6 (initial key counter)).add (initial key counter)

end Block

/-- The word at a position of the stream, which is the blocks in the order of their counters. -/
def word (key : Key) (position : Nat) : UInt32 :=
  (Block.ofCounter key (UInt64.ofNat (position / 16))).words.get
    ⟨position % 16, Nat.mod_lt _ (by decide)⟩

end ChipEight.ChaCha
