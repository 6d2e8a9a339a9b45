import ChipEight.Random.ChaCha

namespace ChipEight

/-- A stream of words, and how many of them were drawn. -/
structure RandomSource where
  words : Nat → UInt32
  position : Nat := 0

namespace RandomSource

/-- One step of the generator that stretches a seed into a key. -/
def advanceSeed (s : UInt64) : UInt64 :=
  s * 6364136223846793005 + 11634580027462260723

/-- The word that a state of that generator yields: bits of the state, rotated to the right by its
top five bits. -/
def seedWord (s : UInt64) : UInt32 :=
  let count : UInt32 := (s >>> 59).toUInt32
  ChaCha.rotateLeft (((s >>> 18) ^^^ s) >>> 27).toUInt32 (32 - count)

/-- The key of a seed: the words that the generator yields after one to eight steps. -/
def keyOfSeed (seed : UInt64) : ChaCha.Key :=
  .ofFn fun n => seedWord (Nat.repeat advanceSeed (n + 1) seed)

/-- The source of a seed: the words of the ChaCha stream of its key. -/
def ofSeed (seed : UInt64) : RandomSource :=
  { words := ChaCha.word (keyOfSeed seed) }

def draw (r : RandomSource) : UInt32 × RandomSource :=
  (r.words r.position, { r with position := r.position + 1 })

def skip (r : RandomSource) (count : Nat) : RandomSource :=
  Nat.repeat (fun r => r.draw.2) count r

end RandomSource

end ChipEight
