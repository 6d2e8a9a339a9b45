import ChipEight.Proofs.Machine.History
import Mathlib.Control.Monad.Basic
import Mathlib.Data.Fin.Tuple.Take

namespace ChipEight

namespace Machine

section Step

variable {m : Machine}

end Step

end Machine

end ChipEight
