import Mathlib.Tactic.SplitIfs
import SeededTraits.Cbor
import SeededTraits.Proofs.Bytes

/-! A CBOR item is read without a look at what follows it. An item tells its own end, by its head or
by a stop, so more bytes behind it, and with them more room, change nothing. -/
namespace SeededTraits
namespace Cbor

open Reader (Persists)

/-! ### Heads -/

namespace Head

end Head

/-! ### Rows that end at a stop -/

variable {width width' : Nat}

/-- Whatever the reader finds starts with a head. -/
def Headed (read : Reader Value) : Prop :=
  ∀ bs r, read bs = some r → (Head.read bs).isSome

theorem Headed.nil {read : Reader Value} (h : Headed read) : read [] = none := by
  cases hread : read [] with
  | none => rfl
  | some r => exact absurd (h [] r hread) (by decide)

end Cbor
end SeededTraits
