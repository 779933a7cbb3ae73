/-! Binary floating point, with a format's two field widths as its parameters.

A magnitude is a bit pattern without its sign. Finite magnitudes count in units, a unit being the
least positive value of the format; in that scale rounding needs whole numbers only. -/
namespace SeededTraits

structure FloatFormat where
  exponentBits : Nat
  fractionBits : Nat
  deriving DecidableEq

namespace FloatFormat

def half : FloatFormat := ⟨5, 10⟩

def single : FloatFormat := ⟨8, 23⟩

def double : FloatFormat := ⟨11, 52⟩

/-- The binary logarithm of the number of units in one. -/
def scale (f : FloatFormat) : Nat :=
  (1 <<< (f.exponentBits - 1)) + f.fractionBits - 2

/-- The magnitude of infinity; those of NaNs lie above it. -/
def infinity (f : FloatFormat) : Nat :=
  ((1 <<< f.exponentBits) - 1) <<< f.fractionBits

def signWeight (f : FloatFormat) : Nat :=
  1 <<< (f.exponentBits + f.fractionBits)

/-- How many units a finite magnitude stands for. -/
def units (f : FloatFormat) (magnitude : Nat) : Nat :=
  let exponent := magnitude >>> f.fractionBits
  let fraction := magnitude % (1 <<< f.fractionBits)
  if exponent = 0 then fraction else ((1 <<< f.fractionBits) + fraction) <<< (exponent - 1)

/-- The whole number nearest to a quotient, a tie going to the even one. -/
def divEven (a b : Nat) : Nat :=
  let q := a / b
  let r := a % b
  if b < 2 * r ∨ (2 * r = b ∧ q % 2 = 1) then q + 1 else q

/-- The magnitude nearest to `num / den`. Where a fraction field would overflow, the carry runs
into the exponent, and where the exponent does, the result is infinity. -/
def nearest (f : FloatFormat) (num den : Nat) : Nat :=
  let n := num <<< f.scale
  let shift := (n / den).log2 - f.fractionBits
  let magnitude := (shift <<< f.fractionBits) + divEven n (den <<< shift)
  if magnitude < f.infinity then magnitude else f.infinity

/-- A magnitude of one format in another; a NaN keeps the leading bits of its fraction. -/
def convert (source target : FloatFormat) (magnitude : Nat) : Nat :=
  if magnitude < source.infinity then
    target.nearest (source.units magnitude) (1 <<< source.scale)
  else
    target.infinity +
      (((magnitude - source.infinity) <<< target.fractionBits) >>> source.fractionBits)

def widen (f : FloatFormat) (bits : Nat) : UInt64 :=
  let sign := bits / f.signWeight
  UInt64.ofNat (sign * double.signWeight + convert f double (bits % f.signWeight))

/-- The bit pattern of this format that widens to just this double, if there is one. -/
def narrow? (f : FloatFormat) (bits : UInt64) : Option Nat :=
  let sign := bits.toNat / double.signWeight
  let short := sign * f.signWeight + convert double f (bits.toNat % double.signWeight)
  if bits = f.widen short then some short else none

theorem widen_of_narrow? {f : FloatFormat} {bits : UInt64} {short : Nat}
    (h : f.narrow? bits = some short) : f.widen short = bits := by
  simp only [narrow?] at h
  split at h
  · rename_i hw
    rw [← Option.some.inj h]
    exact hw.symm
  · contradiction

def isNaN (bits : UInt64) : Bool :=
  double.infinity < bits.toNat % double.signWeight

end FloatFormat
end SeededTraits
