import SeededTraits.Bytes
import SeededTraits.FloatFormat
import SeededTraits.Value

/-! JSON numbers, kept digit by digit. What is not kept is how the exponent is spelled: it is
written with a small `e` and always with its sign. -/
namespace SeededTraits
namespace Json

abbrev Digit := Fin 10

namespace Digit

def toByte (d : Digit) : UInt8 := UInt8.ofNat (48 + d.val)

def ofByte? (b : UInt8) : Option Digit :=
  if h : 48 ≤ b.toNat ∧ b.toNat < 58 then some ⟨b.toNat - 48, by omega⟩ else none

@[simp] theorem ofByte?_toByte (d : Digit) : ofByte? d.toByte = some d := by
  revert d
  decide

theorem toByte_of_ofByte? {b : UInt8} {d : Digit} (h : ofByte? b = some d) : d.toByte = b := by
  unfold ofByte? at h
  split at h
  · rename_i hb
    rw [← Option.some.inj h, toByte]
    apply UInt8.toNat_inj.1
    rw [UInt8.toNat_ofNat']
    change (48 + (b.toNat - 48)) % 256 = b.toNat
    omega
  · contradiction

end Digit

def isDigit (b : UInt8) : Bool := (Digit.ofByte? b).isSome

def decimalValue (ds : List Digit) : Nat :=
  ds.foldl (fun n d => 10 * n + d.val) 0

theorem foldl_decimalValue (n : Nat) (ds : List Digit) :
    ds.foldl (fun n d => 10 * n + d.val) n = n * Nat.pow 10 ds.length + decimalValue ds := by
  induction ds generalizing n with
  | nil => simp [decimalValue]
  | cons d ds ih =>
    have power : Nat.pow 10 (ds.length + 1) = Nat.pow 10 ds.length * 10 := rfl
    have tail := ih (10 * 0 + d.val)
    rw [decimalValue, List.foldl_cons, List.foldl_cons, ih, tail, List.length_cons, power,
      Nat.add_mul, Nat.add_mul, Nat.mul_zero, Nat.zero_mul, Nat.zero_add, Nat.mul_comm 10 n,
      Nat.mul_assoc, Nat.mul_comm 10, Nat.add_assoc]

theorem decimalValue_append (front back : List Digit) :
    decimalValue (front ++ back) =
      decimalValue front * Nat.pow 10 back.length + decimalValue back := by
  simp only [decimalValue, List.foldl_append]
  exact foldl_decimalValue _ back

/-- The value of a row put together from those of its halves, and so on `depth` levels down: a
long row then takes few products of long numbers. -/
def halvedValue : (depth : Nat) → List Digit → Nat
  | 0, ds => decimalValue ds
  | depth + 1, ds =>
    let half := ds.length / 2
    halvedValue depth (ds.take half) * Nat.pow 10 (ds.length - half) +
      halvedValue depth (ds.drop half)

@[simp] theorem halvedValue_eq (depth : Nat) (ds : List Digit) :
    halvedValue depth ds = decimalValue ds := by
  induction depth generalizing ds with
  | zero => rfl
  | succ depth ih =>
    simp only [halvedValue, ih]
    rw [← List.length_drop, ← decimalValue_append, List.take_append_drop]

def rowValue (ds : List Digit) : Nat :=
  halvedValue (ds.length / 32).log2 ds

@[simp] theorem rowValue_eq (ds : List Digit) : rowValue ds = decimalValue ds :=
  halvedValue_eq _ ds

/-- The last digits of `n`, at most `count` of them, in front of those already done. -/
def decimalDigitsWith : (count n : Nat) → (done : List Digit) → List Digit
  | 0, _, done => done
  | count + 1, n, done =>
    let d : Digit := ⟨n % 10, Nat.mod_lt n (by decide)⟩
    if n < 10 then d :: done else decimalDigitsWith count (n / 10) (d :: done)

def decimalDigits (n : Nat) : List Digit :=
  decimalDigitsWith (n + 1) n []

structure Exponent where
  negative : Bool
  digits : List Digit
  deriving DecidableEq

namespace Exponent

/-- A digit counts only while those before it write less than `2 ^ 16`; the digits after that are
passed over. -/
def countDigit (n : Nat) (d : Digit) : Nat :=
  if n < 65536 then 10 * n + d.val else n

/-- The exponent without its sign, as far as its digits count. -/
def magnitude (e : Exponent) : Nat :=
  e.digits.foldl countDigit 0

def power (e : Exponent) : Int :=
  if e.negative then -Int.ofNat e.magnitude else Int.ofNat e.magnitude

end Exponent

structure Number where
  negative : Bool
  whole : List Digit
  /-- The digits after the point; none if there is no point. -/
  fraction : List Digit
  exponent : Option Exponent
  deriving DecidableEq

namespace Number

def ofNat (n : Nat) : Number := ⟨false, decimalDigits n, [], none⟩

def isInteger (n : Number) : Bool :=
  n.fraction.isEmpty && n.exponent.isNone

/-- The number as far as the point. -/
def integer (n : Number) : Int :=
  if n.negative then -Int.ofNat (rowValue n.whole) else Int.ofNat (rowValue n.whole)

/-- The power of ten by which all digits, read as one number, are to be multiplied. -/
def decimalShift (n : Number) : Int :=
  let shift : Int := match n.exponent with
    | none => 0
    | some e => e.power
  shift - Int.ofNat n.fraction.length

/-- The magnitude of the nearest double. Beyond `10 ^ 310` it is infinite and below `10 ^ -330` it
is zero, whatever the digits, so that no power of ten has to be larger than the text is long. -/
def doubleMagnitude (n : Number) : Nat :=
  let significand := n.whole ++ n.fraction
  let m := rowValue significand
  let shift := n.decimalShift
  let order := Int.ofNat (significand.dropWhile fun d => d.val == 0).length + shift
  if m = 0 ∨ order < -330 then 0
  else if 310 < order then FloatFormat.double.infinity
  else match shift with
    | .ofNat k => FloatFormat.double.nearest (m * Nat.pow 10 k) 1
    | .negSucc k => FloatFormat.double.nearest m (Nat.pow 10 (k + 1))

def double? (n : Number) : Option UInt64 :=
  let magnitude := n.doubleMagnitude
  let sign := if n.negative then FloatFormat.double.signWeight else 0
  if magnitude < FloatFormat.double.infinity then some (UInt64.ofNat (sign + magnitude)) else none

/-- The value of a row of digits without sign, point or exponent, if it fits 64 bits. -/
def uint64? (n : Number) : Option UInt64 :=
  if n.isInteger = true ∧ n.negative = false ∧ rowValue n.whole < UInt64.size then
    some (UInt64.ofNat (rowValue n.whole))
  else none

def integerWithin? (least greatest : Int) (n : Number) : Option Int :=
  if n.isInteger = true ∧ least ≤ n.integer ∧ n.integer ≤ greatest then some n.integer else none

/-- The value of digits behind at most a sign. Where 128 bits are too few, the sign alone tells
which of their limits stands for it. -/
def wideInteger? (n : Number) : Option Int :=
  if n.isInteger then
    match n.integerWithin? leastWide greatestWide with
    | some i => some i
    | none => some (if n.negative then leastWide else greatestWide)
  else none

/-- Digits alone give an integer, clamped to 128 bits, and anything else a float, or null where no
finite float is near enough. -/
def toValue (n : Number) : Value :=
  match n.uint64? with
  | some u => .unsigned u
  | none =>
    match n.integerWithin? (-0x8000000000000000) 0x7fffffffffffffff with
    | some i => .ofInt i
    | none =>
      match n.wideInteger? with
      | some i => .ofInt i
      | none =>
        match n.double? with
        | some bits => .float bits
        | none => .null

def uint32? (n : Number) : Option UInt32 :=
  if n.isInteger = true ∧ n.negative = false ∧ rowValue n.whole < UInt32.size then
    some (UInt32.ofNat (rowValue n.whole))
  else none

def digits (bs : Bytes) : List Digit × Bytes :=
  ((bs.takeWhile isDigit).filterMap Digit.ofByte?, bs.dropWhile isDigit)

def someDigits : Reader (List Digit) := fun bs =>
  match digits bs with
  | ([], _) => none
  | (ds, rest) => some (ds, rest)

/-- The digits before the point, which start with zero only if there is no other. -/
def readWhole : Reader (List Digit) := fun bs =>
  match someDigits bs with
  | some (d :: d' :: ds, rest) => if d.val = 0 then none else some (d :: d' :: ds, rest)
  | result => result

def readFraction : Reader (List Digit) := fun bs =>
  match bs with
  | [] => some ([], [])
  | b :: rest => if b = Ascii.point then someDigits rest else some ([], b :: rest)

/-- Takes the given byte if it is there. -/
def sign (b : UInt8) (bs : Bytes) : Bool × Bytes :=
  match bs with
  | [] => (false, [])
  | c :: rest => if c = b then (true, rest) else (false, c :: rest)

def readExponent : Reader (Option Exponent) := fun bs =>
  match bs with
  | [] => some (none, [])
  | b :: rest =>
    if b = Ascii.lowerE ∨ b = Ascii.upperE then
      let (negative, unsigned) := sign Ascii.minus rest
      let unsigned := if negative then unsigned else (sign Ascii.plus unsigned).2
      Reader.map (fun ds => some ⟨negative, ds⟩) someDigits unsigned
    else some (none, b :: rest)

def read : Reader Number := fun bs =>
  let (negative, unsigned) := sign Ascii.minus bs
  match readWhole unsigned with
  | none => none
  | some (whole, rest) =>
    match readFraction rest with
    | none => none
    | some (fraction, rest) =>
      match readExponent rest with
      | none => none
      | some (exponent, rest) => some (⟨negative, whole, fraction, exponent⟩, rest)

def digitBytes (ds : List Digit) : Bytes := ds.map Digit.toByte

def writeFraction : List Digit → Bytes
  | [] => []
  | ds => Ascii.point :: digitBytes ds

def writeExponent : Option Exponent → Bytes
  | none => []
  | some e =>
    Ascii.lowerE :: (if e.negative then Ascii.minus else Ascii.plus) :: digitBytes e.digits

def write (n : Number) : Bytes :=
  (if n.negative then [Ascii.minus] else []) ++ digitBytes n.whole ++ writeFraction n.fraction ++
    writeExponent n.exponent

end Number
end Json
end SeededTraits
