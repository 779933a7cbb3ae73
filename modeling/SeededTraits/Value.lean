import SeededTraits.Bytes
import SeededTraits.KeyOrder

/-! Decoded values, the common ground of both containers. Plain integers span 65 bits and wider
ones are bignum tags; read as a number, either is clamped to 128 signed bits. -/
namespace SeededTraits

inductive Value
  | null
  | bool (b : Bool)
  | unsigned (n : UInt64)
  /-- The integer `-1 - n`. -/
  | negative (n : UInt64)
  /-- A double, by its bit pattern. -/
  | float (bits : UInt64)
  | text (s : String)
  | bytes (b : Bytes)
  | tag (t : UInt64) (content : Value)
  | array (items : List Value)
  /-- Entries in the order they came, repeated keys included. -/
  | map (entries : List (Value × Value))

def leastWide : Int := -0x80000000000000000000000000000000

def greatestWide : Int := 0x7fffffffffffffffffffffffffffffff

def clampWide (i : Int) : Int :=
  if i < leastWide then leastWide else if greatestWide < i then greatestWide else i

/-- A number that an unsigned word of 128 bits holds. -/
def word128? (n : Nat) : Option Nat :=
  if n < 0x100000000000000000000000000000000 then some n else none

namespace Bytes

/-- The number in front of one more byte, unless a step of the arithmetic leaves 128 bits. -/
def shiftIn? (n : Nat) (b : UInt8) : Option Nat :=
  (word128? (n * 256)).bind fun shifted => word128? (shifted + b.toNat)

/-- The number that the bytes write, as far as 128 bits go. -/
def toWord128? (bs : Bytes) : Option Nat :=
  bs.foldlM shiftIn? 0

/-- The number that the bytes write; the greatest 128-bit integer in place of any above it. -/
def magnitude (bs : Bytes) : Int :=
  match bs.toWord128? with
  | none => greatestWide
  | some n => if n ≤ greatestWide then n else greatestWide

end Bytes

namespace Value

def positiveBignum : UInt64 := 2

def negativeBignum : UInt64 := 3

/-- A plain integer where 65 bits suffice, otherwise a bignum over the fewest bytes. -/
def ofInt : Int → Value
  | .ofNat n =>
    if n < UInt64.size then .unsigned (UInt64.ofNat n)
    else .tag positiveBignum (.bytes (Bytes.minimal n))
  | .negSucc n =>
    if n < UInt64.size then .negative (UInt64.ofNat n)
    else .tag negativeBignum (.bytes (Bytes.minimal n))

def plainInteger? : Value → Option Int
  | .unsigned n => some (Int.ofNat n.toNat)
  | .negative n => some (Int.negSucc n.toNat)
  | _ => none

/-- The number in a plain integer or a bignum, clamped to 128 bits. -/
def integer? : Value → Option Int
  | .unsigned n => some (Int.ofNat n.toNat)
  | .negative n => some (Int.negSucc n.toNat)
  | .tag t (.bytes content) =>
    if t = positiveBignum then some content.magnitude
    else if t = negativeBignum then some (-1 - content.magnitude)
    else none
  | _ => none

def text? : Value → Option String
  | .text s => some s
  | _ => none

def map? : Value → Option (List (Value × Value))
  | .map entries => some entries
  | _ => none

end Value

/-! ### The object form -/

namespace Value

mutual

def objectForm : Value → Value
  | .array items => .array (objectForms items)
  | .map entries =>
    .map ((KeyOrder.lastOfEach (objectMembers entries)).map fun e => (.text e.1, e.2))
  | .tag t content => .tag t (objectForm content)
  | v => v

def objectForms : List Value → List Value
  | [] => []
  | v :: rest => objectForm v :: objectForms rest

def objectMembers : List (Value × Value) → List (String × Value)
  | [] => []
  | (k, v) :: rest =>
    match k with
    | .text s => (s, objectForm v) :: objectMembers rest
    | _ => objectMembers rest

end

theorem objectForms_eq (items : List Value) : objectForms items = items.map objectForm := by
  induction items with
  | nil => rfl
  | cons v rest ih => simp [objectForms, ih]

end Value

end SeededTraits
